import Gale.Pm
import Gale.Lib.Past

namespace Gale.Pm

open Function Lib

theorem fromU8_asU8 (p : PmState) : PmState.fromU8 p.asU8 = .ok p := by
  cases p <;> rfl

theorem asU8_lt (p : PmState) : p.asU8 < PM_STATE_COUNT := by
  cases p <;> decide

theorem asU8_injective {p q : PmState} (h : p.asU8 = q.asU8) : p = q := by
  have hc := congrArg PmState.fromU8 h
  rw [fromU8_asU8, fromU8_asU8] at hc
  exact Except.ok.inj hc

theorem exists_asU8 {v : UInt8} (h : v < PM_STATE_COUNT) : ∃ p : PmState, v = p.asU8 := by
  have hlt : v.toNat < 6 := UInt8.lt_iff_toNat_lt.mp h
  have hv : v = UInt8.ofNat v.toNat := (UInt8.ofNat_toNat).symm
  rw [hv]
  generalize v.toNat = k at hlt
  match k, hlt with
  | 0, _ => exact ⟨.Active, rfl⟩
  | 1, _ => exact ⟨.RuntimeIdle, rfl⟩
  | 2, _ => exact ⟨.SuspendToIdle, rfl⟩
  | 3, _ => exact ⟨.Standby, rfl⟩
  | 4, _ => exact ⟨.SuspendToRam, rfl⟩
  | 5, _ => exact ⟨.SoftOff, rfl⟩

theorem galePmTransitionValid_asU8 (p q : PmState) :
    galePmTransitionValid p.asU8 q.asU8 = 1 ↔ stateTransitionValid p q = true := by
  cases p <;> cases q <;> decide

theorem stateTransitionValid_iff (p q : PmState) :
    stateTransitionValid p q = true ↔ p = .Active ∨ p ≠ .SoftOff ∧ q = .Active := by
  cases p <;> cases q <;> decide

theorem flagged_of_ge {has st : UInt8} (h : ¬ st < PM_STATE_COUNT) : flagged has st = none :=
  if_neg fun hb => h hb.2

theorem flagged_asU8 {has : UInt8} (h : has ≠ 0) (p : PmState) : flagged has p.asU8 = some p := by
  rw [flagged, if_pos ⟨h, asU8_lt p⟩, fromU8_asU8]
  rfl

structure Cpu.Inv (c : Cpu) : Prop where
  state : c.state < PM_STATE_COUNT
  forced : c.hasForced = true → c.forcedState < PM_STATE_COUNT

def Cpu.slot (c : Cpu) : Option (UInt8 × UInt8) :=
  if c.hasForced then some (c.forcedState, c.forcedSubstate) else none

def answer : Option (UInt8 × UInt8) → Option (UInt8 × UInt8)
  | some info => if info.1 < PM_STATE_COUNT then some info else none
  | none => none

def Cpu.offer (c : Cpu) (policyInfo : Option (UInt8 × UInt8)) : Option (UInt8 × UInt8) :=
  c.slot.or (answer policyInfo)

def Cpu.entered (c : Cpu) : Option (UInt8 × UInt8) → Cpu
  | some given => { c with hasForced := false, state := given.1, substate := given.2 }
  | none => { c with hasForced := false }

variable {c : Cpu}

theorem Cpu.suspend_eq (hi : c.Inv) (policyInfo : Option (UInt8 × UInt8)) :
    c.suspend policyInfo = (if (c.offer policyInfo).isSome then 0 else EAGAIN, c.offer policyInfo,
        c.entered (c.offer policyInfo)) := by
  obtain ⟨st, substate, hasForced, forcedState, fs⟩ := c
  cases hasForced with
  | true =>
    obtain ⟨p, rfl⟩ := exists_asU8 (hi.forced rfl)
    have hf : flagged 1 p.asU8 = some p := flagged_asU8 (by decide) p
    simp [suspend, galePmSuspendDecide, hf, suspendStateDecide, offer, slot, entered]
  | false =>
    have hf : flagged 0 forcedState = none := if_neg fun h => h.1 rfl
    cases policyInfo with
    | none =>
      have hp : flagged 0 0 = none := if_neg fun h => h.1 rfl
      simp [suspend, galePmSuspendDecide, hf, hp, suspendStateDecide, offer, slot, entered, answer]
    | some info =>
      obtain ⟨st, sub⟩ := info
      by_cases hs : st < PM_STATE_COUNT
      · obtain ⟨p, rfl⟩ := exists_asU8 hs
        have hp : flagged 1 p.asU8 = some p := flagged_asU8 (by decide) p
        simp [suspend, galePmSuspendDecide, hf, hp, suspendStateDecide, offer, slot, entered, answer, hs]
      · have hp : flagged 1 st = none := flagged_of_ge hs
        simp [suspend, galePmSuspendDecide, hf, hp, suspendStateDecide, offer, slot, entered, answer, hs]

theorem Cpu.force_cases (c : Cpu) (st id : UInt8) : c.force st id = (EINVAL, c) ∨
      (st < PM_STATE_COUNT ∧ c.force st id =
        (0, { c with hasForced := true, forcedState := st, forcedSubstate := id })) := by
  unfold force galePmForceDecide
  by_cases hr : c.state ≥ PM_STATE_COUNT ∨ st ≥ PM_STATE_COUNT
  · exact .inl (by simp [hr])
  · by_cases ho : c.state = PmState.SoftOff.asU8
    · exact .inl (by simp [ho])
    · refine .inr ⟨UInt8.not_le.mp fun hle => hr (.inr hle), by simp [hr, ho]⟩

theorem Cpu.offer_lt (hi : c.Inv) {policyInfo : Option (UInt8 × UInt8)}
    {given : UInt8 × UInt8} (h : c.offer policyInfo = some given) : given.1 < PM_STATE_COUNT := by
  unfold offer slot at h
  split at h
  · next hf =>
      cases h
      exact hi.forced hf
  · cases policyInfo with
    | none => cases h
    | some info =>
      simp only [Option.none_or, answer] at h
      split at h
      · next hs =>
          cases h
          exact hs
      · cases h

inductive Op where
  | Force (cpu state substateId : UInt8)
  | Suspend (cpu : UInt8) (outs : Bool) (policyInfo : Option (UInt8 × UInt8))

structure Event (n : Nat) where
  op : Op
  ret : Int
  out : Option (UInt8 × UInt8)
  before : Fin n → UInt8
  after : Fin n → UInt8

structure History (n : Nat) where
  cpus : Fin n → Cpu
  past : List (Event n)

variable {n : Nat}

def call (cpus : Fin n → Cpu) : Op → Int × Option (UInt8 × UInt8) × (Fin n → Cpu)
  | .Force cpu state substateId =>
    let (ret, cpus) := galePmStateForceChecked cpus cpu state substateId
    (ret, none, cpus)
  | .Suspend cpu outs policyInfo => galePmSuspendChecked cpus cpu outs policyInfo

namespace History

def boot (n : Nat) : History n := ⟨fun _ => .boot, []⟩

def event (h : History n) (op : Op) : Event n where
  op := op
  ret := (call h.cpus op).1
  out := (call h.cpus op).2.1
  before i := (h.cpus i).state
  after i := ((call h.cpus op).2.2 i).state

def step (h : History n) (op : Op) : Option (History n) :=
  some ⟨(call h.cpus op).2.2, h.past ++ [h.event op]⟩

end History

def Accepts (i : Fin n) (given : UInt8 × UInt8) (e : Event n) : Prop :=
  ∃ cpu : UInt8, cpu.toNat = i.val ∧ e.op = .Force cpu given.1 given.2 ∧ e.ret = 0

def Attempts (i : Fin n) (policyInfo : Option (UInt8 × UInt8)) (e : Event n) : Prop :=
  ∃ cpu : UInt8, cpu.toNat = i.val ∧ e.op = .Suspend cpu true policyInfo

def Ends (i : Fin n) (e : Event n) : Prop :=
  (∃ policyInfo, Attempts i policyInfo e) ∨ ∃ given, Accepts i given e

structure LegalMove (before after : UInt8) : Prop where
  change : before ≠ after → galePmTransitionValid before after = 1
  terminal : before = PmState.SoftOff.asU8 → after = PmState.SoftOff.asU8

def Legal (e : Event n) : Prop := ∀ i, LegalMove (e.before i) (e.after i)

-- An attempt enters the forced state accepted since the attempt before it, with its substate,
-- and what the policy answers if there is none.
def ForcedOnce (past : List (Event n)) : Prop :=
  ∀ earlier e later, past = earlier ++ e :: later → ∀ i policyInfo, Attempts i policyInfo e →
    (∀ given, Since (Accepts i given) (Ends i) earlier → e.ret = 0 ∧ e.out = some given) ∧
    ((∀ given, ¬ Since (Accepts i given) (Ends i) earlier) → e.out = answer policyInfo)

def Follows (h : History n) : Prop := (∀ e ∈ h.past, Legal e) ∧ ForcedOnce h.past

inductive Moves (i : Fin n) (e : Event n) (c : Cpu) : Cpu → Prop where
  | Accept (given : UInt8 × UInt8) (haccepts : Accepts i given e)
      (hstate : given.1 < PM_STATE_COUNT) :
      Moves i e c { c with hasForced := true, forcedState := given.1, forcedSubstate := given.2 }
  | Attempt (policyInfo : Option (UInt8 × UInt8)) (hattempts : Attempts i policyInfo e)
      (hret : e.ret = if (c.offer policyInfo).isSome then 0 else EAGAIN)
      (hout : e.out = c.offer policyInfo) : Moves i e c (c.entered (c.offer policyInfo))
  | Idle (hquiet : ¬ Ends i e) : Moves i e c c

theorem Accepts.unique {i : Fin n} {given other : UInt8 × UInt8} {e : Event n}
    (h : Accepts i given e) (ho : Accepts i other e) : given = other := by
  obtain ⟨_, -, hop, -⟩ := h
  obtain ⟨_, -, hop', -⟩ := ho
  rw [hop, Op.Force.injEq] at hop'
  exact Prod.ext hop'.2.1 hop'.2.2

theorem Attempts.not_accepts {i : Fin n} {info : Option (UInt8 × UInt8)} {e : Event n}
    (h : Attempts i info e) (given : UInt8 × UInt8) : ¬ Accepts i given e := by
  rintro ⟨_, -, hop, -⟩
  obtain ⟨_, -, ho⟩ := h
  rw [hop] at ho
  cases ho

theorem Attempts.unique {i : Fin n} {info other : Option (UInt8 × UInt8)} {e : Event n}
    (h : Attempts i info e) (ho : Attempts i other e) : info = other := by
  obtain ⟨_, -, hop⟩ := h
  obtain ⟨_, -, hop'⟩ := ho
  rw [hop] at hop'
  cases hop'
  rfl

theorem call_force (cpus : Fin n → Cpu) (cpu st id : UInt8) : call cpus (.Force cpu st id) = (EINVAL, none, cpus) ∨
      ∃ i : Fin n, cpu.toNat = i.val ∧ st < PM_STATE_COUNT ∧
        call cpus (.Force cpu st id) = (0, none, update cpus i { cpus i with
            hasForced := true, forcedState := st, forcedSubstate := id }) := by
  by_cases hc : cpu.toNat < n
  · rcases (cpus ⟨cpu.toNat, hc⟩).force_cases st id with hr | ⟨hs, hf⟩
    · exact .inl (by simp [call, galePmStateForceChecked, hc, hr])
    · exact .inr ⟨⟨cpu.toNat, hc⟩, rfl, hs, by simp [call, galePmStateForceChecked, hc, hf]⟩
  · exact .inl (by simp [call, galePmStateForceChecked, hc])

theorem call_suspend {cpus : Fin n → Cpu} (hin : ∀ i, (cpus i).Inv) (cpu : UInt8) (outs : Bool)
    (info : Option (UInt8 × UInt8)) :
    ((∀ i : Fin n, ¬ (cpu.toNat = i.val ∧ outs = true)) ∧ call cpus (.Suspend cpu outs info) = (EINVAL, none, cpus)) ∨
      ∃ i : Fin n, cpu.toNat = i.val ∧ outs = true ∧ call cpus (.Suspend cpu outs info) =
          (if ((cpus i).offer info).isSome then 0 else EAGAIN, (cpus i).offer info,
            update cpus i ((cpus i).entered ((cpus i).offer info))) := by
  by_cases ha : cpu.toNat < n ∧ outs = true
  · refine .inr ⟨⟨cpu.toNat, ha.1⟩, rfl, ha.2, ?_⟩
    simp [call, galePmSuspendChecked, ha, Cpu.suspend_eq (hin _)]
  · refine .inl ⟨fun i hi => ha ⟨hi.1 ▸ i.isLt, hi.2⟩, ?_⟩
    simp [call, galePmSuspendChecked, ha]

theorem event_moves {h : History n} (hin : ∀ i, (h.cpus i).Inv) (op : Op) (i : Fin n) :
    Moves i (h.event op) (h.cpus i) ((call h.cpus op).2.2 i) := by
  cases op with
  | Force cpu st id =>
    rcases call_force h.cpus cpu st id with hc | ⟨j, hj, hs, hc⟩
    · rw [History.event, hc]
      refine .Idle ?_
      rintro (⟨_, _, -, hop⟩ | ⟨_, _, -, -, hr⟩)
      · cases hop
      · exact absurd (show EINVAL = 0 from hr) (by decide)
    · rw [History.event, hc]
      by_cases hij : i = j
      · subst hij
        simp only [update_self]
        exact .Accept (st, id) ⟨cpu, hj, rfl, rfl⟩ hs
      · simp only [update_of_ne hij]
        refine .Idle ?_
        rintro (⟨_, _, -, hop⟩ | ⟨_, _, hi, hop, -⟩)
        · cases hop
        · simp only [Op.Force.injEq] at hop
          exact hij (Fin.ext (hi.symm.trans (hop.1 ▸ hj)))
  | Suspend cpu outs info =>
    rcases call_suspend hin cpu outs info with ⟨hn, hc⟩ | ⟨j, hj, ho, hc⟩
    · rw [History.event, hc]
      refine .Idle ?_
      rintro (⟨_, _, hi, hop⟩ | ⟨_, _, -, hop, -⟩)
      · simp only [Op.Suspend.injEq] at hop
        exact hn i ⟨hop.1 ▸ hi, hop.2.1⟩
      · cases hop
    · rw [History.event, hc]
      by_cases hij : i = j
      · subst hij
        simp only [update_self]
        exact .Attempt info ⟨cpu, hj, by rw [ho]⟩ rfl rfl
      · simp only [update_of_ne hij]
        refine .Idle ?_
        rintro (⟨_, _, hi, hop⟩ | ⟨_, _, -, hop, -⟩)
        · simp only [Op.Suspend.injEq] at hop
          exact hij (Fin.ext (hi.symm.trans (hop.1 ▸ hj)))
        · cases hop

section Moves

variable {i : Fin n} {e : Event n} {c c' : Cpu}

theorem Moves.inv (h : Moves i e c c') (hi : c.Inv) : c'.Inv := by
  cases h with
  | Accept given _ hs => exact ⟨hi.state, fun _ => hs⟩
  | Attempt info _ _ _ =>
    cases ho : c.offer info with
    | none => exact ⟨hi.state, nofun⟩
    | some given => exact ⟨Cpu.offer_lt hi ho, nofun⟩
  | Idle _ => exact hi

theorem slot_entered (c : Cpu) (offer : Option (UInt8 × UInt8)) : (c.entered offer).slot = none := by
  cases offer <;> rfl

def Tracked (past : List (Event n)) (i : Fin n) (c : Cpu) : Prop :=
  ∀ given, c.slot = some given ↔ Since (Accepts i given) (Ends i) past

theorem Moves.tracked (h : Moves i e c c') {past : List (Event n)} (ht : Tracked past i c) :
    Tracked (past ++ [e]) i c' := by
  intro other
  rw [since_snoc]
  cases h with
  | Accept given ha _ =>
    have he : Ends i e := .inr ⟨given, ha⟩
    constructor
    · intro hsl
      have hg : given = other := Option.some.inj hsl
      exact .inl (hg ▸ ha)
    · rintro (hother | ⟨-, hq⟩)
      · obtain rfl := ha.unique hother
        rfl
      · exact absurd he hq
  | Attempt info hat _ _ =>
    have he : Ends i e := .inl ⟨info, hat⟩
    rw [slot_entered]
    constructor
    · nofun
    · rintro (ha | ⟨-, hq⟩)
      · exact absurd ha (hat.not_accepts other)
      · exact absurd he hq
  | Idle hq =>
    rw [ht other]
    constructor
    · exact fun hs => .inr ⟨hs, hq⟩
    · rintro (ha | ⟨hs, -⟩)
      · exact absurd (.inr ⟨other, ha⟩) hq
      · exact hs

theorem Moves.forcedOnce (h : Moves i e c c') {past : List (Event n)} (ht : Tracked past i c)
    {info : Option (UInt8 × UInt8)} (ha : Attempts i info e) :
    (∀ given, Since (Accepts i given) (Ends i) past → e.ret = 0 ∧ e.out = some given) ∧
      ((∀ given, ¬ Since (Accepts i given) (Ends i) past) → e.out = answer info) := by
  cases h with
  | Accept given hac _ => exact absurd hac (ha.not_accepts given)
  | Attempt o ho hr hot =>
    obtain rfl := ha.unique ho
    refine ⟨fun given hs => ?_, fun hn => ?_⟩
    · have hsl : c.slot = some given := (ht given).mpr hs
      have hof : c.offer info = some given := by rw [Cpu.offer, hsl, Option.some_or]
      rw [hr, hot, hof]
      exact ⟨rfl, rfl⟩
    · have hsl : c.slot = none :=
        Option.eq_none_iff_forall_ne_some.mpr fun given hg =>
          hn given ((ht given).mp hg)
      rw [hot, Cpu.offer, hsl, Option.none_or]
  | Idle hq => exact absurd (.inl ⟨info, ha⟩) hq

end Moves

-- The state an attempt would enter is the recorded one, or the CPU is active, or it would
-- become active and is not off.
def Fits (c : Cpu) (policyInfo : Option (UInt8 × UInt8)) : Prop :=
  ∀ given, c.offer policyInfo = some given → given.1 = c.state ∨ c.state = PmState.Active.asU8 ∨
      c.state ≠ PmState.SoftOff.asU8 ∧ given.1 = PmState.Active.asU8

def AttemptsFit (h : History n) (op : Op) : Prop :=
  ∀ (i : Fin n) (cpu : UInt8) (policyInfo : Option (UInt8 × UInt8)), cpu.toNat = i.val →
    op = .Suspend cpu true policyInfo → Fits (h.cpus i) policyInfo

theorem legalMove_iff {v w : UInt8} (hv : v < PM_STATE_COUNT) (hw : w < PM_STATE_COUNT) :
    LegalMove v w ↔ w = v ∨ v = PmState.Active.asU8 ∨ v ≠ PmState.SoftOff.asU8 ∧ w = PmState.Active.asU8 := by
  obtain ⟨p, rfl⟩ := exists_asU8 hv
  obtain ⟨q, rfl⟩ := exists_asU8 hw
  have hm : LegalMove p.asU8 q.asU8 ↔ (p ≠ q → stateTransitionValid p q = true) ∧ (p = .SoftOff → q = .SoftOff) := by
    rw [← galePmTransitionValid_asU8]
    constructor
    · intro h
      exact ⟨fun hne => h.change fun heq => hne (asU8_injective heq),
        fun ho => asU8_injective (h.terminal (congrArg PmState.asU8 ho))⟩
    · rintro ⟨hc, ht⟩
      exact ⟨fun hne => hc fun heq => hne (congrArg PmState.asU8 heq),
        fun ho => congrArg PmState.asU8 (ht (asU8_injective ho))⟩
  rw [hm]
  cases p <;> cases q <;> decide

theorem Moves.legal_iff {i : Fin n} {e : Event n} {c' : Cpu} (h : Moves i e c c') (hi : c.Inv) :
    LegalMove c.state c'.state ↔ ∀ policyInfo, Attempts i policyInfo e → Fits c policyInfo := by
  rw [legalMove_iff hi.state (h.inv hi).state]
  cases h with
  | Accept given hac _ =>
    exact iff_of_true (.inl rfl)
      fun policyInfo ha => absurd hac (ha.not_accepts given)
  | Attempt policyInfo ha _ _ =>
    have hon : (∀ o, Attempts i o e → Fits c o) ↔ Fits c policyInfo :=
      ⟨fun hal => hal policyInfo ha, fun hf o ho =>
        ha.unique ho ▸ hf⟩
    rw [hon, Fits]
    cases c.offer policyInfo with
    | none => exact iff_of_true (.inl rfl) nofun
    | some given => simp [Cpu.entered]
  | Idle hq =>
    exact iff_of_true (.inl rfl)
      fun policyInfo ha => absurd (.inl ⟨policyInfo, ha⟩) hq

theorem event_legal_iff {h : History n} (hi : ∀ i, (h.cpus i).Inv) (op : Op) :
    Legal (h.event op) ↔ AttemptsFit h op := by
  have hm := fun i => (event_moves hi op i).legal_iff (hi i)
  constructor
  · intro hl i cpu info hc hop
    exact (hm i).mp (hl i) info ⟨cpu, hc, hop⟩
  · rintro hf i
    refine (hm i).mpr ?_
    rintro info ⟨cpu, hc, hop⟩
    exact hf i cpu info hc hop

structure History.Inv (h : History n) : Prop where
  cpus : ∀ i, (h.cpus i).Inv
  tracked : ∀ i, Tracked h.past i (h.cpus i)
  forced : ForcedOnce h.past

theorem Cpu.boot_inv : Cpu.boot.Inv := ⟨by decide, nofun⟩

theorem boot_inv (n : Nat) : (History.boot n).Inv where
  cpus _ := Cpu.boot_inv
  tracked _ _ := iff_of_false nofun not_since_nil
  forced := by
    intro earlier e l hp
    simp [History.boot] at hp

theorem step_inv {h next : History n} {op : Op} (hi : h.Inv) (hs : h.step op = some next) :
    next.Inv := by
  cases hs
  have hm := event_moves hi.cpus op
  exact ⟨fun i => (hm i).inv (hi.cpus i), fun i => (hm i).tracked (hi.tracked i),
    forall_split_snoc.mpr ⟨hi.forced, fun i _ ha =>
      (hm i).forcedOnce (hi.tracked i) ha⟩⟩

theorem forced_once_throughout (n : Nat) (ops : List Op) :
    Throughout History.step (fun h => ForcedOnce h.past) (History.boot n) ops :=
  (throughout_of_step (fun _ _ _ hi hs => step_inv hi hs) (boot_inv n) ops).mono
    fun _ hi => hi.forced

theorem follows_iff (n : Nat) (ops : List Op) : Throughout History.step Follows (History.boot n) ops ↔
      Along History.step AttemptsFit (History.boot n) ops := by
  have hb : (History.boot n).Inv ∧ ∀ e ∈ (History.boot n).past, Legal e :=
    ⟨boot_inv n, by simp [History.boot]⟩
  refine throughout_iff_along (fun h : History n => h.Inv ∧ ∀ e ∈ h.past, Legal e)
    (fun h hg => ⟨hg.2, hg.1.forced⟩) ?_ ?_ hb ops
  · rintro h op next ⟨hi, hl⟩ hf hs
    refine ⟨step_inv hi hs, ?_⟩
    cases hs
    intro e he
    rcases List.mem_append.mp he with ho | hn
    · exact hl e ho
    · obtain rfl := List.mem_singleton.mp hn
      exact (event_legal_iff hi.cpus op).mpr hf
  · rintro h op next ⟨hi, -⟩ hm hs ⟨hl, -⟩
    cases hs
    exact hm ((event_legal_iff hi.cpus op).mp (hl _ (List.mem_append_right _ (List.mem_singleton_self _))))

end Gale.Pm
