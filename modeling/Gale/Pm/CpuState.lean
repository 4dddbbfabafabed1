import Gale.Pm.Transitions

namespace Gale.Pm

open Lib

inductive CpuOp where
  | ForceState (state : PmState) (substateId : UInt8)
  | EnterState (state : PmState) (substateId : UInt8)
  | Resume

def PmCpuState.call (s : PmCpuState) : CpuOp → Int × PmCpuState
  | .ForceState state substateId => s.forceState state substateId
  | .EnterState state substateId => s.enterState state substateId
  | .Resume => s.resume

def PmCpuState.recorded (s : PmCpuState) : PmState := s.current.getD .Active

structure CpuEvent where
  op : CpuOp
  rc : Int
  before : PmState
  after : PmState

structure CpuHistory where
  cpu : PmCpuState
  past : List CpuEvent

namespace CpuHistory

def init : CpuHistory := ⟨.init, []⟩

def event (h : CpuHistory) (op : CpuOp) : CpuEvent where
  op := op
  rc := (h.cpu.call op).1
  before := h.cpu.recorded
  after := (h.cpu.call op).2.recorded

def step (h : CpuHistory) (op : CpuOp) : Option CpuHistory :=
  some ⟨(h.cpu.call op).2, h.past ++ [h.event op]⟩

end CpuHistory

def CpuEvent.Accepts (given : PmState × UInt8) (e : CpuEvent) : Prop :=
  e.op = .ForceState given.1 given.2 ∧ e.rc = OK

def CpuEvent.Attempts (e : CpuEvent) : Prop := ∃ state substateId, e.op = .EnterState state substateId

def CpuEvent.Ends (e : CpuEvent) : Prop := e.Attempts ∨ ∃ given, e.Accepts given

def PmCpuState.slot (s : PmCpuState) : Option (PmState × UInt8) :=
  s.forced.map fun state => (state, s.forcedSubstate)

structure CpuEvent.Legal (e : CpuEvent) : Prop where
  change : e.before ≠ e.after → stateTransitionValid e.before e.after = true
  terminal : e.before = .SoftOff → e.after = .SoftOff

-- What is forced was accepted since the last attempt: it is good for the next one alone.
def CpuHistory.Single (h : CpuHistory) : Prop :=
  ∀ given, h.cpu.slot = some given → Since (CpuEvent.Accepts given) CpuEvent.Ends h.past

def CpuHistory.Follows (h : CpuHistory) : Prop := (∀ e ∈ h.past, e.Legal) ∧ h.Single

-- A CPU enters a state from Active or is already in it. Active is asked for only while nothing
-- is forced.
def EntersFit (h : CpuHistory) (op : CpuOp) : Prop :=
  ∀ state substateId, op = .EnterState state substateId →
    if state = .Active then h.cpu.forced = none
    else h.cpu.current = none ∨ h.cpu.current = some state

def PmCpuState.Inv (s : PmCpuState) : Prop := s.current ≠ some .Active

theorem PmCpuState.call_inv {s : PmCpuState} (hi : s.Inv) (op : CpuOp) : (s.call op).2.Inv := by
  cases op with
  | ForceState st id =>
    simp only [call, forceState]
    split
    · exact hi
    · exact hi
  | EnterState st id =>
    simp only [call, enterState]
    split
    · exact hi
    · next hs => exact fun h => hs (Option.some.inj h)
  | Resume =>
    simp only [call, resume]
    split_ifs
    · exact hi
    · exact hi
    · exact nofun

variable {e : CpuEvent} {h next : CpuHistory} {id : UInt8}

theorem legal_of_same (h : e.after = e.before) : e.Legal :=
  ⟨fun hne => absurd h.symm hne, fun ho => h.trans ho⟩

theorem single_of_quiet (hs : h.Single)
    (hsl : next.cpu.slot = h.cpu.slot) (hp : next.past = h.past ++ [e]) (hq : ¬ e.Ends) :
    next.Single := by
  intro given hg
  rw [hp, since_snoc]
  exact .inr ⟨hs given (hsl ▸ hg), hq⟩

theorem forceState_fits (hs : h.Single) {st : PmState} (hst : h.step (.ForceState st id) = some next) :
    (h.event (.ForceState st id)).Legal ∧ next.Single := by
  cases hst
  by_cases ho : h.cpu.current = some .SoftOff
  · have hc : h.cpu.call (.ForceState st id) = (EINVAL, h.cpu) := if_pos ho
    refine ⟨legal_of_same (by rw [CpuHistory.event, hc]), single_of_quiet hs ?_ rfl ?_⟩
    · rw [hc]
    · rintro (⟨_, _, hop⟩ | ⟨_, -, hrc⟩)
      · cases hop
      · rw [CpuHistory.event, hc] at hrc
        exact absurd (show EINVAL = OK from hrc) (by decide)
  · have hc : h.cpu.call (.ForceState st id) =
        (OK, { h.cpu with forced := some st, forcedSubstate := id }) := if_neg ho
    refine ⟨legal_of_same (by rw [CpuHistory.event, hc]; rfl), fun given hg => ?_⟩
    rw [hc] at hg
    have hsm : (st, id) = given := Option.some.inj hg
    rw [since_snoc]
    refine .inl ⟨?_, ?_⟩
    · rw [← hsm]
      rfl
    · rw [CpuHistory.event, hc]

theorem resume_fits (hs : h.Single) (hsp : h.step .Resume = some next) : (h.event .Resume).Legal ∧ next.Single := by
  cases hsp
  have hq : ¬ (h.event .Resume).Ends := by
    rintro (⟨_, _, hop⟩ | ⟨_, hop, -⟩)
    · cases hop
    · cases hop
  by_cases hst : h.cpu.postOpsRequired = false ∨ h.cpu.current = some .SoftOff
  · have hcl : h.cpu.call .Resume = (EINVAL, h.cpu) := by
      rcases hst with hp | ho
      · exact if_pos hp
      · simp [PmCpuState.call, PmCpuState.resume, ho]
    refine ⟨legal_of_same (by rw [CpuHistory.event, hcl]), single_of_quiet hs ?_ rfl hq⟩
    rw [hcl]
  · obtain ⟨hp, ho⟩ := not_or.mp hst
    have hcl : h.cpu.call .Resume = (OK, { h.cpu with postOpsRequired := false, current := none }) := by
      simp [PmCpuState.call, PmCpuState.resume, hp, ho]
    have hb : h.cpu.recorded ≠ .SoftOff := by
      unfold PmCpuState.recorded
      cases hc : h.cpu.current with
      | none => exact nofun
      | some p => exact fun heq => ho (by rw [hc]; exact congrArg some heq)
    refine ⟨⟨fun _ => ?_, fun heq => absurd heq hb⟩, single_of_quiet hs ?_ rfl hq⟩
    · rw [CpuHistory.event, hcl, stateTransitionValid_iff]
      exact .inr ⟨hb, rfl⟩
    · rw [hcl]
      rfl

theorem enterState_fits_iff (hi : h.cpu.Inv) {state : PmState} (hst : h.step (.EnterState state id) = some next) :
    (h.event (.EnterState state id)).Legal ∧ next.Single ↔
      if state = .Active then h.cpu.forced = none
      else h.cpu.current = none ∨ h.cpu.current = some state := by
  cases hst
  have he : (h.event (.EnterState state id)).Ends := .inl ⟨state, id, rfl⟩
  by_cases ha : state = .Active
  · have hcl : h.cpu.call (.EnterState state id) = (EINVAL, h.cpu) := if_pos ha
    have hl : (h.event (.EnterState state id)).Legal :=
      legal_of_same (by rw [CpuHistory.event, hcl])
    rw [if_pos ha, and_iff_right hl]
    constructor
    · intro hsn
      refine Option.eq_none_iff_forall_ne_some.mpr fun forced hf => ?_
      have hsl : h.cpu.slot = some (forced, h.cpu.forcedSubstate) := by
        rw [PmCpuState.slot, hf]
        rfl
      have hsc := hsn (forced, h.cpu.forcedSubstate) (by rw [hcl]; exact hsl)
      rcases (since_snoc _ _).mp hsc with ⟨hop, -⟩ | ⟨-, hq⟩
      · cases hop
      · exact hq he
    · intro hf given hg
      rw [hcl, PmCpuState.slot, hf] at hg
      cases hg
  · have hcl : h.cpu.call (.EnterState state id) = (OK, { h.cpu with
          current := some state
          forced := none
          forcedSubstate := 0
          postOpsRequired := true }) := if_neg ha
    have hsn : CpuHistory.Single ⟨(h.cpu.call (.EnterState state id)).2,
        h.past ++ [h.event (.EnterState state id)]⟩ := by
      intro given hg
      rw [hcl] at hg
      cases hg
    have haf : (h.event (.EnterState state id)).after = state := by
      rw [CpuHistory.event, hcl]
      rfl
    rw [if_neg ha, and_iff_left hsn]
    cases hc : h.cpu.current with
    | none =>
      have hb : (h.event (.EnterState state id)).before = .Active := by
        rw [CpuHistory.event, PmCpuState.recorded, hc]
        rfl
      refine iff_of_true ⟨fun _ => ?_, fun ho => ?_⟩ (.inl rfl)
      · rw [hb]
        rfl
      · rw [hb] at ho
        cases ho
    | some p =>
      have hb : (h.event (.EnterState state id)).before = p := by
        rw [CpuHistory.event, PmCpuState.recorded, hc]
        rfl
      have hp : p ≠ .Active := fun hp => hi (hp ▸ hc)
      simp only [reduceCtorEq, Option.some.injEq, false_or]
      constructor
      · intro hl
        by_contra hne
        have hv := hl.change (by rw [hb, haf]; exact hne)
        rw [hb, haf, stateTransitionValid_iff] at hv
        rcases hv with hs | ⟨-, ht⟩
        · exact hp hs
        · exact ha ht
      · intro hsm
        exact legal_of_same (by rw [hb, haf, hsm])

theorem entersFit_iff (hi : h.cpu.Inv) (hs : h.Single) {op : CpuOp} (hst : h.step op = some next) :
    (h.event op).Legal ∧ next.Single ↔ EntersFit h op := by
  cases op with
  | ForceState st id => exact iff_of_true (forceState_fits hs hst) nofun
  | EnterState st id =>
    rw [enterState_fits_iff hi hst]
    constructor
    · rintro hf _ _ ⟨⟩
      exact hf
    · exact fun hf => hf st id rfl
  | Resume => exact iff_of_true (resume_fits hs hst) nofun

theorem cpuFollows_iff (ops : List CpuOp) : Throughout CpuHistory.step CpuHistory.Follows CpuHistory.init ops ↔
      Along CpuHistory.step EntersFit CpuHistory.init ops := by
  have hi : CpuHistory.init.cpu.Inv ∧ CpuHistory.init.Follows :=
    ⟨nofun, by simp [CpuHistory.init], nofun⟩
  refine throughout_iff_along (fun h : CpuHistory => h.cpu.Inv ∧ h.Follows)
    (fun h hg => hg.2) ?_ ?_ hi ops
  · rintro h op next ⟨hin, hl, hs⟩ hf hst
    obtain ⟨hnw, hn⟩ := (entersFit_iff hin hs hst).mpr hf
    cases hst
    refine ⟨h.cpu.call_inv hin op, fun e he => ?_, hn⟩
    rcases List.mem_append.mp he with ho | hls
    · exact hl e ho
    · obtain rfl := List.mem_singleton.mp hls
      exact hnw
  · rintro h op next ⟨hin, -, hs⟩ hm hst ⟨hl, hn⟩
    refine hm ((entersFit_iff hin hs hst).mp ⟨?_, hn⟩)
    cases hst
    exact hl _ (List.mem_append_right _ (List.mem_singleton_self _))

theorem power_states_iff (n : Nat) (ops : List Op) (cpuOps : List CpuOp) :
    ((Throughout History.step Follows (History.boot n) ops ↔
        Along History.step AttemptsFit (History.boot n) ops) ∧
      Throughout History.step (fun h => ForcedOnce h.past) (History.boot n) ops) ∧
    (Throughout CpuHistory.step CpuHistory.Follows CpuHistory.init cpuOps ↔
      Along CpuHistory.step EntersFit CpuHistory.init cpuOps) :=
  ⟨⟨follows_iff n ops, forced_once_throughout n ops⟩, cpuFollows_iff cpuOps⟩

theorem soft_off_is_left : (∃ h, run History.step (History.boot 1)
        [.Suspend 0 true (some (5, 0)), .Suspend 0 true (some (3, 0))] = some h ∧
      h.past.map (fun e => (e.ret, e.before 0, e.after 0)) = [(0, 0, 5), (0, 5, 3)]) ∧
    ∃ h, run CpuHistory.step CpuHistory.init [.EnterState .SoftOff 0, .EnterState .Standby 0] = some h ∧
      h.past.map (fun e => (e.rc, e.before, e.after)) =
        [(OK, .Active, .SoftOff), (OK, .SoftOff, .Standby)] :=
  ⟨⟨_, rfl, rfl⟩, ⟨_, rfl, rfl⟩⟩

end Gale.Pm
