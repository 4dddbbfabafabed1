import Gale.Sem
import Gale.Lib.Run
import Gale.Lib.WaitQueue

namespace Gale.Sem

open Function Lib

inductive Cause where
  | Give
  | Reset
  deriving DecidableEq, Repr

def Cause.result : Cause → Int
  | .Give => 0
  | .Reset => EAGAIN

structure Removal where
  thread : Tid
  cause : Cause
  best : Bool

structure TakeReturn where
  thread : Tid
  removedBy : Option Cause
  ret : Int

-- The semaphore with what its calls did, kept for the statements: handed are the
-- threads with a permit whose take has still to return.
structure History where
  sys : State
  initialCount : Nat
  gives : Nat
  saturated : Nat
  discarded : Nat
  removedBy : Tid → Option Cause
  handed : List Tid
  removals : List Removal
  returns : List TakeReturn

inductive Op where
  | Give (pollEvents : Bool)
  | Take (thread : Tid) (inIsr : Bool) (timeout : Timeout)
  | Reset
  | TimeOut (thread : Tid)
  | Resume (thread : Tid)
  | SetPriority (thread : Tid) (prio : Int)

namespace History

def start (s : State) : History where
  sys := s
  initialCount := s.count
  gives := 0
  saturated := 0
  discarded := 0
  removedBy := fun _ => none
  handed := []
  removals := []
  returns := []

def acquired (h : History) : Nat := h.returns.countP (·.ret = 0) + h.handed.length

def gone (h : History) (next : State) : List Tid := h.sys.waitQ.filter (· ∉ next.waitQ)

def isBest (s : State) (thread : Tid) : Bool :=
  s.waitQ.all fun other => s.prio thread ≤ s.prio other

def removed (h : History) (cause : Cause) (next : State) : History :=
  { h with
    sys := next
    removedBy := fun thread => if thread ∈ h.gone next then some cause else h.removedBy thread
    handed := h.handed ++ (h.gone next).filter fun thread => next.pc thread = .Woken 0
    removals := h.removals ++ (h.gone next).map fun thread => ⟨thread, cause, isBest h.sys thread⟩ }

def gave (h : History) (next : State) : History :=
  { h.removed .Give next with
    gives := h.gives + 1
    saturated := h.saturated + if h.sys.count = h.sys.limit ∧ h.sys.waitQ = [] then 1 else 0 }

def reset (h : History) (next : State) : History :=
  { h.removed .Reset next with discarded := h.discarded + h.sys.count }

def took (h : History) (thread : Tid) (result : State × Option Int) : History :=
  { h with
    sys := result.1
    removedBy := update h.removedBy thread none
    returns := h.returns ++ (result.2.map fun ret => ⟨thread, none, ret⟩).toList }

def resumed (h : History) (thread : Tid) (ret : Int) : History :=
  { h with
    sys := { h.sys with pc := update h.sys.pc thread .Running }
    handed := h.handed.erase thread
    returns := h.returns ++ [⟨thread, h.removedBy thread, ret⟩] }

def step (cfg : Config) (policy : (Tid → Int) → Policy Tid) (h : History) : Op → Option History
  | .Give pollEvents =>
    some (h.gave (if cfg.wasmLtoSem then (h.sys.kSemGiveShim policy).1
      else (h.sys.kSemGive policy pollEvents).1))
  | .Take thread inIsr timeout =>
    if h.sys.pc thread = .Running then
      some (h.took thread (h.sys.kSemTake thread inIsr timeout))
    else none
  | .Reset => some (h.reset (h.sys.kSemReset policy))
  | .TimeOut thread =>
    match h.sys.pc thread with
    | .Pended timeout =>
      if timeout ≠ K_FOREVER then some { h with sys := h.sys.timeOut thread } else none
    | _ => none
  | .Resume thread =>
    match h.sys.pc thread with
    | .Woken ret => some (h.resumed thread ret)
    | _ => none
  | .SetPriority thread prio =>
    some { h with sys := { h.sys with prio := update h.sys.prio thread prio } }

variable {cfg : Config} {policy : (Tid → Int) → Policy Tid} {h next : History}

theorem step_cases {op : Op} (hs : h.step cfg policy op = some next) :
    next = h.gave (h.sys.giveLocked policy).1 ∨
    (∃ thread isr timeout, h.sys.pc thread = .Running ∧
      next = h.took thread (h.sys.kSemTake thread isr timeout)) ∨
    next = h.reset (h.sys.kSemReset policy) ∨
    (∃ thread timeout, h.sys.pc thread = .Pended timeout ∧
      next = { h with sys := h.sys.timeOut thread }) ∨
    (∃ thread ret, h.sys.pc thread = .Woken ret ∧ next = h.resumed thread ret) ∨
    ∃ prio, next = { h with sys := { h.sys with prio := prio } } := by
  cases op with
  | Give pollEvents =>
    left
    simp only [step] at hs
    split at hs
    · exact (Option.some.inj hs).symm
    · exact (Option.some.inj hs).symm
  | Take thread isr timeout =>
    obtain ⟨hpc, hn⟩ := Option.ite_none_right_eq_some.mp hs
    exact .inr (.inl ⟨thread, isr, timeout, hpc, (Option.some.inj hn).symm⟩)
  | Reset => exact .inr (.inr (.inl (Option.some.inj hs).symm))
  | TimeOut thread =>
    simp only [step] at hs
    split at hs
    · next timeout hpc =>
        obtain ⟨_, hn⟩ := Option.ite_none_right_eq_some.mp hs
        exact .inr (.inr (.inr (.inl ⟨thread, timeout, hpc, (Option.some.inj hn).symm⟩)))
    · cases hs
  | Resume thread =>
    simp only [step] at hs
    split at hs
    · next ret hpc =>
        exact .inr (.inr (.inr (.inr (.inl ⟨thread, ret, hpc, (Option.some.inj hs).symm⟩))))
    · cases hs
  | SetPriority thread prio =>
    exact .inr (.inr (.inr (.inr (.inr ⟨_, (Option.some.inj hs).symm⟩))))

-- The permits that were there and that were given are with the takes that
-- acquired one, in the count, or lost to saturation or a reset.
def Conserves (h : History) : Prop :=
  h.sys.count ≤ h.sys.limit ∧
  (h.sys.waitQ ≠ [] → h.sys.count = 0) ∧
  (h.acquired : Int) + h.sys.count = h.initialCount + h.gives - h.saturated - h.discarded ∧
  (h.handed.Nodup ∧ ∀ thread, thread ∈ h.handed ↔ h.sys.pc thread = .Woken 0) ∧
  (∀ removal ∈ h.removals, removal.cause = .Give → removal.best) ∧
  ∀ r ∈ h.returns, ∀ cause, r.removedBy = some cause → r.ret = cause.result

structure Sound (h : History) (thread : Tid) : Prop where
  pended : thread ∈ h.sys.waitQ → ∃ timeout, h.sys.pc thread = .Pended timeout
  fresh : ∀ timeout, h.sys.pc thread = .Pended timeout → h.removedBy thread = none
  woken : ∀ ret cause, h.sys.pc thread = .Woken ret → h.removedBy thread = some cause →
    ret = cause.result
  handed : thread ∈ h.handed ↔ h.sys.pc thread = .Woken 0

structure Inv (h : History) : Prop where
  bound : h.sys.count ≤ h.sys.limit
  drained : h.sys.waitQ ≠ [] → h.sys.count = 0
  queue : h.sys.waitQ.Nodup
  handed : h.handed.Nodup
  sound : ∀ thread, h.Sound thread
  conserved : h.acquired + h.sys.count + h.saturated + h.discarded = h.initialCount + h.gives
  best : ∀ removal ∈ h.removals, removal.cause = .Give → removal.best
  returns : ∀ r ∈ h.returns, ∀ cause, r.removedBy = some cause → r.ret = cause.result

theorem Inv.conserves (hinv : h.Inv) : h.Conserves := by
  refine ⟨hinv.bound, hinv.drained, ?_, ⟨hinv.handed, fun thread => (hinv.sound thread).handed⟩,
    hinv.best, hinv.returns⟩
  have := hinv.conserved
  omega

theorem start_inv {prio : Tid → Int} {n0 limit : Nat} {s : State}
    (hs : kSemInit prio n0 limit = .ok s) : (start s).Inv := by
  unfold kSemInit at hs
  split at hs
  · cases hs
  next hv =>
  cases hs
  have hle : n0 ≤ limit := by
    by_contra hgt
    have : limit = 0 ∨ n0 > limit := by omega
    simp [galeSemCountInit, this, EINVAL] at hv
  refine ⟨hle, ?_, ?_, ?_, fun thread => ⟨?_, ?_, ?_, ?_⟩, ?_, ?_, ?_⟩ <;> simp [start, acquired]

theorem Sound.frame {thread : Tid} (hs : h.Sound thread) (hq : thread ∈ next.sys.waitQ → thread ∈ h.sys.waitQ)
    (hpc : next.sys.pc thread = h.sys.pc thread)
    (hby : next.removedBy thread = h.removedBy thread ∨ next.removedBy thread = none)
    (hh : thread ∈ next.handed ↔ thread ∈ h.handed) : next.Sound thread where
  pended := by
    rw [hpc]
    exact fun hm => hs.pended (hq hm)
  fresh := by
    intro timeout hp
    rcases hby with hby | hby
    · rw [hby]
      exact hs.fresh timeout (hpc.symm.trans hp)
    · exact hby
  woken := by
    intro ret cause hw hc
    rcases hby with hby | hby
    · exact hs.woken ret cause (hpc.symm.trans hw) (hby.symm.trans hc)
    · cases hby.symm.trans hc
  handed := by
    rw [hpc, hh]
    exact hs.handed

theorem mem_gone {s : State} {thread : Tid} : thread ∈ h.gone s ↔ thread ∈ h.sys.waitQ ∧ thread ∉ s.waitQ := by
  simp [gone]

variable {cause : Cause}

theorem Sound.removed {thread : Tid} (hs : h.Sound thread) {s : State} (hqu : thread ∈ s.waitQ → thread ∈ h.sys.waitQ)
    (hg : thread ∈ h.gone s → s.pc thread = .Woken cause.result)
    (hst : thread ∉ h.gone s → s.pc thread = h.sys.pc thread) :
    (h.removed cause s).Sound thread := by
  by_cases hm : thread ∈ h.gone s
  · have hpc := hg hm
    obtain ⟨ho, hn⟩ := mem_gone.mp hm
    obtain ⟨timeout, hpn⟩ := hs.pended ho
    have hnt : thread ∉ h.handed := by
      rw [hs.handed, hpn]
      simp
    refine ⟨fun hq => absurd hq hn, fun t' hp => ?_, fun ret cause' hw hby => ?_, ?_⟩
    · cases hpc.symm.trans hp
    · cases hpc.symm.trans hw
      have hc : some cause = some cause' := (if_pos hm).symm.trans hby
      cases hc
      rfl
    · simp [History.removed, hnt, hm]
  · refine hs.frame hqu (hst hm) (.inl (if_neg hm)) ?_
    simp [History.removed, hm]

theorem gone_erase (hq : h.sys.waitQ.Nodup) {s : State} {thread : Tid}
    (hm : thread ∈ h.sys.waitQ) (hs : s.waitQ = h.sys.waitQ.erase thread) :
    h.gone s = [thread] := by
  have hf : h.gone s = h.sys.waitQ.filter (· == thread) := by
    refine List.filter_congr fun o ho => ?_
    rw [Bool.eq_iff_iff]
    simp [hs, hq.mem_erase_iff, ho]
  rw [hf, List.filter_beq, List.count_eq_one_of_mem hq hm]
  rfl

theorem Inv.handed_removed (hinv : h.Inv) (cause : Cause) (s : State) : (h.removed cause s).handed.Nodup := by
  have hg : (h.gone s).Nodup := hinv.queue.filter _
  refine List.nodup_append.mpr ⟨hinv.handed, hg.filter _, ?_⟩
  rintro thread hh _ ho rfl
  obtain ⟨timeout, hp⟩ :=
    (hinv.sound thread).pended (mem_gone.mp (List.mem_of_mem_filter ho)).1
  cases hp.symm.trans ((hinv.sound thread).handed.mp hh)

theorem acquired_removed {s : State} (hg : ∀ thread ∈ h.gone s, s.pc thread = .Woken cause.result) :
    (h.removed cause s).acquired = h.acquired + if cause = .Give then (h.gone s).length else 0 := by
  have hf : ((h.gone s).filter fun thread => s.pc thread = .Woken 0) =
      (h.gone s).filter fun _ => cause.result = 0 := by
    refine List.filter_congr fun thread hm => ?_
    rw [hg thread hm]
    simp
  simp only [acquired, History.removed, hf, List.length_append]
  cases cause with
  | Give =>
    simp [Cause.result]
    omega
  | Reset => simp [Cause.result, EAGAIN]

theorem Inv.removed (hinv : h.Inv) {s : State} {gives saturated discarded : Nat}
    (hb : s.count ≤ s.limit) (hd : s.waitQ ≠ [] → s.count = 0)
    (hq : s.waitQ.Sublist h.sys.waitQ)
    (hg : ∀ thread ∈ h.gone s, s.pc thread = .Woken cause.result)
    (hs : ∀ thread, thread ∉ h.gone s → s.pc thread = h.sys.pc thread)
    (hbs : cause = .Give → ∀ thread ∈ h.gone s, isBest h.sys thread)
    (hc : h.acquired + (if cause = .Give then (h.gone s).length else 0) + s.count +
      saturated + discarded = h.initialCount + gives) :
    Inv { h.removed cause s with
      gives := gives
      saturated := saturated
      discarded := discarded } where
  bound := hb
  drained := hd
  queue := hq.nodup hinv.queue
  handed := hinv.handed_removed cause s
  sound := by
    intro thread
    have hsn := (hinv.sound thread).removed (fun hm => hq.subset hm) (hg thread)
      (hs thread)
    exact ⟨hsn.pended, hsn.fresh, hsn.woken, hsn.handed⟩
  conserved := by
    rw [← acquired_removed hg] at hc
    exact hc
  best := by
    intro removal hm hcs
    rcases List.mem_append.mp hm with ho | hn
    · exact hinv.best removal ho hcs
    · obtain ⟨thread, ht, rfl⟩ := List.mem_map.mp hn
      exact hbs hcs thread ht
  returns := hinv.returns

theorem Inv.gave (hinv : h.Inv) (hb : ∀ prio, (policy prio).BestFirst prio) :
    (h.gave (h.sys.giveLocked policy).1).Inv := by
  have hbn := hinv.bound
  have hcn := hinv.conserved
  rcases h.sys.giveLocked_cases policy with ⟨hn, hg⟩ | ⟨thread, hm, hc, hg⟩
  · -- nobody waits: a permit more, unless the count is at the limit
    rw [hg]
    have hgn : ∀ s, h.gone s = [] := fun s => by simp [gone, hn]
    refine hinv.removed ?_ (fun hne => absurd hn hne) (List.Sublist.refl _) ?_ (fun _ _ => rfl)
      ?_ ?_
    · simp only
      split <;> omega
    · simp [hgn]
    · simp [hgn]
    · simp only [History.removed, hgn, hn, List.length_nil, ite_self, and_true]
      split <;> split <;> omega
  · -- the permit goes to the chosen waiter
    rw [hg]
    have hne : h.sys.waitQ ≠ [] := List.ne_nil_of_mem hm
    have hgn := @gone_erase h hinv.queue
      { h.sys.ready thread 0 with waitQ := h.sys.waitQ.erase thread } thread hm rfl
    refine hinv.removed hbn (fun _ => hinv.drained hne) List.erase_sublist ?_ ?_ ?_ ?_
    · rw [hgn]
      intro o ho
      rw [List.mem_singleton.mp ho]
      exact update_self ..
    · rw [hgn]
      intro o ho
      exact update_of_ne (fun heq => ho (by simp [heq])) _ _
    · rw [hgn]
      intro _ o ho
      rw [List.mem_singleton.mp ho]
      simpa [isBest] using hb _ _ _ hc
    · rw [hgn]
      simp only [History.removed, if_true, List.length_singleton, hne, and_false, if_false, State.ready]
      omega

theorem Inv.reset (hinv : h.Inv) : (h.reset (h.sys.kSemReset policy)).Inv := by
  have hc := hinv.conserved
  rw [State.kSemReset_eq]
  have hg : h.gone { h.sys with
      count := 0
      waitQ := []
      pc := fun thread => if thread ∈ h.sys.waitQ then .Woken EAGAIN else h.sys.pc thread } =
      h.sys.waitQ := by simp [gone]
  refine hinv.removed (Nat.zero_le _) (fun _ => rfl) (List.nil_sublist _) ?_ ?_ (by simp) ?_
  · rw [hg]
    exact fun thread hm => if_pos hm
  · rw [hg]
    exact fun thread hm => if_neg hm
  · simp only [History.removed, reduceCtorEq, if_false]
    omega

theorem Inv.parked (hinv : h.Inv) : Parked (fun pc => ∃ timeout, pc = Pc.Pended timeout) h.sys.waitQ h.sys.pc :=
  ⟨hinv.queue, fun thread => (hinv.sound thread).pended⟩

theorem forget_cases (removedBy : Tid → Option Cause) (thread o : Tid) :
    update removedBy thread none o = removedBy o ∨ update removedBy thread none o = none := by
  by_cases ho : o = thread
  · rw [ho]
    exact .inr (update_self ..)
  · exact .inl (update_of_ne ho _ _)

section

variable (hinv : h.Inv) {thread : Tid}
include hinv

theorem Inv.took_returned {ret : Int} {count : Nat} (hc : count + (if ret = 0 then 1 else 0) = h.sys.count) :
    (h.took thread ({ h.sys with count := count }, some ret)).Inv where
  bound := by
    have := hinv.bound
    simp only [History.took]
    omega
  drained := by
    intro hne
    have := hinv.drained hne
    simp only [History.took]
    omega
  queue := hinv.queue
  handed := hinv.handed
  sound := fun o =>
    (hinv.sound o).frame id rfl (forget_cases h.removedBy thread o) Iff.rfl
  conserved := by
    have := hinv.conserved
    simp only [acquired, History.took, Option.map_some, Option.toList_some, List.countP_append,
      List.countP_singleton, decide_eq_true_eq] at this ⊢
    omega
  best := hinv.best
  returns := by
    intro r hm
    rcases List.mem_append.mp hm with ho | hl
    · exact hinv.returns r ho
    · rw [List.mem_singleton.mp hl]
      rintro _ ⟨⟩

theorem Inv.took_pended (hpc : h.sys.pc thread = .Running) (hz : h.sys.count = 0) (timeout : Timeout) :
    (h.took thread ({ h.sys with
      waitQ := h.sys.waitQ ++ [thread]
      pc := update h.sys.pc thread (.Pended timeout) }, none)).Inv where
  bound := hinv.bound
  drained := fun _ => hz
  queue := (hinv.parked.enqueue thread (by simp [hpc]) ⟨timeout, rfl⟩).nodup
  handed := hinv.handed
  sound := by
    intro o
    by_cases ho : o = thread
    · subst ho
      have hp : (h.took o ({ h.sys with
          waitQ := h.sys.waitQ ++ [o]
          pc := update h.sys.pc o (.Pended timeout) }, none)).sys.pc o =
          .Pended timeout := update_self ..
      refine ⟨fun _ => ⟨timeout, hp⟩, fun _ _ => update_self .., fun ret cause hw _ => ?_, ?_⟩
      · cases hp.symm.trans hw
      · rw [hp]
        refine (hinv.sound o).handed.trans ?_
        simp [hpc]
    · refine (hinv.sound o).frame (fun hm => ?_) (update_of_ne ho _ _)
        (forget_cases h.removedBy thread o) Iff.rfl
      simpa [History.took, ho] using hm
  conserved := by simpa [acquired, History.took] using hinv.conserved
  best := hinv.best
  returns := by simpa [History.took] using hinv.returns

theorem Inv.took (hpc : h.sys.pc thread = .Running) (isr : Bool) (timeout : Timeout) :
    (h.took thread (h.sys.kSemTake thread isr timeout)).Inv := by
  rcases h.sys.kSemTake_cases thread isr timeout with ⟨hp, ht⟩ | ⟨ret, hr, ht⟩ |
    ⟨hzero, ht⟩
  · rw [ht]
    apply hinv.took_returned
    simp only [if_true]
    omega
  · rw [ht]
    apply hinv.took_returned
    simp [hr]
  · rw [ht]
    exact hinv.took_pended hpc hzero timeout

theorem Inv.timeOut {timeout : Timeout} (hpc : h.sys.pc thread = .Pended timeout) :
    Inv { h with sys := h.sys.timeOut thread } where
  bound := hinv.bound
  drained := by
    intro hne
    refine hinv.drained fun hn => hne ?_
    simp [State.timeOut, hn]
  queue := hinv.queue.erase thread
  handed := hinv.handed
  sound := by
    intro o
    by_cases ho : o = thread
    · subst ho
      have hw : (h.sys.timeOut o).pc o = .Woken EAGAIN := update_self ..
      have hf := (hinv.sound o).fresh timeout hpc
      refine ⟨fun hm => ?_, fun t' hp => ?_, fun ret cause _ hc => ?_, ?_⟩
      · exact absurd rfl (hinv.queue.mem_erase_iff.mp hm).1
      · cases hw.symm.trans hp
      · cases hf.symm.trans hc
      · refine (hinv.sound o).handed.trans ?_
        simp [hpc, hw, EAGAIN]
    · exact (hinv.sound o).frame List.mem_of_mem_erase (update_of_ne ho _ _)
        (.inl rfl) Iff.rfl
  conserved := hinv.conserved
  best := hinv.best
  returns := hinv.returns

theorem Inv.resumed {ret : Int} (hpc : h.sys.pc thread = .Woken ret) : (h.resumed thread ret).Inv where
  bound := hinv.bound
  drained := hinv.drained
  queue := hinv.queue
  handed := hinv.handed.erase thread
  sound := by
    intro o
    by_cases ho : o = thread
    · subst ho
      have hr : (h.resumed o ret).sys.pc o = .Running := update_self ..
      refine ⟨fun hm => ?_, fun timeout hp => ?_, fun ret' cause hw _ => ?_, ?_⟩
      · obtain ⟨timeout, hp⟩ := (hinv.sound o).pended hm
        cases hpc.symm.trans hp
      · cases hr.symm.trans hp
      · cases hr.symm.trans hw
      · rw [hr]
        simp [History.resumed, hinv.handed.mem_erase_iff]
    · exact (hinv.sound o).frame id (update_of_ne ho _ _) (.inl rfl)
        (List.mem_erase_of_ne ho)
  conserved := by
    have hcn := hinv.conserved
    simp only [acquired, History.resumed, List.countP_append, List.countP_singleton] at hcn ⊢
    by_cases hrt : ret = 0
    · subst hrt
      have hm := (hinv.sound thread).handed.mpr hpc
      have hln := List.length_erase_of_mem hm
      have hps := List.length_pos_of_mem hm
      simp only [decide_true, if_true]
      omega
    · have hn : thread ∉ h.handed := by
        rw [(hinv.sound thread).handed, hpc]
        simp [hrt]
      rw [List.erase_of_not_mem hn]
      simpa [hrt] using hcn
  best := hinv.best
  returns := by
    intro r hm
    rcases List.mem_append.mp hm with hol | hl
    · exact hinv.returns r hol
    · rw [List.mem_singleton.mp hl]
      intro cause hc
      exact (hinv.sound thread).woken ret cause hpc hc

end

theorem Inv.step (hinv : h.Inv) (hb : ∀ prio, (policy prio).BestFirst prio) {op : Op}
    (hs : h.step cfg policy op = some next) : next.Inv := by
  rcases step_cases hs with rfl | ⟨thread, isr, timeout, hpc, rfl⟩ | rfl |
    ⟨thread, timeout, hpc, rfl⟩ | ⟨thread, ret, hpc, rfl⟩ | ⟨prio, rfl⟩
  · exact hinv.gave hb
  · exact hinv.took hpc isr timeout
  · exact hinv.reset
  · exact hinv.timeOut hpc
  · exact hinv.resumed hpc
  · exact ⟨hinv.bound, hinv.drained, hinv.queue, hinv.handed,
      fun thread => (hinv.sound thread).frame id rfl (.inl rfl) Iff.rfl, hinv.conserved, hinv.best,
      hinv.returns⟩

theorem permits_conserved (cfg : Config) (policy : (Tid → Int) → Policy Tid)
    (hbest : ∀ prio, (policy prio).BestFirst prio) (prio : Tid → Int) (initialCount limit : Nat)
    {s : State} (hs : kSemInit prio initialCount limit = .ok s) (ops : List Op) :
    Throughout (History.step cfg policy) Conserves (start s) ops := by
  have hinv : Throughout (History.step cfg policy) Inv (start s) ops :=
    throughout_of_step (fun _ _ _ hinv hst => hinv.step hbest hst) (start_inv hs) ops
  exact hinv.mono fun _ hinv => hinv.conserves

theorem permits_conserved_hand_off : ∃ s, kSemInit (fun thread => thread) 1 2 = .ok s ∧
      (run (History.step ⟨false⟩ Policy.byPriority) (start s)
        [.Take 1 false K_NO_WAIT, .Take 3 false K_FOREVER, .Take 2 false (.Ticks 5), .Give false,
          .Resume 2, .Reset, .Resume 3]).isSome ∧
      Throughout (History.step ⟨false⟩ Policy.byPriority) Conserves (start s)
        [.Take 1 false K_NO_WAIT, .Take 3 false K_FOREVER, .Take 2 false (.Ticks 5), .Give false,
          .Resume 2, .Reset, .Resume 3] :=
  ⟨_, rfl, rfl, permits_conserved ⟨false⟩ Policy.byPriority Policy.byPriority_bestFirst
    (fun thread => thread) 1 2 rfl _⟩

end History

end Gale.Sem
