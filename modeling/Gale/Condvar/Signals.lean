import Gale.Condvar

namespace Gale.Condvar

open Lib

inductive Place where
  | Elsewhere
  | Releasing
  | Queued

def Pc.place : Pc → Place
  | .Releasing _ => .Releasing
  | .Waiting _ => .Queued
  | _ => .Elsewhere

@[simp] theorem Pc.place_handed (pc : Pc) : pc.handed.place = pc.place := by
  cases pc <;> rfl

theorem Pc.place_woken {pc : Pc} (h : pc.place = .Queued) (ret : Int) : (pc.woken ret).place = .Elsewhere := by
  cases pc with
  | Waiting c => rfl
  | _ => cases h

namespace State

def place (s : State) (thread : Tid) : Place := (s.pc thread).place

theorem place_setPc (s : State) (thread other : Tid) (pc : Pc) :
    (s.setPc thread pc).place other = if other = thread then pc.place else s.place other := by
  simp only [place, setPc, Function.update_apply]
  split <;> rfl

theorem place_setPc_same (s : State) {thread : Tid} {pc : Pc} (h : pc.place = s.place thread)
    (other : Tid) : (s.setPc thread pc).place other = s.place other := by
  rw [place_setPc]
  split
  next heq => rw [heq, h]
  next => rfl

end State

-- What a step does to the condition variable: nothing, or a thread takes
-- condvar_lock and lets the mutex go, goes on the queue with the lock, is taken off
-- it by a signal or a broadcast, or reaches its time limit there.
inductive Moves (policy : (Tid → Int) → Policy Tid) (s : State) : Op → State → Prop
  | stay {op : Op} {next : State} (hlock : next.condvarLock = s.condvarLock)
      (hqueue : next.waitQ = s.waitQ) (hplace : ∀ thread, next.place thread = s.place thread) :
      Moves policy s op next
  | enter {thread : Tid} {timeout : Timeout} {next : State} (hfree : s.condvarLock = none)
      (hthread : s.place thread = .Elsewhere) (hlock : next.condvarLock = some thread)
      (hqueue : next.waitQ = s.waitQ)
      (hplace : ∀ other, next.place other = if other = thread then .Releasing else s.place other) :
      Moves policy s (.Wait thread timeout) next
  | sleep {thread : Tid} {next : State} (hthread : s.place thread = .Releasing)
      (hlock : next.condvarLock = none) (hqueue : next.waitQ = s.waitQ ++ [thread])
      (hplace : ∀ other, next.place other = if other = thread then .Queued else s.place other) :
      Moves policy s (.Continue thread) next
  | wake {op : Op} (count : Nat) (hop : op = .Signal ∨ op = .Broadcast)
      (hfree : s.condvarLock = none) : Moves policy s op (s.wakeMany policy count)
  | expire {thread : Tid} {next : State} (hthread : s.place thread = .Queued)
      (hlock : next.condvarLock = s.condvarLock) (hqueue : next.waitQ = s.waitQ.erase thread)
      (hplace : ∀ other, next.place other = if other = thread then .Elsewhere else s.place other) :
      Moves policy s (.TimeOut thread) next

section Moves

variable (cfg : Mutex.Config) (policy : (Tid → Int) → Policy Tid) {s next : State} {op : Op}

namespace State

theorem mutexUnlock_place (s : State) (current thread : Tid) :
    (s.mutexUnlock cfg policy current).condvarLock = s.condvarLock ∧
      (s.mutexUnlock cfg policy current).waitQ = s.waitQ ∧
      (s.mutexUnlock cfg policy current).place thread = s.place thread := by
  cases hn : (s.mutex.unlock cfg policy current).2.2 with
  | none => simp [mutexUnlock, hn, place]
  | some own =>
    simp only [mutexUnlock, hn]
    exact ⟨rfl, rfl, place_setPc_same _ (Pc.place_handed _) thread⟩

variable {current : Tid}

theorem mutexLock_place (timeout : Timeout) (hi : s.pc current = .Idle) (thread : Tid) :
    (s.mutexLock cfg current timeout).condvarLock = s.condvarLock ∧ (s.mutexLock cfg current timeout).waitQ = s.waitQ ∧
      (s.mutexLock cfg current timeout).place thread = s.place thread := by
  simp only [mutexLock]
  cases (s.mutex.lock cfg current timeout).2 with
  | some result => exact ⟨rfl, rfl, rfl⟩
  | none =>
    refine ⟨rfl, rfl, place_setPc_same _ ?_ thread⟩
    simp only [place, hi]
    rfl

theorem waitReturns_place (he : s.place current = .Elsewhere) (call : WaitCall) (ret : Int) (thread : Tid) :
    (s.waitReturns current call ret).place thread = s.place thread := by
  apply s.place_setPc_same
  exact he.symm

theorem resume_place (he : s.place current = .Elsewhere) (call : WaitCall) (ret : Int) (thread : Tid) :
    (s.resume cfg current call ret).condvarLock = s.condvarLock ∧ (s.resume cfg current call ret).waitQ = s.waitQ ∧
      (s.resume cfg current call ret).place thread = s.place thread := by
  simp only [resume]
  split
  · cases (s.mutex.lock cfg current K_FOREVER).2 with
    | some result => exact ⟨rfl, rfl, waitReturns_place he call ret thread⟩
    | none =>
      refine ⟨rfl, rfl, place_setPc_same _ ?_ thread⟩
      exact he.symm
  · exact ⟨rfl, rfl, waitReturns_place he call ret thread⟩

end State

theorem Moves.of_frame (h : ∀ thread, next.condvarLock = s.condvarLock ∧ next.waitQ = s.waitQ ∧
    next.place thread = s.place thread) : Moves policy s op next :=
  .stay (h 0).1 (h 0).2.1 fun thread => (h thread).2.2

theorem wait_moves {thread : Tid} (timeout : Timeout) (hi : s.pc thread = .Idle) (hf : s.condvarLock = none) :
    Moves policy s (.Wait thread timeout) (s.wait cfg policy thread timeout) := by
  have he : s.place thread = .Elsewhere := by
    rw [State.place, hi]
    rfl
  by_cases hw : timeout = K_NO_WAIT
  · simp only [State.wait, waitDecide, Timeout.isNoWait, hw, beq_self_eq_true, ↓reduceIte]
    exact .stay rfl rfl (State.waitReturns_place he _ _)
  · simp only [State.wait, waitDecide, Timeout.isNoWait, beq_iff_eq, hw, ↓reduceIte]
    refine .enter hf he rfl (s.mutexUnlock_place cfg policy thread thread).2.1 fun o => ?_
    refine (State.place_setPc _ thread o _).trans ?_
    rw [(s.mutexUnlock_place cfg policy thread o).2.2]
    rfl

theorem wakeOne_cases (s : State) (policy : (Tid → Int) → Policy Tid) : s.waitQ = [] ∧ s.wakeOne policy = s ∨
      ∃ thread ∈ s.waitQ, (policy s.mutex.prio).best s.waitQ = some thread ∧ s.wakeOne policy =
          { s.setPc thread ((s.pc thread).woken 0) with waitQ := s.waitQ.erase thread } := by
  rcases (policy s.mutex.prio).take_cases s.waitQ with ⟨hn, ht⟩ | ⟨thread, hm, ht⟩
  · refine .inl ⟨hn, ?_⟩
    simp [State.wakeOne, ht]
  · refine .inr ⟨thread, hm, Policy.best_of_take _ (by rw [ht]), ?_⟩
    simp only [State.wakeOne, ht]

theorem signal_eq_wakeOne (s : State) : s.signal policy = s.wakeOne policy := by
  unfold State.signal signalDecide
  by_cases hq : s.waitQ = []
  · rcases wakeOne_cases s policy with ⟨-, hs⟩ | ⟨thread, hm, -⟩
    · simp [hq, hs]
    · rw [hq] at hm
      cases hm
  · simp [hq]

theorem step_moves (hs : step cfg policy s op = some next) : Moves policy s op next := by
  cases op with
  | Lock thread timeout =>
    simp only [step, Option.ite_none_right_eq_some, Option.some.injEq] at hs
    obtain ⟨hi, rfl⟩ := hs
    exact .of_frame policy (State.mutexLock_place cfg timeout hi)
  | Unlock thread =>
    simp only [step, Option.ite_none_right_eq_some, Option.some.injEq] at hs
    obtain ⟨hi, rfl⟩ := hs
    exact .of_frame policy (s.mutexUnlock_place cfg policy thread)
  | Wait thread timeout =>
    simp only [step, Option.ite_none_right_eq_some, Option.some.injEq] at hs
    obtain ⟨⟨hi, hf⟩, rfl⟩ := hs
    exact wait_moves cfg policy timeout hi hf
  | Signal =>
    simp only [step, Option.ite_none_right_eq_some, Option.some.injEq] at hs
    obtain ⟨hf, rfl⟩ := hs
    rw [signal_eq_wakeOne]
    exact .wake 1 (.inl rfl) hf
  | Broadcast =>
    simp only [step, Option.ite_none_right_eq_some, Option.some.injEq] at hs
    obtain ⟨hf, rfl⟩ := hs
    exact .wake _ (.inr rfl) hf
  | TimeOut thread =>
    simp only [step] at hs
    split at hs
    next timeout hpc =>
      simp only [Option.ite_none_right_eq_some, Option.some.injEq] at hs
      obtain ⟨-, rfl⟩ := hs
      refine .stay rfl rfl (State.place_setPc_same _ ?_)
      simp only [State.place, hpc]
      rfl
    next call hpc =>
      simp only [Option.ite_none_right_eq_some, Option.some.injEq] at hs
      obtain ⟨-, rfl⟩ := hs
      have hq : s.place thread = .Queued := by
        rw [State.place, hpc]
        rfl
      refine .expire hq rfl rfl fun o => ?_
      refine (State.place_setPc s thread o _).trans ?_
      rw [Pc.place_woken hq]
    next => cases hs
  | Continue thread =>
    simp only [step] at hs
    split at hs
    next hpc =>
      cases hs
      refine .stay rfl rfl (State.place_setPc_same _ ?_)
      simp only [State.place, hpc]
      rfl
    next hpc =>
      cases hs
      refine .stay rfl rfl (State.place_setPc_same _ ?_)
      simp only [State.place, hpc]
      rfl
    next call hpc =>
      cases hs
      refine .sleep (by rw [State.place, hpc]; rfl) rfl rfl fun o => ?_
      exact State.place_setPc s thread o _
    next call ret hpc =>
      cases hs
      have he : s.place thread = .Elsewhere := by
        rw [State.place, hpc]
        rfl
      exact .of_frame policy (State.resume_place cfg he call ret)
    next call hpc =>
      cases hs
      refine .stay rfl rfl (State.place_setPc_same _ ?_)
      simp only [State.place, hpc]
      rfl
    next => cases hs

end Moves

-- The lock is held by the one thread that is releasing, and the queue holds the
-- threads that sleep, each once.
structure State.Queue (s : State) : Prop where
  lock : ∀ thread, s.place thread = .Releasing ↔ s.condvarLock = some thread
  queue : ∀ thread, s.place thread = .Queued ↔ thread ∈ s.waitQ
  nodup : s.waitQ.Nodup

section Queue

variable {cfg : Mutex.Config} {policy : (Tid → Int) → Policy Tid} {s next : State} {op : Op}
  {thread : Tid}

theorem State.Queue.off (h : s.Queue) (hqd : s.place thread = .Queued)
    (hl : next.condvarLock = s.condvarLock) (hq : next.waitQ = s.waitQ.erase thread)
    (hp : ∀ o, next.place o = if o = thread then .Elsewhere else s.place o) :
    next.Queue where
  lock := by
    intro o
    rw [hp, hl, ← h.lock o]
    split
    next heq =>
      rw [heq, hqd]
      exact iff_of_false nofun nofun
    next => rfl
  queue := by
    intro o
    rw [hp, hq, h.nodup.mem_erase_iff, ← h.queue o]
    split
    next heq => exact iff_of_false nofun fun hm => hm.1 heq
    next hne => exact (and_iff_right hne).symm
  nodup := by
    rw [hq]
    exact h.nodup.erase thread

theorem place_wakeOne {other : Tid} (hq : s.place thread = .Queued) :
    State.place { s.setPc thread ((s.pc thread).woken 0) with waitQ := s.waitQ.erase thread } other =
      if other = thread then .Elsewhere else s.place other := by
  refine (State.place_setPc s thread other _).trans ?_
  rw [Pc.place_woken hq]

theorem wakeOne_queue (h : s.Queue) : (s.wakeOne policy).Queue := by
  rcases wakeOne_cases s policy with ⟨-, hs⟩ | ⟨thread, hm, -, hw⟩
  · rwa [hs]
  · have hq := (h.queue thread).mpr hm
    rw [hw]
    exact h.off hq rfl rfl fun o => place_wakeOne hq

theorem wakeMany_queue (h : s.Queue) (count : Nat) : (s.wakeMany policy count).Queue := by
  induction count generalizing s with
  | zero => exact h
  | succ count ih => exact ih (wakeOne_queue h)

theorem Moves.queue (hm : Moves policy s op next) (h : s.Queue) : next.Queue := by
  cases hm with
  | stay hl hq hp =>
    refine ⟨fun thread => ?_, fun thread => ?_, hq ▸ h.nodup⟩
    · rw [hp, hl]
      exact h.lock thread
    · rw [hp, hq]
      exact h.queue thread
  | @enter thread timeout _ hf ht hl hq hp =>
    refine ⟨fun o => ?_, fun o => ?_, hq ▸ h.nodup⟩
    · rw [hp, hl]
      split
      next heq => exact iff_of_true rfl (by rw [heq])
      next hne =>
        rw [h.lock o, hf]
        exact iff_of_false nofun fun hs => hne (Option.some.inj hs).symm
    · rw [hp, hq, ← h.queue o]
      split
      next heq =>
        rw [heq, ht]
        exact iff_of_false nofun nofun
      next => rfl
  | @sleep thread _ ht hl hq hp =>
    have hh := (h.lock thread).mp ht
    have ho : thread ∉ s.waitQ := by
      rw [← h.queue thread, ht]
      nofun
    refine ⟨fun o => ?_, fun o => ?_, ?_⟩
    · rw [hp, hl]
      split
      next => exact iff_of_false nofun nofun
      next hne =>
        rw [h.lock o, hh]
        exact iff_of_false (fun hs => hne (Option.some.inj hs).symm) nofun
    · rw [hp, hq, List.mem_append, List.mem_singleton, ← h.queue o]
      split
      next heq => exact iff_of_true rfl (.inr heq)
      next hne => exact (or_iff_left hne).symm
    · rw [hq]
      exact List.nodup_append.mpr ⟨h.nodup, List.nodup_singleton _, by
        rintro o hmm _ hls rfl
        exact ho (List.mem_singleton.mp hls ▸ hmm)⟩
  | wake count hop hf => exact wakeMany_queue h count
  | expire ht hl hq hp => exact h.off ht hl hq hp

theorem queue_init (prio : Tid → Int) : (init prio).Queue where
  lock _ := iff_of_false nofun nofun
  queue _ := iff_of_false nofun List.not_mem_nil
  nodup := List.nodup_nil

theorem run_queue {ops : List Op} (h : s.Queue) (hr : run (step cfg policy) s ops = some next) :
    next.Queue :=
  run_invariant State.Queue (fun _ _ => True)
    (fun _ _ _ h _ hs => (step_moves cfg policy hs).queue h) h (fun _ _ _ => trivial) hr

-- A thread that has begun to wait: it holds condvar_lock or is on the queue.
def State.Sleeps (s : State) (thread : Tid) : Prop :=
  s.place thread = .Releasing ∨ thread ∈ s.waitQ

theorem State.Queue.mem_of_free (h : s.Queue) (hs : s.Sleeps thread)
    (hf : s.condvarLock = none) : thread ∈ s.waitQ := by
  refine hs.resolve_left fun hr => ?_
  rw [(h.lock thread).mp hr] at hf
  cases hf

-- The step that takes a thread off the queue: a signal, a broadcast or its time limit.
def TakesOff (s : State) (op : Op) (next : State) (thread : Tid) : Prop :=
  thread ∈ s.waitQ ∧ thread ∉ next.waitQ ∧ (op = .Signal ∨ op = .Broadcast ∨ op = .TimeOut thread)

theorem Moves.sleeps (hm : Moves policy s op next) (h : s.Queue) (hs : s.Sleeps thread) :
    next.Sleeps thread ∨ TakesOff s op next thread := by
  cases hm with
  | stay hl hq hp =>
    refine .inl ?_
    rwa [State.Sleeps, hp, hq]
  | @enter other timeout _ hf hthread hl hq hp =>
    refine .inl ?_
    rw [State.Sleeps, hp, hq]
    split
    next => exact .inl rfl
    next => exact hs
  | @sleep other _ hthread hl hq hp =>
    refine .inl (.inr ?_)
    rw [hq, List.mem_append, List.mem_singleton]
    rcases hs with hr | hmm
    · refine .inr (Option.some.inj ?_)
      rw [← (h.lock thread).mp hr, ← (h.lock other).mp hthread]
    · exact .inl hmm
  | wake count hop hf =>
    have hmm := h.mem_of_free hs hf
    by_cases hst : thread ∈ (s.wakeMany policy count).waitQ
    · exact .inl (.inr hst)
    · refine .inr ⟨hmm, hst, ?_⟩
      rcases hop with hsg | hb
      · exact .inl hsg
      · exact .inr (.inl hb)
  | @expire other _ hthread hl hq hp =>
    rcases hs with hr | hmm
    · refine .inl (.inl ?_)
      rw [hp]
      split
      next heq =>
        rw [← heq, hr] at hthread
        cases hthread
      next => exact hr
    · by_cases heq : thread = other
      · subst heq
        refine .inr ⟨hmm, ?_, .inr (.inr rfl)⟩
        rw [hq]
        exact h.nodup.not_mem_erase
      · refine .inl (.inr ?_)
        rw [hq, List.mem_erase_of_ne heq]
        exact hmm

def TakenOff (cfg : Mutex.Config) (policy : (Tid → Int) → Policy Tid) (s : State) (ops : List Op)
    (thread : Tid) : Prop :=
  ∃ first op rest middle next, ops = first ++ op :: rest ∧
    run (step cfg policy) s first = some middle ∧ step cfg policy middle op = some next ∧
    TakesOff middle op next thread

theorem run_sleeps (h : s.Queue) (hs : s.Sleeps thread) {ops : List Op}
    (hrn : run (step cfg policy) s ops = some next) :
    next.Sleeps thread ∨ TakenOff cfg policy s ops thread := by
  induction ops generalizing s with
  | nil =>
    cases hrn
    exact .inl hs
  | cons op rest ih =>
    obtain ⟨mid, hst, hr⟩ := run_cons_eq_some.mp hrn
    have hmv := step_moves cfg policy hst
    rcases hmv.sleeps h hs with hsl | ht
    · rcases ih (hmv.queue h) hsl hr with hl | ⟨first, op', rest', m, m', rfl, hm, hm', ho⟩
      · exact .inl hl
      · exact .inr ⟨op :: first, op', rest', m, m', rfl, run_cons_eq_some.mpr ⟨mid, hst, hm⟩, hm', ho⟩
    · exact .inr ⟨[], op, rest, s, mid, rfl, rfl, hst, ht⟩

theorem wait_sleeps {timeout : Timeout} (hw : timeout ≠ K_NO_WAIT)
    (hs : step cfg policy s (.Wait thread timeout) = some next) : next.Sleeps thread := by
  simp only [step, Option.ite_none_right_eq_some, Option.some.injEq] at hs
  obtain ⟨-, rfl⟩ := hs
  refine .inl ?_
  simp only [State.wait, waitDecide, Timeout.isNoWait, beq_iff_eq, hw, ↓reduceIte]
  refine (State.place_setPc _ thread thread _).trans ?_
  rw [if_pos rfl]
  rfl

end Queue

section Order

variable (policy : (Tid → Int) → Policy Tid)

def State.first (s : State) : Option Tid := ((policy s.mutex.prio).take s.waitQ).1

def wakeOrder : Nat → State → List Tid
  | 0, _ => []
  | count + 1, s => (s.first policy).toList ++ wakeOrder count (s.wakeOne policy)

def signalOrder : Nat → State → List Tid
  | 0, _ => []
  | count + 1, s =>
    (match signalDecide (s.waitQ ≠ []) with
      | .WakeOne => s.first policy
      | .Noop => none).toList ++ signalOrder count (s.signal policy)

def broadcastOrder (s : State) : List Tid := wakeOrder policy (broadcastDecide s.waitQ.length) s

variable {cfg : Mutex.Config} {s : State}

theorem signalOrder_eq (count : Nat) (s : State) : signalOrder policy count s = wakeOrder policy count s := by
  induction count generalizing s with
  | zero => rfl
  | succ count ih =>
    rw [signalOrder, wakeOrder, ih, signal_eq_wakeOne]
    congr 2
    unfold signalDecide
    by_cases hq : s.waitQ = []
    · rcases (policy s.mutex.prio).take_cases s.waitQ with ⟨-, ht⟩ | ⟨thread, hm, -⟩
      · rw [State.first, ht]
        split <;> rfl
      · rw [hq] at hm
        cases hm
    · simp [hq]

theorem run_signals (count : Nat) (hf : s.condvarLock = none) :
    run (step cfg policy) s (List.replicate count .Signal) = some (s.wakeMany policy count) := by
  induction count generalizing s with
  | zero => rfl
  | succ count ih =>
    refine run_cons_eq_some.mpr ⟨s.wakeOne policy, ?_, ih ?_⟩
    · rw [step, if_pos hf, signal_eq_wakeOne]
    · rcases wakeOne_cases s policy with ⟨-, hs⟩ | ⟨thread, -, -, hw⟩
      · rwa [hs]
      · rw [hw]
        exact hf

-- What a broadcast does, by the order in which it wakes.
structure WakesAll (s final : State) (order : List Tid) : Prop where
  queue : final.waitQ = []
  perm : order.Perm s.waitQ
  sorted : order.Pairwise fun first later => s.mutex.prio first ≤ s.mutex.prio later
  woken : ∀ thread ∈ s.waitQ, final.pc thread = (s.pc thread).woken 0
  others : ∀ thread, thread ∉ s.waitQ → final.pc thread = s.pc thread
  mutex : final.mutex = s.mutex

theorem wakeMany_wakesAll (hp : ∀ prio, (policy prio).BestFirst prio) (h : s.Queue)
    {count : Nat} (hc : count = s.waitQ.length) :
    WakesAll s (s.wakeMany policy count) (wakeOrder policy count s) := by
  induction count generalizing s with
  | zero =>
    have hn : s.waitQ = [] := List.length_eq_zero_iff.mp hc.symm
    refine ⟨hn, ?_, .nil, fun thread hmm => ?_, fun _ _ => rfl, rfl⟩
    · rw [hn]
      exact .nil
    · rw [hn] at hmm
      cases hmm
  | succ count ih =>
    rcases wakeOne_cases s policy with ⟨hn, -⟩ | ⟨thread, hmm, hb, hw⟩
    · rw [hn] at hc
      cases hc
    have hf : s.first policy = some thread := by
      simp [State.first, Policy.take, hb]
    have hq : (s.wakeOne policy).waitQ = s.waitQ.erase thread := by rw [hw]
    have hm : (s.wakeOne policy).mutex = s.mutex := by
      rw [hw]
      rfl
    have hpc : ∀ other, (s.wakeOne policy).pc other =
        if other = thread then (s.pc thread).woken 0 else s.pc other := by
      intro other
      rw [hw]
      exact Function.update_apply _ _ _ _
    have hl := ih (wakeOne_queue h) (by rw [hq, List.length_erase_of_mem hmm]; omega)
    refine ⟨hl.queue, ?_, ?_, fun other ho => ?_, fun other ho => ?_, hl.mutex.trans hm⟩
    · rw [wakeOrder, hf]
      refine (hl.perm.cons thread).trans ?_
      rw [hq]
      exact (List.perm_cons_erase hmm).symm
    · rw [wakeOrder, hf]
      refine List.pairwise_cons.mpr ⟨fun other ho => ?_, ?_⟩
      · have hin : other ∈ s.waitQ.erase thread := hq ▸ hl.perm.mem_iff.mp ho
        exact hp _ _ _ hb other (List.mem_of_mem_erase hin)
      · have hs := hl.sorted
        rwa [hm] at hs
    · by_cases heq : other = thread
      · subst heq
        have hof : other ∉ (s.wakeOne policy).waitQ := hq ▸ h.nodup.not_mem_erase
        exact (hl.others other hof).trans ((hpc other).trans (if_pos rfl))
      · have hin : other ∈ (s.wakeOne policy).waitQ :=
          hq ▸ (List.mem_erase_of_ne heq).mpr ho
        refine (hl.woken other hin).trans ?_
        rw [hpc, if_neg heq]
    · have hne : other ≠ thread := fun heq => ho (heq ▸ hmm)
      have hof : other ∉ (s.wakeOne policy).waitQ :=
        hq ▸ fun hin => ho (List.mem_of_mem_erase hin)
      exact (hl.others other hof).trans ((hpc other).trans (if_neg hne))

theorem signal_wakes_best (hp : ∀ prio, (policy prio).BestFirst prio) (h : s.Queue) :
    s.waitQ = [] ∧ s.signal policy = s ∨ ∃ thread call, thread ∈ s.waitQ ∧ s.pc thread = .Waiting call ∧
        (∀ o ∈ s.waitQ, s.mutex.prio thread ≤ s.mutex.prio o) ∧
        s.signal policy = { s.setPc thread (.Woken call 0) with waitQ := s.waitQ.erase thread } := by
  rw [signal_eq_wakeOne]
  rcases wakeOne_cases s policy with hn | ⟨thread, hm, hb, hw⟩
  · exact .inl hn
  · have hq := (h.queue thread).mpr hm
    cases hpc : s.pc thread with
    | Waiting call =>
      refine .inr ⟨thread, call, hm, hpc, hp _ _ _ hb, ?_⟩
      rw [hw, hpc]
      rfl
    | _ =>
      rw [State.place, hpc] at hq
      cases hq

end Order

theorem signals_not_lost (cfg : Mutex.Config) (policy : (Tid → Int) → Policy Tid)
    (hpolicy : ∀ prio, (policy prio).BestFirst prio) (prio : Tid → Int) :
    (∀ before thread timeout after s released found next, timeout ≠ K_NO_WAIT →
      run (step cfg policy) (init prio) before = some s →
      step cfg policy s (.Wait thread timeout) = some released →
      run (step cfg policy) released after = some found →
      step cfg policy found .Signal = some next →
      thread ∈ found.waitQ ∨ TakenOff cfg policy released after thread) ∧
    ∀ ops s, run (step cfg policy) (init prio) ops = some s → (s.waitQ = [] ∧ s.signal policy = s ∨
        ∃ thread call, thread ∈ s.waitQ ∧ s.pc thread = .Waiting call ∧
          (∀ other ∈ s.waitQ, s.mutex.prio thread ≤ s.mutex.prio other) ∧
          s.signal policy = { s.setPc thread (.Woken call 0) with waitQ := s.waitQ.erase thread }) ∧
      WakesAll s (s.broadcast policy) (broadcastOrder policy s) ∧
      signalOrder policy s.waitQ.length s = broadcastOrder policy s ∧
      (s.condvarLock = none → run (step cfg policy) s (List.replicate s.waitQ.length .Signal) =
          some (s.broadcast policy)) := by
  refine ⟨fun before thread timeout after s released found next hw hs hr hf hn => ?_,
    fun ops s hs => ?_⟩
  · have hq := run_queue (queue_init prio) hs
    have hqu := (step_moves cfg policy hr).queue hq
    have hfr : found.condvarLock = none := by
      simp only [step, Option.ite_none_right_eq_some] at hn
      exact hn.1
    rcases run_sleeps hqu (wait_sleeps hw hr) hf with hsl | ht
    · exact .inl ((run_queue hqu hf).mem_of_free hsl hfr)
    · exact .inr ht
  · have hq := run_queue (queue_init prio) hs
    exact ⟨signal_wakes_best policy hpolicy hq, wakeMany_wakesAll policy hpolicy hq rfl,
      signalOrder_eq policy _ s, run_signals policy _⟩

-- Thread 2 signals under the mutex that the wait of thread 1 has let go.
theorem signals_not_lost_released :
    ∃ found next, run (step ⟨0, 15⟩ fun prio => .byPriority prio) (init fun _ => 5)
        [.Lock 1 K_FOREVER, .Wait 1 K_FOREVER, .Continue 1, .Lock 2 K_FOREVER] = some found ∧
      found.mutex.owner = some 2 ∧
      step ⟨0, 15⟩ (fun prio => .byPriority prio) found .Signal = some next ∧
      1 ∈ found.waitQ ∧ next.pc 1 = .Woken ⟨K_FOREVER, true⟩ 0 := by
  refine ⟨_, _, rfl, by decide, rfl, ?_, by decide⟩
  have hf := (signals_not_lost ⟨0, 15⟩ (fun prio => .byPriority prio)
    (fun prio => Policy.byPriority_bestFirst prio) fun _ => 5).1 [.Lock 1 K_FOREVER] 1 K_FOREVER
    [.Continue 1, .Lock 2 K_FOREVER] _ _ _ _ (by decide) rfl rfl rfl rfl
  refine hf.resolve_right ?_
  rintro ⟨first, op, rest, middle, next, ho, -, -, -, -, hop⟩
  have hm : op ∈ [Op.Continue 1, .Lock 2 K_FOREVER] := by
    rw [ho]
    simp
  rcases hop with rfl | rfl | rfl
  · exact absurd hm (by decide)
  · exact absurd hm (by decide)
  · exact absurd hm (by decide)

end Gale.Condvar
