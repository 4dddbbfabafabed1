import Gale.Condvar
import Gale.Mutex.Hold

namespace Gale.Condvar

open Function Lib

-- What the place of a thread says about the mutex. A call pended in
-- k_mutex_lock is on its queue and no other is; a call that was handed the mutex
-- holds it once; a wait that began holding it once has let it go.
def Fits (m : Mutex.State) (thread : Tid) : Pc → Prop
  | .Idle | .LockTimedOut => thread ∉ m.waitQ
  | .Locking _ => thread ∈ m.waitQ
  | .Relocking c => thread ∈ m.waitQ ∧ c.timeout ≠ K_NO_WAIT
  | .Locked => thread ∉ m.waitQ ∧ m.owner = some thread ∧ m.lockCount = 1
  | .Relocked c =>
    thread ∉ m.waitQ ∧ c.timeout ≠ K_NO_WAIT ∧ m.owner = some thread ∧ m.lockCount = 1
  | .Releasing c | .Waiting c =>
    thread ∉ m.waitQ ∧ c.timeout ≠ K_NO_WAIT ∧ (c.heldOnce = true → m.owner ≠ some thread)
  | .Woken c ret =>
    thread ∉ m.waitQ ∧ c.timeout ≠ K_NO_WAIT ∧ (c.heldOnce = true → m.owner ≠ some thread) ∧
      (ret = 0 ∨ ret = EAGAIN)

-- A wait that began holding the mutex once: it has it back in the same way, unless
-- it reached its time limit.
def WaitReturn.Sound (e : WaitReturn) : Prop :=
  e.call.heldOnce = true →
    if e.ret = 0 ∨ e.call.timeout = K_NO_WAIT then e.owner = some e.thread ∧ e.lockCount = 1
    else e.ret = EAGAIN ∧ e.owner ≠ some e.thread

structure State.Inv (s : State) : Prop where
  nodup : s.mutex.waitQ.Nodup
  fits : ∀ thread, Fits s.mutex thread (s.pc thread)
  sound : ∀ e ∈ s.log, e.Sound

variable {thread : Tid} {m m' : Mutex.State} {pc : Pc}

theorem Fits.congr (h : Fits m thread pc) (hs : m.SameFor thread m') : Fits m' thread pc := by
  cases pc with
  | Idle | LockTimedOut => exact mt hs.waitQ.mp h
  | Locking timeout => exact hs.waitQ.mpr h
  | Relocking c => exact ⟨hs.waitQ.mpr h.1, h.2⟩
  | Locked =>
    obtain ⟨hq, ho, hc⟩ := h
    exact ⟨mt hs.waitQ.mp hq, hs.owner.mpr ho, (hs.lockCount ho).trans hc⟩
  | Relocked c =>
    obtain ⟨hq, ht, ho, hc⟩ := h
    exact ⟨mt hs.waitQ.mp hq, ht, hs.owner.mpr ho, (hs.lockCount ho).trans hc⟩
  | Releasing c | Waiting c =>
    obtain ⟨hq, ht, ho⟩ := h
    exact ⟨mt hs.waitQ.mp hq, ht, fun hh => mt hs.owner.mp (ho hh)⟩
  | Woken c ret =>
    obtain ⟨hq, ht, ho, hr⟩ := h
    exact ⟨mt hs.waitQ.mp hq, ht, fun hh => mt hs.owner.mp (ho hh), hr⟩

theorem Fits.sameHold (h : Fits m thread pc) (hs : m.SameHold m') : Fits m' thread pc :=
  h.congr ⟨by rw [hs.waitQ], by rw [hs.owner], fun _ => hs.lockCount⟩

theorem Fits.not_mem (h : Fits m thread pc) (hl : ∀ timeout, pc ≠ .Locking timeout) (hr : ∀ c, pc ≠ .Relocking c) :
    thread ∉ m.waitQ := by
  cases pc with
  | Locking timeout => exact absurd rfl (hl timeout)
  | Relocking c => exact absurd rfl (hr c)
  | Idle | LockTimedOut => exact h
  | Locked | Relocked c | Releasing c | Waiting c | Woken c ret => exact h.1

theorem Fits.handed (h : Fits m thread pc) (hm : thread ∈ m.waitQ) (hq : thread ∉ m'.waitQ)
    (ho : m'.owner = some thread) (hc : m'.lockCount = 1) : Fits m' thread pc.handed := by
  cases pc with
  | Locking timeout => exact ⟨hq, ho, hc⟩
  | Relocking c => exact ⟨hq, h.2, ho, hc⟩
  | _ => exact absurd hm (h.not_mem nofun nofun)

theorem Fits.woken (h : Fits m thread pc) {ret : Int} (hr : ret = 0 ∨ ret = EAGAIN) :
    Fits m thread (pc.woken ret) := by
  cases pc with
  | Waiting c => exact ⟨h.1, h.2.1, h.2.2, hr⟩
  | _ => exact h

theorem fits_update {pcs : Tid → Pc} (ho : ∀ o, o ≠ thread → Fits m o (pcs o)) (ht : Fits m thread pc) (o : Tid) :
    Fits m o (update pcs thread pc o) := by
  by_cases heq : o = thread
  · subst heq
    rwa [update_self]
  · rw [update_of_ne heq]
    exact ho o heq

namespace State

variable (cfg : Mutex.Config) (policy : (Tid → Int) → Policy Tid) {s : State} {t current : Tid}
  {call : WaitCall}

variable {ret : Int}

theorem waitReturns_inv (hn : s.mutex.waitQ.Nodup) (hl : ∀ e ∈ s.log, e.Sound)
    (ho : ∀ o, o ≠ t → Fits s.mutex o (s.pc o))
    (ht : t ∉ s.mutex.waitQ)
    (hs : WaitReturn.Sound ⟨t, call, ret, s.mutex.owner, s.mutex.lockCount⟩) :
    (s.waitReturns t call ret).Inv where
  nodup := hn
  fits := fits_update ho ht
  sound := by
    intro e he
    rcases List.mem_append.mp he with hol | hnw
    · exact hl e hol
    · rw [List.mem_singleton.mp hnw]
      exact hs

theorem Inv.not_mem_of_idle (h : s.Inv) (hi : s.pc t = .Idle) : t ∉ s.mutex.waitQ := by
  have hf := h.fits t
  rwa [hi] at hf

theorem Inv.setPc (h : s.Inv) {pc : Pc} (ht : Fits s.mutex t pc) : (s.setPc t pc).Inv where
  nodup := h.nodup
  fits := fits_update (fun o _ => h.fits o) ht
  sound := h.sound

theorem mutexUnlock_fits (h : s.Inv) {o : Tid} (hne : o ≠ current) : Fits (s.mutexUnlock cfg policy current).mutex o
      ((s.mutexUnlock cfg policy current).pc o) := by
  cases hn : (s.mutex.unlock cfg policy current).2.2 with
  | none =>
    simp only [mutexUnlock, hn]
    exact (h.fits o).congr (s.mutex.unlock_sameFor cfg policy hne (by simp [hn]))
  | some own =>
    obtain ⟨hm, ho, hc, hq⟩ := Mutex.State.unlock_newOwner cfg policy hn
    simp only [mutexUnlock, hn, State.setPc]
    by_cases heq : o = own
    · subst heq
      rw [update_self]
      refine (h.fits o).handed hm ?_ ho hc
      rw [hq]
      exact h.nodup.not_mem_erase
    · rw [update_of_ne heq]
      refine (h.fits o).congr (s.mutex.unlock_sameFor cfg policy hne ?_)
      rw [hn]
      exact fun hs => heq (Option.some.inj hs).symm

theorem mutexUnlock_frame (s : State) (hc : current ∉ s.mutex.waitQ) :
    (s.mutexUnlock cfg policy current).mutex = (s.mutex.unlock cfg policy current).1 ∧
      (s.mutexUnlock cfg policy current).pc current = s.pc current ∧
      (s.mutexUnlock cfg policy current).log = s.log := by
  cases hn : (s.mutex.unlock cfg policy current).2.2 with
  | none => simp [mutexUnlock, hn]
  | some newOwner =>
    have hne : current ≠ newOwner := by
      rintro rfl
      exact hc (Mutex.State.unlock_newOwner cfg policy hn).1
    simp [mutexUnlock, hn, State.setPc, update_of_ne hne]

theorem mutexUnlock_inv (h : s.Inv) (hi : s.pc current = .Idle) : (s.mutexUnlock cfg policy current).Inv := by
  have hc := h.not_mem_of_idle hi
  obtain ⟨hm, hpc, hl⟩ := s.mutexUnlock_frame cfg policy hc
  refine ⟨?_, ?_, by rw [hl]; exact h.sound⟩
  · rw [hm]
    exact h.nodup.sublist (s.mutex.unlock_sublist cfg policy current)
  · intro o
    by_cases hne : o = current
    · subst hne
      rw [hpc, hi, hm]
      exact fun hmm => hc ((s.mutex.unlock_sublist cfg policy o).mem hmm)
    · exact mutexUnlock_fits cfg policy h hne

theorem wait_inv (h : s.Inv) (timeout : Timeout) (hi : s.pc current = .Idle) :
    (s.wait cfg policy current timeout).Inv := by
  have hc := h.not_mem_of_idle hi
  by_cases hw : timeout = K_NO_WAIT
  · simp only [wait, waitDecide, Timeout.isNoWait, hw, beq_self_eq_true, ↓reduceIte]
    refine waitReturns_inv h.nodup h.sound (fun o _ => h.fits o) hc ?_
    intro hh
    simpa using hh
  · obtain ⟨hm, _, _⟩ := s.mutexUnlock_frame cfg policy hc
    have hr : Fits (s.mutexUnlock cfg policy current).mutex current
        (.Releasing ⟨timeout, s.mutex.owner = some current ∧ s.mutex.lockCount = 1⟩) := by
      rw [hm]
      refine ⟨fun hmm => hc ((s.mutex.unlock_sublist cfg policy current).mem hmm), hw, ?_⟩
      intro hh
      exact Mutex.State.unlock_owner_ne cfg policy hc (of_decide_eq_true hh).2
    have hs := (mutexUnlock_inv cfg policy h hi).setPc hr
    simp only [wait, waitDecide, Timeout.isNoWait, beq_iff_eq, hw, ↓reduceIte]
    exact ⟨hs.nodup, hs.fits, hs.sound⟩

theorem pend_inv (h : s.Inv) (hpc : s.pc current = .Releasing call) : (s.pend current call).Inv := by
  have hf := h.fits current
  rw [hpc] at hf
  have hs : (s.setPc current (.Waiting call)).Inv := h.setPc hf
  exact ⟨hs.nodup, hs.fits, hs.sound⟩

theorem resume_inv (h : s.Inv) (hpc : s.pc current = .Woken call ret) : (s.resume cfg current call ret).Inv := by
  have hf := h.fits current
  rw [hpc] at hf
  obtain ⟨hq, ht, hh, hrt⟩ := hf
  simp only [resume]
  split
  · next hz =>
      have ho : ∀ o, o ≠ current → Fits (s.mutex.lock cfg current K_FOREVER).1 o (s.pc o) := fun o hne =>
        (h.fits o).congr (s.mutex.lock_sameFor cfg K_FOREVER hne)
      have hn := Mutex.State.lock_nodup cfg K_FOREVER h.nodup hq
      cases hr : (s.mutex.lock cfg current K_FOREVER).2 with
      | some result =>
        refine waitReturns_inv hn h.sound ho ?_ fun hb => ?_
        · dsimp only
          rwa [Mutex.State.lock_waitQ_of_some cfg hr]
        · rw [if_pos (.inl hz)]
          exact Mutex.State.lock_forever_of_ne cfg (hh hb) hr
      | none =>
        exact ⟨hn, fits_update ho ⟨Mutex.State.lock_mem_of_none cfg hr, ht⟩, h.sound⟩
  · next hne =>
      refine waitReturns_inv h.nodup h.sound (fun o _ => h.fits o) hq fun hb => ?_
      rw [if_neg (by simp [hne, ht])]
      exact ⟨hrt.resolve_left hne, hh hb⟩

theorem wakeOne_inv (h : s.Inv) : (s.wakeOne policy).Inv := by
  unfold wakeOne
  split
  · next t rest ht =>
      have hs := h.setPc ((h.fits t).woken (.inl rfl))
      exact ⟨hs.nodup, hs.fits, hs.sound⟩
  · exact h

theorem signal_inv (h : s.Inv) : (s.signal policy).Inv := by
  unfold signal
  split
  · exact wakeOne_inv policy h
  · exact h

theorem wakeMany_inv (count : Nat) (h : s.Inv) : (s.wakeMany policy count).Inv := by
  induction count generalizing s with
  | zero => exact h
  | succ count ih => exact ih (wakeOne_inv policy h)

theorem timeOut_inv (h : s.Inv) (t : Tid) : (s.timeOut t).Inv := by
  have hs := h.setPc ((h.fits t).woken (.inr rfl))
  exact ⟨hs.nodup, hs.fits, hs.sound⟩

theorem mutexLock_inv (h : s.Inv) (timeout : Timeout) (hi : s.pc current = .Idle) :
    (s.mutexLock cfg current timeout).Inv := by
  have hc := h.not_mem_of_idle hi
  have hn := Mutex.State.lock_nodup cfg timeout h.nodup hc
  have ho : ∀ o, o ≠ current → Fits (s.mutex.lock cfg current timeout).1 o (s.pc o) := fun o hne =>
    (h.fits o).congr (s.mutex.lock_sameFor cfg timeout hne)
  simp only [mutexLock]
  cases hr : (s.mutex.lock cfg current timeout).2 with
  | some result =>
    refine ⟨hn, fun o => ?_, h.sound⟩
    by_cases hne : o = current
    · subst hne
      rw [hi]
      show o ∉ _
      rwa [Mutex.State.lock_waitQ_of_some cfg hr]
    · exact ho o hne
  | none =>
    exact ⟨hn, fits_update ho (Mutex.State.lock_mem_of_none cfg hr), h.sound⟩

theorem mutexTimeOut_inv (h : s.Inv) (t : Tid) : (s.mutexTimeOut t).Inv := by
  refine ⟨h.nodup.erase t, fits_update (fun o hne => ?_) h.nodup.not_mem_erase, h.sound⟩
  exact (h.fits o).congr ⟨List.mem_erase_of_ne hne, Iff.rfl, fun _ => rfl⟩

theorem lockTimedOut_inv (h : s.Inv) (hi : Fits s.mutex t .Idle) : ({ s with
      mutex := s.mutex.lockTimedOut cfg policy
      pc := update s.pc t .Idle } : State).Inv := by
  have hs := s.mutex.lockTimedOut_sameHold cfg policy
  have hk : ({ s with mutex := s.mutex.lockTimedOut cfg policy } : State).Inv :=
    ⟨hs.waitQ ▸ h.nodup, fun o => (h.fits o).sameHold hs, h.sound⟩
  exact hk.setPc (hi.sameHold hs)

theorem init_inv (prio : Tid → Int) : (init prio).Inv where
  nodup := List.nodup_nil
  fits _ := List.not_mem_nil
  sound e he := by cases he

end State

variable {cfg : Mutex.Config} {policy : (Tid → Int) → Policy Tid}

theorem step_inv {s next : State} {op : Op} (h : s.Inv) (hs : step cfg policy s op = some next) : next.Inv := by
  cases op with
  | Lock thread timeout =>
    simp only [step, Option.ite_none_right_eq_some, Option.some.injEq] at hs
    obtain ⟨hi, rfl⟩ := hs
    exact State.mutexLock_inv cfg h timeout hi
  | Unlock thread =>
    simp only [step, Option.ite_none_right_eq_some, Option.some.injEq] at hs
    obtain ⟨hi, rfl⟩ := hs
    exact State.mutexUnlock_inv cfg policy h hi
  | Wait thread timeout =>
    simp only [step, Option.ite_none_right_eq_some, Option.some.injEq] at hs
    obtain ⟨⟨hi, _⟩, rfl⟩ := hs
    exact State.wait_inv cfg policy h timeout hi
  | Signal =>
    simp only [step, Option.ite_none_right_eq_some, Option.some.injEq] at hs
    obtain ⟨_, rfl⟩ := hs
    exact State.signal_inv policy h
  | Broadcast =>
    simp only [step, Option.ite_none_right_eq_some, Option.some.injEq] at hs
    obtain ⟨_, rfl⟩ := hs
    exact State.wakeMany_inv policy _ h
  | TimeOut thread =>
    simp only [step] at hs
    split at hs
    · simp only [Option.ite_none_right_eq_some, Option.some.injEq] at hs
      obtain ⟨_, rfl⟩ := hs
      exact State.mutexTimeOut_inv h thread
    · simp only [Option.ite_none_right_eq_some, Option.some.injEq] at hs
      obtain ⟨_, rfl⟩ := hs
      exact State.timeOut_inv h thread
    · cases hs
  | Continue thread =>
    have hf := h.fits thread
    simp only [step] at hs
    split at hs
    · next hpc =>
        rw [hpc] at hf
        cases hs
        exact State.lockTimedOut_inv cfg policy h hf
    · next hpc =>
        rw [hpc] at hf
        cases hs
        exact h.setPc hf.1
    · next call hpc =>
        cases hs
        exact State.pend_inv h hpc
    · next call ret hpc =>
        cases hs
        exact State.resume_inv cfg h hpc
    · next call hpc =>
        rw [hpc] at hf
        obtain ⟨hq, _, ho, hc⟩ := hf
        cases hs
        refine State.waitReturns_inv h.nodup h.sound (fun o _ => h.fits o) hq fun _ => ?_
        exact ⟨ho, hc⟩
    · cases hs

theorem run_inv {prio : Tid → Int}
    {ops : List Op} {s : State} (hr : run (step cfg policy) (init prio) ops = some s) : s.Inv :=
  run_invariant State.Inv (fun _ _ => True) (fun _ _ _ h _ hs => step_inv h hs)
    (State.init_inv prio) (fun _ _ _ => trivial) hr

theorem wait_returns_holding (cfg : Mutex.Config) (policy : (Tid → Int) → Policy Tid)
    (prio : Tid → Int) (ops : List Op) (s : State)
    (hrun : run (step cfg policy) (init prio) ops = some s) :
    ∀ e ∈ s.log, e.call.heldOnce = true →
      if e.ret = 0 ∨ e.call.timeout = K_NO_WAIT then e.owner = some e.thread ∧ e.lockCount = 1
      else e.ret = EAGAIN ∧ e.owner ≠ some e.thread :=
  (run_inv hrun).sound

-- Thread 2 signals while it holds the mutex, and thread 1 is handed it afterwards.
theorem wait_returns_holding_handed :
    ∃ s, run (step ⟨0, 15⟩ fun prio => .byPriority prio) (init fun _ => 5)
        [.Lock 1 K_FOREVER, .Wait 1 K_FOREVER, .Continue 1, .Lock 2 K_FOREVER, .Signal, .Continue 1,
          .Unlock 2, .Continue 1] = some s ∧
      ∃ e ∈ s.log, e.call.heldOnce = true ∧ e.owner = some e.thread ∧ e.lockCount = 1 := by
  refine ⟨_, rfl, ⟨1, ⟨K_FOREVER, true⟩, 0, some 1, 1⟩, by decide, rfl, ?_⟩
  exact wait_returns_holding ⟨0, 15⟩ (fun prio => .byPriority prio) (fun _ => 5)
    [.Lock 1 K_FOREVER, .Wait 1 K_FOREVER, .Continue 1, .Lock 2 K_FOREVER, .Signal, .Continue 1,
      .Unlock 2, .Continue 1] _ rfl ⟨1, ⟨K_FOREVER, true⟩, 0, some 1, 1⟩ (by decide) rfl

-- Thread 1 reaches its time limit and thread 2 has taken the mutex meanwhile.
theorem wait_returns_without_mutex :
    ¬ ∀ (cfg : Mutex.Config) (policy : (Tid → Int) → Policy Tid) (prio : Tid → Int)
      (ops : List Op) (s : State), run (step cfg policy) (init prio) ops = some s →
      ∀ e ∈ s.log, e.call.heldOnce = true → e.owner = some e.thread ∧ e.lockCount = 1 := by
  intro h
  have hh := h ⟨0, 15⟩ (fun prio => .byPriority prio) (fun _ => 5)
    [.Lock 1 K_FOREVER, .Wait 1 (.Ticks 3), .Continue 1, .Lock 2 K_FOREVER, .TimeOut 1, .Continue 1]
    _ rfl ⟨1, ⟨.Ticks 3, true⟩, EAGAIN, some 2, 1⟩ (by decide) rfl
  exact absurd hh.1 (by decide)

end Gale.Condvar
