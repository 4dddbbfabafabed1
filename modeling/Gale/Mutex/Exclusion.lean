import Gale.Mutex.Callers

namespace Gale.Mutex.Callers

open Function Lib

variable {cfg : Config} {policy : (Tid → Int) → Policy Tid} {build : Build} {s next : Callers}

-- The successful locks of a thread less its successful unlocks. A lock that was
-- handed the mutex counts from then on: it returns 0 when the thread next runs.
def depth (s : Callers) (thread : Tid) : Int :=
  s.locked thread + (if s.pc thread = .Woken 0 then 1 else 0) - s.unlocked thread

structure Excludes (cfg : Config) (policy : (Tid → Int) → Policy Tid) (build : Build)
    (s : Callers) : Prop where
  one : ∀ thread other, 0 < s.depth thread → 0 < s.depth other → thread = other
  owner : ∀ thread, 0 < s.depth thread →
    s.mutex.owner = some thread ∧ (s.mutex.lockCount : Int) = s.depth thread
  free : (∀ thread, ¬ 0 < s.depth thread) → s.mutex.owner = none ∧ s.mutex.lockCount = 0
  nonneg : ∀ thread, 0 ≤ s.depth thread
  notWaiting : ∀ thread, s.mutex.owner = some thread → thread ∉ s.mutex.waitQ
  noWaiters : s.mutex.owner = none → s.mutex.waitQ = []
  refused : ∀ thread, s.mutex.owner ≠ some thread →
    (s.unlock cfg policy build thread) = s ∧ (build.unlock cfg policy s.mutex thread).2.1 ≠ 0

-- What one thread has of the mutex: its depth is the lock count if it is the
-- owner, and nothing otherwise.
structure Holding (s : Callers) (thread : Tid) : Prop where
  depth_eq : s.depth thread = if s.mutex.owner = some thread then (s.mutex.lockCount : Int) else 0
  notWaiting : s.mutex.owner = some thread → thread ∉ s.mutex.waitQ

structure Inv (s : Callers) : Prop where
  parked : Parked (fun pc => ∃ timeout, pc = Pc.Pended timeout) s.mutex.waitQ s.pc
  holding : ∀ thread, s.Holding thread
  count_pos : s.mutex.owner ≠ none → 0 < s.mutex.lockCount
  free : s.mutex.owner = none → s.mutex.lockCount = 0 ∧ s.mutex.waitQ = []

variable {thread : Tid} {mutex : State}

theorem Inv.owner_of_depth (h : s.Inv) (hp : 0 < s.depth thread) :
    s.mutex.owner = some thread ∧ (s.mutex.lockCount : Int) = s.depth thread := by
  have hd := (h.holding thread).depth_eq
  by_cases ho : s.mutex.owner = some thread
  · rw [if_pos ho] at hd
    exact ⟨ho, hd.symm⟩
  · rw [if_neg ho] at hd
    omega

theorem unlock_of_ne (ho : s.mutex.owner ≠ some thread) :
    s.unlock cfg policy build thread = s ∧ (build.unlock cfg policy s.mutex thread).2.1 ≠ 0 := by
  obtain ⟨cfg', heq⟩ := build.unlock_eq cfg policy
  have hr : (build.unlock cfg policy s.mutex thread).2.1 ≠ 0 := by
    rw [heq]
    exact mt (State.unlock_ret policy cfg' s.mutex thread).mp ho
  refine ⟨?_, hr⟩
  cases heq s.mutex thread ▸ s.mutex.unlock_outcome cfg' policy thread with
  | Refused _ hs hn => simp [unlock, count, hr, hs, hn]
  | Released how | Freed how | HandedOn how => exact absurd how ho

theorem Inv.excludes (h : s.Inv) : s.Excludes cfg policy build where
  one := by
    intro thread o ht ho
    have heq := (h.owner_of_depth ht).1.symm.trans (h.owner_of_depth ho).1
    exact Option.some.inj heq
  owner := fun thread hp => h.owner_of_depth hp
  free := by
    intro hn
    have how : s.mutex.owner = none := by
      by_contra hsome
      obtain ⟨thread, ht⟩ := Option.ne_none_iff_exists'.mp hsome
      have hp := h.count_pos hsome
      have hd := (h.holding thread).depth_eq
      rw [if_pos ht] at hd
      exact hn thread (by omega)
    exact ⟨how, (h.free how).1⟩
  nonneg := by
    intro thread
    rw [(h.holding thread).depth_eq]
    split <;> omega
  notWaiting := fun thread => (h.holding thread).notWaiting
  noWaiters := fun how => (h.free how).2
  refused := fun thread how => unlock_of_ne how

theorem start_inv (prio : Tid → Int) : (start prio).Inv where
  parked := ⟨List.nodup_nil, fun _ hm => by cases hm⟩
  holding := fun _ => ⟨rfl, fun ho => by cases ho⟩
  count_pos := fun ho => absurd rfl ho
  free := fun _ => ⟨rfl, rfl⟩

theorem count_ne {calls : Tid → Nat} {other : Tid} (hne : other ≠ thread) (ret : Int) :
    count calls thread ret other = calls other := by
  unfold count
  split
  · exact update_of_ne hne _ _
  · rfl

@[simp] theorem count_zero (calls : Tid → Nat) (thread : Tid) : count calls thread 0 thread = calls thread + 1 := by
  simp [count]

theorem count_of_ne_zero (calls : Tid → Nat) (thread : Tid) {ret : Int} (hr : ret ≠ 0) :
    count calls thread ret = calls := if_neg hr

theorem Holding.congr (h : s.Holding thread) (hd : next.depth thread = s.depth thread)
    (hs : s.mutex.SameFor thread next.mutex) :
    next.Holding thread where
  depth_eq := by
    rw [hd, h.depth_eq]
    by_cases ho : s.mutex.owner = some thread
    · rw [if_pos ho, if_pos (hs.owner.mpr ho), hs.lockCount ho]
    · rw [if_neg ho, if_neg (mt hs.owner.mp ho)]
  notWaiting := fun ho => mt hs.waitQ.mp (h.notWaiting (hs.owner.mp ho))

theorem depth_congr (hpc : next.pc thread = s.pc thread) (hl : next.locked thread = s.locked thread)
    (hu : next.unlocked thread = s.unlocked thread) :
    next.depth thread = s.depth thread := by
  simp [depth, hpc, hl, hu]

section

variable (h : s.Inv)
include h

theorem Inv.not_mem (hpc : s.pc thread = .Running) : thread ∉ s.mutex.waitQ :=
  h.parked.not_mem thread (by simp [hpc])

theorem Inv.acquired (hpc : s.pc thread = .Running) (hm : s.mutex.owner = none ∨ s.mutex.owner = some thread)
    (how : mutex.owner = some thread) (hc : mutex.lockCount = s.mutex.lockCount + 1)
    (hw : mutex.waitQ = s.mutex.waitQ) :
    Inv { s with mutex, locked := count s.locked thread 0 } where
  parked := by
    rw [hw]
    exact h.parked
  holding := by
    intro other
    by_cases ho : other = thread
    · subst ho
      have hd := (h.holding other).depth_eq
      have hz := h.free
      refine ⟨?_, fun _ => ?_⟩
      · simp only [depth, hpc, how, count_zero, if_true] at hd ⊢
        rcases hm with hn | hon
        · simp only [hn] at hd
          have := (hz hn).1
          omega
        · simp only [hon, if_true] at hd
          simp only [reduceCtorEq, if_false] at hd ⊢
          omega
      · rw [hw]
        exact h.not_mem hpc
    · have hot : s.mutex.owner ≠ some other := by
        rcases hm with hn | hon
        · simp [hn]
        · simp [hon, Ne.symm ho]
      refine (h.holding other).congr (depth_congr rfl (count_ne ho 0) rfl) ⟨?_, ?_, ?_⟩
      · rw [hw]
      · simp [how, hot, Ne.symm ho]
      · exact fun hon => absurd hon hot
  count_pos := fun _ => by simp only [hc]; omega
  free := fun hn => by simp [how] at hn

theorem Inv.pended {owner : Tid} (timeout : Timeout) (hpc : s.pc thread = .Running)
    (hot : s.mutex.owner = some owner) (hne : owner ≠ thread) (ho : mutex.owner = some owner)
    (hc : mutex.lockCount = s.mutex.lockCount)
    (hw : mutex.waitQ = s.mutex.waitQ ++ [thread]) :
    Inv { s with mutex, pc := update s.pc thread (.Pended timeout) } where
  parked := by
    rw [hw]
    exact h.parked.enqueue thread (by simp [hpc]) ⟨timeout, rfl⟩
  holding := by
    intro o
    by_cases heq : o = thread
    · subst heq
      have hd := (h.holding o).depth_eq
      refine ⟨?_, fun how => ?_⟩
      · simpa [depth, hpc, hot, ho, hne] using hd
      · simp [ho, hne] at how
    · refine (h.holding o).congr (depth_congr (update_of_ne heq _ _) rfl rfl) ⟨?_, ?_, ?_⟩
      · simp [hw, heq]
      · rw [ho, hot]
      · exact fun _ => hc
  count_pos := by
    intro _
    rw [hc]
    exact h.count_pos (by simp [hot])
  free := fun hn => by simp [ho] at hn

theorem Inv.lock (timeout : Timeout) (hpc : s.pc thread = .Running) : (s.lock cfg thread timeout).Inv := by
  cases s.mutex.lock_outcome cfg thread timeout with
  | Free hf ho hc hw hr =>
    have hz := (h.free hf).1
    simp only [Callers.lock, hr]
    exact h.acquired hpc (.inl hf) ho (by omega) hw
  | Again how _ ho hc hw hr =>
    simp only [Callers.lock, hr]
    exact h.acquired hpc (.inr how) ho hc hw
  | Overflow _ _ hs hr =>
    simp only [Callers.lock, hr, hs, count_of_ne_zero s.locked thread (show EINVAL ≠ 0 by decide)]
    exact h
  | Busy _ _ _ _ hs hr =>
    simp only [Callers.lock, hr, hs, count_of_ne_zero s.locked thread (show EBUSY ≠ 0 by decide)]
    exact h
  | Pended owner hot hne _ ho hc hw hr =>
    simp only [Callers.lock, hr]
    exact h.pended timeout hpc hot hne ho hc hw

theorem Inv.released (hpc : s.pc thread = .Running) (how : s.mutex.owner = some thread)
    (hc : mutex.lockCount + 1 = s.mutex.lockCount) (hw : mutex.waitQ = s.mutex.waitQ)
    (ho : mutex.owner = if mutex.lockCount = 0 then none else some thread)
    (hl : mutex.lockCount = 0 → mutex.waitQ = []) :
    Inv { s with mutex, unlocked := count s.unlocked thread 0 } where
  parked := by
    rw [hw]
    exact h.parked
  holding := by
    intro o
    by_cases heq : o = thread
    · subst heq
      have hd := (h.holding o).depth_eq
      refine ⟨?_, fun _ => ?_⟩
      · simp only [depth, hpc, how, count_zero, if_true, reduceCtorEq, if_false] at hd ⊢
        by_cases hz : mutex.lockCount = 0
        · rw [ho, if_pos hz, if_neg (by simp)]
          omega
        · rw [ho, if_neg hz, if_pos rfl]
          omega
      · rw [hw]
        exact h.not_mem hpc
    · refine (h.holding o).congr (depth_congr rfl rfl (count_ne heq 0)) ⟨?_, ?_, ?_⟩
      · rw [hw]
      · rw [ho, how]
        split <;> simp [Ne.symm heq]
      · simp [how, Ne.symm heq]
  count_pos := by
    intro hs
    rw [ho] at hs
    by_contra hz
    exact hs (if_pos (Nat.eq_zero_of_not_pos hz))
  free := by
    intro hn
    rw [ho] at hn
    split at hn
    · next hz => exact ⟨hz, hl hz⟩
    · cases hn

theorem Inv.handedOn {w : Tid} (hpc : s.pc thread = .Running)
    (how : s.mutex.owner = some thread) (honce : s.mutex.lockCount = 1)
    (hm : w ∈ s.mutex.waitQ) (ho : mutex.owner = some w)
    (hc : mutex.lockCount = 1) (hw : mutex.waitQ = s.mutex.waitQ.erase w) :
    Inv { s with
      mutex
      pc := update s.pc w (.Woken 0)
      unlocked := count s.unlocked thread 0 } where
  parked := by
    rw [hw]
    exact h.parked.dequeue w (.Woken 0)
  holding := by
    have hne : w ≠ thread := by
      rintro rfl
      exact h.not_mem hpc hm
    intro o
    have hd := (h.holding o).depth_eq
    by_cases hnw : o = w
    · subst hnw
      obtain ⟨timeout, hp⟩ := h.parked.waits o hm
      refine ⟨?_, fun _ => ?_⟩
      · simp only [depth, hp, how, Ne.symm hne, Option.some.injEq, if_false] at hd
        simp only [depth, ho, hc, count_ne hne, update_self, if_true]
        simp only [reduceCtorEq, if_false] at hd
        omega
      · rw [hw]
        exact h.parked.nodup.not_mem_erase
    · by_cases hol : o = thread
      · subst hol
        refine ⟨?_, fun hot => ?_⟩
        · simp only [depth, hpc, how, honce, if_true] at hd
          simp only [depth, ho, count_zero, update_of_ne hnw, hpc, Option.some.injEq, hne, if_false]
          omega
        · simp [ho, hne] at hot
      · refine (h.holding o).congr
          (depth_congr (update_of_ne hnw _ _) rfl (count_ne hol 0)) ⟨?_, ?_, ?_⟩
        · rw [hw]
          exact List.mem_erase_of_ne hnw
        · simp [ho, how, Ne.symm hnw, Ne.symm hol]
        · simp [how, Ne.symm hol]
  count_pos := fun _ => by simp only [hc]; omega
  free := fun hn => by simp [ho] at hn

theorem Inv.unlock (hpc : s.pc thread = .Running) : (s.unlock cfg policy build thread).Inv := by
  by_cases ho : s.mutex.owner = some thread
  · obtain ⟨cfg', heq⟩ := build.unlock_eq cfg policy
    have hp := h.count_pos (by simp [ho])
    have hr := (State.unlock_ret policy cfg' s.mutex thread).mpr ho
    simp only [Callers.unlock, heq, hr]
    cases s.mutex.unlock_outcome cfg' policy thread with
    | Refused hot => exact absurd ho hot
    | Released how hm hl hnw =>
      rw [hnw, hl]
      apply h.released hpc how
      · simp only
        omega
      · rfl
      · have hlf : s.mutex.lockCount - 1 ≠ 0 := by omega
        simp [how, if_neg hlf]
      · intro hz
        simp only at hz
        omega
    | Freed how hls he hn hc hw hnw =>
      rw [hnw]
      apply h.released hpc how
      · omega
      · rw [hw, he]
      · rw [hn, if_pos hc]
      · exact fun _ => hw
    | HandedOn how hls w hmm hnx hc hw hnw =>
      rw [hnw]
      exact h.handedOn hpc how (by omega) hmm hnx hc hw
  · rw [(unlock_of_ne ho).1]
    exact h

theorem Inv.timeOut {timeout : Timeout} (hpc : s.pc thread = .Pended timeout) : (s.timeOut thread).Inv where
  parked := h.parked.dequeue thread (.Woken EAGAIN)
  holding := by
    intro other
    have hd : (s.timeOut thread).depth other = s.depth other := by
      by_cases heq : other = thread
      · subst heq
        simp [depth, Callers.timeOut, hpc, EAGAIN]
      · exact depth_congr (update_of_ne heq _ _) rfl rfl
    refine ⟨?_, fun ho => ?_⟩
    · rw [hd]
      exact (h.holding other).depth_eq
    · exact mt List.mem_of_mem_erase ((h.holding other).notWaiting ho)
  count_pos := h.count_pos
  free := by
    intro ho
    obtain ⟨hc, he⟩ := h.free ho
    refine ⟨hc, ?_⟩
    simp [Callers.timeOut, State.timeOut, he]

theorem Inv.resume {ret : Int} (hpc : s.pc thread = .Woken ret) : (s.resume cfg policy thread ret).Inv := by
  have hs : s.mutex.SameHold (s.resume cfg policy thread ret).mutex := by
    simp only [Callers.resume]
    split
    · exact .refl _
    · exact s.mutex.lockTimedOut_sameHold cfg policy
  have hm : thread ∉ s.mutex.waitQ := h.parked.not_mem thread (by simp [hpc])
  have hd : ∀ other, (s.resume cfg policy thread ret).depth other = s.depth other := by
    intro other
    by_cases heq : other = thread
    · subst heq
      by_cases hr : ret = 0
      · subst hr
        simp [depth, Callers.resume, hpc]
      · simp [depth, Callers.resume, hpc, hr, count_of_ne_zero s.locked other hr]
    · exact depth_congr (update_of_ne heq _ _) (count_ne heq ret) rfl
  refine ⟨?_, fun other => ⟨?_, ?_⟩, ?_, ?_⟩
  · rw [hs.waitQ]
    exact h.parked.update thread hm .Running
  · rw [hd, hs.owner, hs.lockCount]
    exact (h.holding other).depth_eq
  · rw [hs.owner, hs.waitQ]
    exact (h.holding other).notWaiting
  · rw [hs.owner, hs.lockCount]
    exact h.count_pos
  · rw [hs.owner, hs.lockCount, hs.waitQ]
    exact h.free

theorem Inv.step {op : Op} (hs : s.step cfg policy build op = some next) : next.Inv := by
  rcases step_cases hs with ⟨thread, timeout, _, hpc, rfl⟩ | ⟨thread, _, hpc, rfl⟩ |
    ⟨thread, timeout, _, hpc, rfl⟩ | ⟨thread, ret, _, hpc, rfl⟩
  · exact h.lock timeout hpc
  · exact h.unlock hpc
  · exact h.timeOut hpc
  · exact h.resume hpc

end

theorem mutual_exclusion (cfg : Config) (policy : (Tid → Int) → Policy Tid) (build : Build)
    (prio : Tid → Int) (ops : List Op) :
    Throughout (step cfg policy build) (Excludes cfg policy build) (start prio) ops :=
  (throughout_of_step (fun _ _ _ h hs => Inv.step h hs) (start_inv prio) ops).mono
    fun _ h => h.excludes

end Gale.Mutex.Callers
