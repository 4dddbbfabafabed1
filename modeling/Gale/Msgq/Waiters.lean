import Gale.Msgq.Fifo
import Gale.Lib.WaitQueue

namespace Gale.Msgq

open Function Lib

variable {cfg : Config}

namespace Threads

section

variable (s : Threads cfg) (t : Tid)
include s t

@[simp] theorem returns_waitQ (call : Call cfg) (ret : Int) (data : Message cfg) :
    (s.returns t call ret data).waitQ = s.waitQ := rfl

@[simp] theorem returns_calls (call : Call cfg) (ret : Int) (data : Message cfg) :
    (s.returns t call ret data).calls = s.calls := rfl

@[simp] theorem returns_swapData (call : Call cfg) (ret : Int) (data : Message cfg) :
    (s.returns t call ret data).swapData = s.swapData := rfl

@[simp] theorem zReadyThread_waitQ (ret : Int) : (s.zReadyThread t ret).waitQ = s.waitQ := by
  unfold zReadyThread
  split <;> rfl

@[simp] theorem zReadyThread_swapData (ret : Int) : (s.zReadyThread t ret).swapData = s.swapData := by
  unfold zReadyThread
  split <;> rfl

@[simp] theorem zReadyThread_calls (ret : Int) : (s.zReadyThread t ret).calls = update s.calls t none := by
  unfold zReadyThread
  split
  · next hc => rw [← hc, update_eq_self]
  · rfl

end

section

variable (s : Threads cfg) (reader : Tid) (data : Message cfg)
include s reader data

@[simp] theorem handOver_waitQ : (s.handOver reader data).waitQ = s.waitQ := by
  simp [handOver]

@[simp] theorem handOver_calls : (s.handOver reader data).calls = update s.calls reader none := by
  simp [handOver]

@[simp] theorem handOver_swapData : (s.handOver reader data).swapData = update s.swapData reader data := by
  simp [handOver]

end

variable (pol : Policy Tid)

theorem zUnpendFirstThread_cases (s : Threads cfg) : (s.waitQ = [] ∧ s.zUnpendFirstThread pol = (none, s)) ∨
      ∃ thread ∈ s.waitQ, s.zUnpendFirstThread pol = (some thread, { s with waitQ := s.waitQ.erase thread }) := by
  rcases pol.take_cases s.waitQ with ⟨hn, ht⟩ | ⟨thread, hm, ht⟩
  · refine .inl ⟨hn, ?_⟩
    simp only [zUnpendFirstThread, ht]
    rw [← hn]
  · exact .inr ⟨thread, hm, by simp only [zUnpendFirstThread, ht]⟩

theorem wakeAll_waitQ {fuel : Nat} (s : Threads cfg) (h : s.waitQ.length ≤ fuel) :
    (s.wakeAll pol fuel).waitQ = [] := by
  induction fuel generalizing s with
  | zero => exact List.length_eq_zero_iff.mp (Nat.le_zero.mp h)
  | succ fuel ih =>
    rcases s.zUnpendFirstThread_cases pol with ⟨hn, ht⟩ | ⟨thread, hm, ht⟩
    · simp [wakeAll, ht, hn]
    · simp only [wakeAll, ht]
      apply ih
      have := List.length_erase_of_mem hm
      have := List.length_pos_of_mem hm
      simp only [zReadyThread_waitQ]
      omega

def NoLostWaiter (s : Threads cfg) : Prop :=
  ∀ thread, (s.calls thread).isSome → thread ∈ s.waitQ

variable {s : Threads cfg}

theorem NoLostWaiter.readied {s' : Threads cfg} (h : s.NoLostWaiter) (thread : Tid)
    (hc : s'.calls = update s.calls thread none)
    (hw : s'.waitQ = s.waitQ.erase thread) : s'.NoLostWaiter := by
  intro o ho
  by_cases heq : o = thread
  · subst heq
    simp [hc] at ho
  · rw [hc, update_of_ne heq] at ho
    rw [hw]
    exact (List.mem_erase_of_ne heq).mpr (h o ho)

theorem NoLostWaiter.zPendCurr (h : s.NoLostWaiter) (thread : Tid) (call : Call cfg)
    (data : Message cfg) : (s.zPendCurr thread call data).NoLostWaiter := by
  intro o ho
  by_cases heq : o = thread
  · simp [Threads.zPendCurr, heq]
  · have hc : (s.calls o).isSome := by
      simpa [Threads.zPendCurr, update_of_ne heq] using ho
    exact List.mem_append_left _ (h o hc)

theorem NoLostWaiter.wakeAll {fuel : Nat} (h : s.NoLostWaiter) : (s.wakeAll pol fuel).NoLostWaiter := by
  induction fuel generalizing s with
  | zero => exact h
  | succ fuel ih =>
    rcases s.zUnpendFirstThread_cases pol with ⟨_, ht⟩ | ⟨thread, _, ht⟩
    · simpa only [Threads.wakeAll, ht] using h
    · simp only [Threads.wakeAll, ht]
      exact ih (h.readied thread (by simp) (by simp))

end Threads

namespace Fifo

-- Why a pended call is still waiting: a writer for room, a reader for a message.
def Waits (s : Fifo cfg) (thread : Tid) : Call cfg → Prop
  | .Put data _ => s.queue.length = cfg.maxMsgs ∧ s.swapData thread = data
  | .PutFront _ => False
  | .Get _ _ => s.queue.length = 0

variable {s s' : Fifo cfg} {thread : Tid}

theorem waits_congr (hl : s'.queue.length = s.queue.length)
    (hd : s'.swapData thread = s.swapData thread) (call : Call cfg) :
    s'.Waits thread call ↔ s.Waits thread call := by
  cases call <;> simp [Waits, hl, hd]

structure Inv (s : Fifo cfg) : Prop where
  length_le : s.queue.length ≤ cfg.maxMsgs
  nodup : s.waitQ.Nodup
  waits : ∀ thread ∈ s.waitQ, ∃ call, s.calls thread = some call ∧ s.Waits thread call

theorem Inv.of_sublist (h : s.Inv) (hl : s'.queue.length ≤ cfg.maxMsgs)
    (hs : s'.waitQ.Sublist s.waitQ) (hk : ∀ thread ∈ s'.waitQ,
      s'.calls thread = s.calls thread ∧ s'.swapData thread = s.swapData thread)
    (hq : s'.waitQ = [] ∨ s'.queue.length = s.queue.length) : s'.Inv := by
  refine ⟨hl, h.nodup.sublist hs, fun thread hm => ?_⟩
  obtain ⟨call, hcl, hw⟩ := h.waits thread (hs.subset hm)
  obtain ⟨hc, hd⟩ := hk thread hm
  refine ⟨call, hc.trans hcl, ?_⟩
  rcases hq with hn | hln
  · simp [hn] at hm
  · exact (waits_congr hln hd call).mpr hw

theorem Inv.of_erase (h : s.Inv) (gone : Tid) (hw : s'.waitQ = s.waitQ.erase gone) (hk : ∀ thread, thread ≠ gone →
      s'.calls thread = s.calls thread ∧ s'.swapData thread = s.swapData thread)
    (hq : s'.queue.length = s.queue.length) : s'.Inv := by
  refine h.of_sublist (hq ▸ h.length_le) (hw ▸ List.erase_sublist) ?_ (.inr hq)
  intro thread hm
  rw [hw, h.nodup.mem_erase_iff] at hm
  exact hk thread hm.1

theorem Inv.parked (h : s.Inv) : Parked (· ≠ none) s.waitQ s.calls := by
  refine ⟨h.nodup, fun thread hm => ?_⟩
  obtain ⟨call, hc, _⟩ := h.waits thread hm
  simp [hc]

theorem Inv.zPendCurr (h : s.Inv) {call : Call cfg} {data : Message cfg} (hf : s.calls thread = none)
    (hw : Waits { s with toThreads := s.zPendCurr thread call data } thread call) :
    Inv { s with toThreads := s.zPendCurr thread call data } := by
  have hp := h.parked.enqueue thread (by simp [hf]) (Option.some_ne_none call)
  refine ⟨h.length_le, hp.nodup, fun o hmm => ?_⟩
  by_cases heq : o = thread
  · subst heq
    exact ⟨call, by simp [Threads.zPendCurr], hw⟩
  · have hm : o ∈ s.waitQ := by
      simpa [Threads.zPendCurr, heq] using hmm
    obtain ⟨old, hc, ho⟩ := h.waits o hm
    refine ⟨old, by simpa [Threads.zPendCurr, update_of_ne heq] using hc, ?_⟩
    refine (waits_congr ?_ ?_ old).mpr ho
    · rfl
    · exact update_of_ne heq _ _

variable (pol : Policy Tid)

theorem Inv.unpend (h : s.Inv) : Inv { s with toThreads := (s.zUnpendFirstThread pol).2 } := by
  rcases s.zUnpendFirstThread_cases pol with ⟨_, ht⟩ | ⟨w, _, ht⟩
  · simpa only [ht] using h
  · simp only [ht]
    exact h.of_erase w rfl (fun _ _ => ⟨rfl, rfl⟩) rfl

theorem Inv.put (h : s.Inv) (hf : s.calls thread = none) (data : Message cfg)
    (timeout : Timeout) : (s.put pol thread data timeout).Inv := by
  by_cases hr : s.queue.length < cfg.maxMsgs
  · rcases s.zUnpendFirstThread_cases pol with ⟨hn, ht⟩ | ⟨reader, _, ht⟩
    · simp only [Fifo.put, hr, if_true, ht]
      refine h.of_sublist ?_ (List.Sublist.refl _) (fun _ _ => ⟨rfl, rfl⟩) (.inl hn)
      simpa using Nat.succ_le_of_lt hr
    · simp only [Fifo.put, hr, if_true, ht]
      exact h.of_erase reader (by simp) (fun o hne => by simp [update_of_ne hne]) rfl
  · have hle := h.length_le
    have hu := h.unpend pol
    simp only [Fifo.put, hr, if_false]
    split
    · exact ⟨hu.length_le, hu.nodup, hu.waits⟩
    · refine hu.zPendCurr hf ⟨?_, by simp [Threads.zPendCurr]⟩
      show s.queue.length = cfg.maxMsgs
      omega

theorem Inv.putFront (h : s.Inv) (thread : Tid) (data : Message cfg) : (s.putFront pol thread data).Inv := by
  by_cases hr : s.queue.length < cfg.maxMsgs
  · rcases s.zUnpendFirstThread_cases pol with ⟨hn, ht⟩ | ⟨reader, _, ht⟩
    · simp only [Fifo.putFront, hr, if_true, ht]
      refine h.of_sublist ?_ (List.Sublist.refl _) (fun _ _ => ⟨rfl, rfl⟩) (.inl hn)
      simpa using Nat.succ_le_of_lt hr
    · simp only [Fifo.putFront, hr, if_true, ht]
      exact h.of_erase reader (by simp) (fun o hne => by simp [update_of_ne hne]) rfl
  · simp only [Fifo.putFront, hr, if_false]
    exact ⟨h.length_le, h.nodup, h.waits⟩

theorem Inv.get (h : s.Inv) (hf : s.calls thread = none) (data : Message cfg)
    (timeout : Timeout) : (s.get pol thread data timeout).Inv := by
  cases hq : s.queue with
  | nil =>
    simp only [Fifo.get, hq]
    rw [← hq]
    split
    · exact ⟨h.length_le, h.nodup, h.waits⟩
    · apply h.zPendCurr hf
      exact List.length_eq_zero_iff.mpr hq
  | cons m rest =>
    have hl : rest.length + 1 = s.queue.length := by simp [hq]
    have hle := h.length_le
    rcases s.zUnpendFirstThread_cases pol with ⟨hn, ht⟩ | ⟨writer, _, ht⟩
    · simp only [Fifo.get, hq, ht]
      refine h.of_sublist ?_ (List.Sublist.refl _) (fun _ _ => ⟨rfl, rfl⟩) (.inl hn)
      show rest.length ≤ cfg.maxMsgs
      omega
    · simp only [Fifo.get, hq, ht]
      refine h.of_erase writer (by simp) (fun o hne => by simp [update_of_ne hne]) ?_
      simpa using hl

theorem Inv.exec (h : s.Inv) {op : Op cfg} (he : enabled s.toThreads op) : (s.exec pol op).Inv := by
  cases op with
  | Put thread data timeout => exact h.put pol (Option.isNone_iff_eq_none.mp he) _ _
  | PutFront thread data => exact h.putFront pol thread data
  | Get thread data timeout => exact h.get pol (Option.isNone_iff_eq_none.mp he) _ _
  | Purge =>
    have hn := s.toThreads.wakeAll_waitQ pol (Nat.le_refl _)
    refine ⟨Nat.zero_le _, ?_, ?_⟩ <;> simp only [Fifo.exec, purge, hn]
    · exact List.nodup_nil
    · simp
  | TimeOut thread =>
    refine h.of_erase thread (by simp [Fifo.exec, Threads.timeOut]) (fun o hne => ?_) rfl
    simp [Fifo.exec, Threads.timeOut, update_of_ne hne]

theorem Inv.step {next : Fifo cfg} {op : Op cfg} (h : s.Inv) (hs : Fifo.step pol s op = some next) : next.Inv := by
  unfold Fifo.step at hs
  split at hs
  · next he =>
      cases hs
      exact h.exec pol he
  · cases hs

theorem inv_init (swap : Tid → Message cfg) : Inv ⟨⟨[], swap, fun _ => none, []⟩, []⟩ :=
  ⟨Nat.zero_le _, List.nodup_nil, by simp⟩

end Fifo

-- The calls that keep every waiter: put takes a thread off the wait queue
-- before it looks for room, so it must find room or nobody waiting.
def KeepsWaiters (s : Threads cfg) (usedMsgs : Nat) : Op cfg → Prop
  | .Put _ _ _ => usedMsgs < cfg.maxMsgs ∨ s.waitQ = []
  | _ => True

namespace Fifo

variable (pol : Policy Tid) {s : Fifo cfg}

theorem put_noLostWaiter (h : s.NoLostWaiter) (hk : s.queue.length < cfg.maxMsgs ∨ s.waitQ = [])
    (thread : Tid) (data : Message cfg) (timeout : Timeout) :
    (s.put pol thread data timeout).NoLostWaiter := by
  rcases s.zUnpendFirstThread_cases pol with ⟨_, ht⟩ | ⟨reader, hm, ht⟩
  · simp only [Fifo.put, ht]
    split
    · exact h
    · split
      · exact h
      · exact h.zPendCurr _ _ _
  · have hr : s.queue.length < cfg.maxMsgs := by
      refine hk.resolve_right fun hn => ?_
      simp [hn] at hm
    simp only [Fifo.put, hr, if_true, ht]
    exact h.readied reader (by simp) (by simp)

theorem put_losesWaiter (h : s.Inv) {thread : Tid} (hf : s.calls thread = none)
    (hfl : ¬ s.queue.length < cfg.maxMsgs) (hw : s.waitQ ≠ []) (data : Message cfg)
    (timeout : Timeout) : ¬ (s.put pol thread data timeout).NoLostWaiter := by
  rcases s.zUnpendFirstThread_cases pol with ⟨hn, _⟩ | ⟨lost, hmm, ht⟩
  · exact absurd hn hw
  · obtain ⟨call, hc, _⟩ := h.waits lost hmm
    have hg : lost ∉ s.waitQ.erase lost := h.nodup.not_mem_erase
    have hne : lost ≠ thread := by
      intro heq
      rw [heq, hf] at hc
      cases hc
    intro hk
    have hm := hk lost
    simp only [Fifo.put, hfl, if_false, ht] at hm
    split at hm
    · exact hg (hm (by simp [hc]))
    · have := hm (by simp [Threads.zPendCurr, update_of_ne hne, hc])
      simp only [Threads.zPendCurr, List.mem_append, List.mem_singleton, hne, or_false] at this
      exact hg this

theorem get_noLostWaiter (h : s.NoLostWaiter) (thread : Tid) (data : Message cfg)
    (timeout : Timeout) : (s.get pol thread data timeout).NoLostWaiter := by
  cases hq : s.queue with
  | nil =>
    simp only [Fifo.get, hq]
    split
    · exact h
    · exact h.zPendCurr _ _ _
  | cons m rest =>
    rcases s.zUnpendFirstThread_cases pol with ⟨_, ht⟩ | ⟨writer, _, ht⟩
    · simp only [Fifo.get, hq, ht]
      exact h
    · simp only [Fifo.get, hq, ht]
      exact h.readied writer (by simp) (by simp)

theorem putFront_noLostWaiter (h : s.NoLostWaiter) (thread : Tid) (data : Message cfg) :
    (s.putFront pol thread data).NoLostWaiter := by
  unfold Fifo.putFront
  split
  · rcases s.zUnpendFirstThread_cases pol with ⟨_, ht⟩ | ⟨reader, _, ht⟩
    · simp only [ht]
      exact h
    · simp only [ht]
      exact h.readied reader (by simp) (by simp)
  · exact h

theorem exec_noLostWaiter_iff (h : s.Inv) (hk : s.NoLostWaiter) {op : Op cfg} (he : enabled s.toThreads op) :
    (s.exec pol op).NoLostWaiter ↔ KeepsWaiters s.toThreads s.queue.length op := by
  cases op with
  | Put thread data timeout =>
    refine ⟨fun ha => ?_, fun hkp => put_noLostWaiter pol hk hkp _ _ _⟩
    by_contra hbad
    obtain ⟨hf, hw⟩ := not_or.mp hbad
    exact put_losesWaiter pol h (Option.isNone_iff_eq_none.mp he) hf hw
      data timeout ha
  | PutFront thread data => exact iff_of_true (putFront_noLostWaiter pol hk _ _) trivial
  | Get thread data timeout => exact iff_of_true (get_noLostWaiter pol hk _ _ _) trivial
  | Purge => exact iff_of_true (hk.wakeAll pol) trivial
  | TimeOut thread =>
    refine iff_of_true (hk.readied thread ?_ ?_) trivial <;>
      simp [Fifo.exec, Threads.timeOut]

theorem noLostWaiter_along (h : s.Inv) (hk : s.NoLostWaiter) (ops : List (Op cfg)) :
    Throughout (Fifo.step pol) (fun s => s.NoLostWaiter) s ops ↔
      Along (Fifo.step pol) (fun s op => KeepsWaiters s.toThreads s.queue.length op) s ops := by
  have hst {s next : Fifo cfg} {op : Op cfg} (h : s.Inv ∧ s.NoLostWaiter)
      (hs : Fifo.step pol s op = some next) :
      next.NoLostWaiter ↔ KeepsWaiters s.toThreads s.queue.length op := by
    unfold Fifo.step at hs
    split at hs
    · next he =>
        cases hs
        exact exec_noLostWaiter_iff pol h.1 h.2 he
    · cases hs
  refine throughout_iff_along (fun s : Fifo cfg => s.Inv ∧ s.NoLostWaiter) (fun s h => h.2)
    (fun s op next h hkp hs => ⟨h.1.step pol hs, (hst h hs).mpr hkp⟩)
    (fun s op next h hb hs hk => hb ((hst h hs).mp hk)) ⟨h, hk⟩ ops

end Fifo

theorem noLostWaiter_iff (policy : Policy Tid) (buffer : Nat → UInt8)
    (swapData : Tid → Message cfg) (ops : List (Op cfg)) :
    Throughout (step policy) (fun s => s.NoLostWaiter) (init buffer swapData) ops ↔
      Along (step policy) (fun s op => KeepsWaiters s.toThreads s.usedMsgs op)
        (init buffer swapData) ops := by
  have hr := ringOk_init buffer swapData
  have hi : (init buffer swapData).toFifo.NoLostWaiter := by
    intro thread hc
    cases hc
  calc Throughout (step policy) (fun s => s.NoLostWaiter) (init buffer swapData) ops
      ↔ Throughout (Fifo.step policy) (fun s => s.NoLostWaiter) (init buffer swapData).toFifo ops :=
        (State.fifo_simulation policy).throughout_iff (fun s => s.NoLostWaiter) ops hr
    _ ↔ Along (Fifo.step policy) (fun s op => KeepsWaiters s.toThreads s.queue.length op)
          (init buffer swapData).toFifo ops :=
        Fifo.noLostWaiter_along policy (Fifo.inv_init swapData) hi ops
    _ ↔ Along (step policy) (fun s op => KeepsWaiters s.toThreads s.queue.length op)
          (init buffer swapData) ops :=
        ((State.fifo_simulation policy).along_iff
          (fun s op => KeepsWaiters s.toThreads s.queue.length op) ops hr).symm
    _ ↔ _ := by simp only [State.length_queue]

-- A queue of one one-byte message: thread 2 waits for room and the put of
-- thread 3, which returns -ENOMSG, takes it off the wait queue for good.
theorem noLostWaiter_fails : ¬ ∀ (cfg : Config) (policy : Policy Tid) (buffer : Nat → UInt8)
        (swapData : Tid → Message cfg) (ops : List (Op cfg)),
      Throughout (step policy) (fun s => s.NoLostWaiter) (init buffer swapData) ops := by
  intro h
  have hr := h ⟨1, 1, 1, rfl⟩ (Policy.byPriority fun _ => 0) (fun _ => 0) (fun _ _ => 0)
    [.Put 1 (fun _ => 10) K_NO_WAIT, .Put 2 (fun _ => 20) K_FOREVER, .Put 3 (fun _ => 30) K_NO_WAIT]
  have hl := hr.last rfl
  exact absurd (hl 2 rfl) (by decide)

end Gale.Msgq
