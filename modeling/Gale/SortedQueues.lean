import Gale.Thread
import Gale.Lib.Replies
import Gale.Lib.SortedArray

namespace Gale.SortedQueues

open Lib

abbrev MAX_WAITERS : Nat := 64

abbrev MAX_RUNQ_SIZE : Nat := 64

structure ThreadQueue where
  entries : Nat → Option Thread
  len : Nat

namespace ThreadQueue

def new : ThreadQueue := ⟨fun _ => none, 0⟩

-- The outer none is the panic of an unwrap.
def insert (max : Nat) (self : ThreadQueue) (thread : Thread) : Option (Bool × ThreadQueue) :=
  if self.len ≥ max then some (false, self)
  else
    (findPosition Thread.priority self.entries thread 0 self.len).map fun insertPos =>
      (true,
        { entries := Function.update (shiftRight insertPos (self.len - insertPos) self.entries)
            insertPos (some thread)
          len := self.len + 1 })

def takeFirst (self : ThreadQueue) : Option Thread × ThreadQueue :=
  if self.len = 0 then (none, self)
  else
    (self.entries 0,
      { entries := shiftLeft (Function.update self.entries 0 none) 0 (self.len - 1)
        len := self.len - 1 })

def pend (self : ThreadQueue) (thread : Thread) : Option (Bool × ThreadQueue) :=
  self.insert MAX_WAITERS thread

def unpendFirst (self : ThreadQueue) (returnValue : Int) : Option Thread × ThreadQueue :=
  let (thread, self) := self.takeFirst
  (thread.map fun t => t.wake returnValue, self)

def unpendAll (self : ThreadQueue) (_returnValue : Int) : Nat × ThreadQueue :=
  (self.len, { entries := clear self.entries 0 self.len, len := 0 })

def add (self : ThreadQueue) (thread : Thread) : Option (Bool × ThreadQueue) :=
  self.insert MAX_RUNQ_SIZE thread

def removeBest (self : ThreadQueue) : Option Thread × ThreadQueue := self.takeFirst

end ThreadQueue

-- What a queue is for: the threads in it in the order in which they came.
abbrev Waiting := List Thread

namespace Waiting

def insert (max : Nat) (w : Waiting) (thread : Thread) : Bool × Waiting :=
  if w.length < max then (true, w ++ [thread]) else (false, w)

def takeFirst (w : Waiting) : Option Thread × Waiting :=
  match w.argmin Thread.priority with
  | some thread => (some thread, w.erase thread)
  | none => (none, w)

def sorted (w : Waiting) : List Thread := w.insertionSort fun a b => a.priority ≤ b.priority

end Waiting

namespace ThreadQueue

-- The array holds the stable insertion sort of the threads that wait.
structure Holds (q : ThreadQueue) (w : Waiting) : Prop where
  len_eq : q.len = w.length
  entries_eq : ∀ i, q.entries i = w.sorted[i]?

variable {q : ThreadQueue} {w : Waiting}

theorem holds_new : new.Holds [] := ⟨rfl, fun _ => rfl⟩

theorem Holds.length_sorted (h : q.Holds w) : w.sorted.length = q.len := by
  rw [h.len_eq, Waiting.sorted, List.length_insertionSort]

theorem Holds.insert (h : q.Holds w) (max : Nat) (t : Thread) :
    ∃ next, q.insert max t = some ((w.insert max t).1, next) ∧
      next.Holds (w.insert max t).2 := by
  by_cases hr : w.length < max
  · have hc : ∀ k, q.entries (0 + k) = w.sorted[k]? := fun k => by
      rw [Nat.zero_add, h.entries_eq]
    obtain ⟨p, hle, hf, hi⟩ := findPosition_eq Thread.priority hc t
    rw [Nat.zero_add, h.length_sorted] at hf
    have hn : ¬ q.len ≥ max := by
      have := h.len_eq
      omega
    simp only [ThreadQueue.insert, if_neg hn, hf, Waiting.insert, if_pos hr]
    refine ⟨_, rfl, by simp [h.len_eq], fun k => ?_⟩
    simp only [← h.length_sorted]
    rw [insertIdx_cells h.entries_eq hle, ← hi, Waiting.sorted, Waiting.sorted, insertionSort_concat]
  · have hfl : q.len ≥ max := by
      have := h.len_eq
      omega
    simp only [ThreadQueue.insert, if_pos hfl, Waiting.insert, if_neg hr]
    exact ⟨q, rfl, h⟩

theorem Holds.takeFirst (h : q.Holds w) : q.takeFirst.1 = w.takeFirst.1 ∧ q.takeFirst.2.Holds w.takeFirst.2 := by
  unfold ThreadQueue.takeFirst Waiting.takeFirst
  cases hm : w.argmin Thread.priority with
  | none =>
    have hn := List.argmin_eq_none.mp hm
    rw [if_pos (by rw [h.len_eq, hn]; rfl)]
    exact ⟨rfl, h⟩
  | some m =>
    have hmm : m ∈ w := List.argmin_mem hm
    have hp : q.len ≠ 0 := by
      rw [h.len_eq]
      exact Nat.ne_of_gt (List.length_pos_of_mem hmm)
    have hs : w.sorted = m :: Waiting.sorted (w.erase m) := insertionSort_eq_cons _ hm
    rw [if_neg hp]
    refine ⟨by rw [h.entries_eq, hs]; rfl, ?_, fun k => ?_⟩
    · rw [List.length_erase_of_mem hmm, h.len_eq]
    · simp only [← h.length_sorted]
      rw [tail_cells h.entries_eq (by simp [hs]), hs, List.tail_cons]

theorem Holds.unpendAll (h : q.Holds w) (ret : Int) :
    (q.unpendAll ret).1 = w.length ∧ (q.unpendAll ret).2.Holds [] := by
  refine ⟨h.len_eq, rfl, fun k => ?_⟩
  simp only [ThreadQueue.unpendAll, ← h.length_sorted]
  exact clear_cells h.entries_eq k

end ThreadQueue

inductive Call where
  | Pend (thread : Thread)
  | UnpendFirst (returnValue : Int)
  | UnpendAll (returnValue : Int)
  | Add (thread : Thread)
  | RemoveBest

inductive Reply where
  | Inserted (done : Bool)
  | Removed (thread : Option Thread)
  | Woken (count : Nat)

structure Queues where
  wait : ThreadQueue
  run : ThreadQueue

namespace Queues

def start : Queues := ⟨.new, .new⟩

def call (s : Queues) : Call → Option Reply × Queues
  | .Pend thread =>
    match s.wait.pend thread with
    | some (done, wait) => (some (.Inserted done), { s with wait })
    | none => (none, s)
  | .UnpendFirst returnValue =>
    let (thread, wait) := s.wait.unpendFirst returnValue
    (some (.Removed thread), { s with wait })
  | .UnpendAll returnValue =>
    let (count, wait) := s.wait.unpendAll returnValue
    (some (.Woken count), { s with wait })
  | .Add thread =>
    match s.run.add thread with
    | some (done, run) => (some (.Inserted done), { s with run })
    | none => (none, s)
  | .RemoveBest =>
    let (thread, run) := s.run.removeBest
    (some (.Removed thread), { s with run })

end Queues

structure Abstract where
  wait : Waiting
  run : Waiting

namespace Abstract

def start : Abstract := ⟨[], []⟩

def call (s : Abstract) : Call → Option Reply × Abstract
  | .Pend thread =>
    let (done, wait) := s.wait.insert MAX_WAITERS thread
    (some (.Inserted done), { s with wait })
  | .UnpendFirst returnValue =>
    let (thread, wait) := s.wait.takeFirst
    (some (.Removed (thread.map fun t => t.wake returnValue)), { s with wait })
  | .UnpendAll _ => (some (.Woken s.wait.length), { s with wait := [] })
  | .Add thread =>
    let (done, run) := s.run.insert MAX_RUNQ_SIZE thread
    (some (.Inserted done), { s with run })
  | .RemoveBest =>
    let (thread, run) := s.run.takeFirst
    (some (.Removed thread), { s with run })

end Abstract

namespace Queues

structure Refines (s : Queues) (a : Abstract) : Prop where
  wait : s.wait.Holds a.wait
  run : s.run.Holds a.run

theorem call_refines (s : Queues) (a : Abstract) (x : Call) (h : s.Refines a) :
    (s.call x).1 = (a.call x).1 ∧ (s.call x).2.Refines (a.call x).2 := by
  cases x with
  | Pend t =>
    obtain ⟨wait, heq, hw⟩ := h.wait.insert MAX_WAITERS t
    simp only [call, ThreadQueue.pend, heq]
    exact ⟨rfl, hw, h.run⟩
  | UnpendFirst ret =>
    obtain ⟨ht, hw⟩ := h.wait.takeFirst
    simp only [call, Abstract.call, ThreadQueue.unpendFirst, ht, true_and]
    exact ⟨hw, h.run⟩
  | UnpendAll ret =>
    obtain ⟨hc, hw⟩ := h.wait.unpendAll ret
    simp only [call, Abstract.call, hc, true_and]
    exact ⟨hw, h.run⟩
  | Add t =>
    obtain ⟨run, heq, hr⟩ := h.run.insert MAX_RUNQ_SIZE t
    simp only [call, ThreadQueue.add, heq]
    exact ⟨rfl, h.wait, hr⟩
  | RemoveBest =>
    obtain ⟨ht, hr⟩ := h.run.takeFirst
    simp only [call, Abstract.call, ThreadQueue.removeBest, ht, true_and]
    exact ⟨h.wait, hr⟩

theorem stable_priority_queues (calls : List Call) :
    (replies call start calls).1 = (replies Abstract.call Abstract.start calls).1 ∧
      (replies call start calls).2.Refines (replies Abstract.call Abstract.start calls).2 :=
  replies_refine (fun s a input _ => call_refines s a input)
    ⟨ThreadQueue.holds_new, ThreadQueue.holds_new⟩

end Queues

end Gale.SortedQueues
