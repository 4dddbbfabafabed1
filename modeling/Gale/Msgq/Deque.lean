import Gale.Lib.Checked
import Gale.Lib.Replies
import Gale.Msgq

namespace Gale.Msgq

open Lib

structure PeekAtDecideResult where
  ok : Bool
  slotIdx : Nat

def peekAtDecide (readIdx usedMsgs maxMsgs idx : Nat) : PeekAtDecideResult :=
  if idx ≥ usedMsgs then ⟨false, 0⟩
  else
    let sum := readIdx + idx
    ⟨true, if sum < maxMsgs then sum else sum - maxMsgs⟩

structure MsgQ where
  msgSize : Nat
  maxMsgs : Nat
  readIdx : Nat
  writeIdx : Nat
  usedMsgs : Nat

namespace MsgQ

def init (msgSize maxMsgs : Nat) : Except Int MsgQ :=
  if msgSize = 0 ∨ maxMsgs = 0 then .error EINVAL
  else
    match checkedMul (2 ^ 32 - 1) msgSize maxMsgs with
    | none => .error EINVAL
    | some _ => .ok ⟨msgSize, maxMsgs, 0, 0, 0⟩

def nextIdx (q : MsgQ) (idx : Nat) : Nat := if idx + 1 < q.maxMsgs then idx + 1 else 0

def prevIdx (q : MsgQ) (idx : Nat) : Nat := if idx = 0 then q.maxMsgs - 1 else idx - 1

def put (q : MsgQ) : Except Int Nat × MsgQ :=
  if q.usedMsgs ≥ q.maxMsgs then (.error ENOMSG, q)
  else (.ok q.writeIdx, { q with writeIdx := q.nextIdx q.writeIdx, usedMsgs := q.usedMsgs + 1 })

def putFront (q : MsgQ) : Except Int Nat × MsgQ :=
  if q.usedMsgs ≥ q.maxMsgs then (.error ENOMSG, q)
  else
    let readIdx := q.prevIdx q.readIdx
    (.ok readIdx, { q with readIdx := readIdx, usedMsgs := q.usedMsgs + 1 })

def get (q : MsgQ) : Except Int Nat × MsgQ :=
  if q.usedMsgs = 0 then (.error ENOMSG, q)
  else (.ok q.readIdx, { q with readIdx := q.nextIdx q.readIdx, usedMsgs := q.usedMsgs - 1 })

def peekAt (q : MsgQ) (idx : Nat) : Except Int Nat :=
  if idx ≥ q.usedMsgs then .error ENOMSG
  else
    let sum := q.readIdx + idx
    .ok (if sum < q.maxMsgs then sum else sum - q.maxMsgs)

def purge (q : MsgQ) : Nat × MsgQ := (q.usedMsgs, { q with usedMsgs := 0, readIdx := q.writeIdx })

def stored (q : MsgQ) : List Nat := contents id q.maxMsgs q.readIdx q.usedMsgs

inductive Request (α : Type*) where
  | Put (message : α)
  | PutFront (message : α)
  | Get
  | PeekAt (idx : Nat)
  | Purge

inductive Reply (α : Type*) where
  | Stored
  | Message (message : α)
  | Purged (count : Nat)
  | Error (code : Int)

structure Client (α : Type*) where
  q : MsgQ
  slots : Nat → α

variable {α : Type*}

def Client.serve (c : Client α) : Request α → Reply α × Client α
  | .Put message =>
    match c.q.put with
    | (.ok slot, q) => (.Stored, ⟨q, Function.update c.slots slot message⟩)
    | (.error code, q) => (.Error code, ⟨q, c.slots⟩)
  | .PutFront message =>
    match c.q.putFront with
    | (.ok slot, q) => (.Stored, ⟨q, Function.update c.slots slot message⟩)
    | (.error code, q) => (.Error code, ⟨q, c.slots⟩)
  | .Get =>
    match c.q.get with
    | (.ok slot, q) => (.Message (c.slots slot), ⟨q, c.slots⟩)
    | (.error code, q) => (.Error code, ⟨q, c.slots⟩)
  | .PeekAt idx =>
    match c.q.peekAt idx with
    | .ok slot => (.Message (c.slots slot), c)
    | .error code => (.Error code, c)
  | .Purge => (.Purged c.q.purge.1, ⟨c.q.purge.2, c.slots⟩)

def deque (maxMsgs : Nat) (queue : List α) : Request α → Reply α × List α
  | .Put message =>
    if queue.length < maxMsgs then (.Stored, queue ++ [message]) else (.Error ENOMSG, queue)
  | .PutFront message =>
    if queue.length < maxMsgs then (.Stored, message :: queue) else (.Error ENOMSG, queue)
  | .Get =>
    match queue with
    | [] => (.Error ENOMSG, [])
    | message :: rest => (.Message message, rest)
  | .PeekAt idx =>
    match queue[idx]? with
    | some message => (.Message message, queue)
    | none => (.Error ENOMSG, queue)
  | .Purge => (.Purged queue.length, [])

structure Decides (q : MsgQ) (isNoWait : Bool) : Prop where
  put : match q.put, putDecide q.writeIdx q.usedMsgs q.maxMsgs false isNoWait with
    | (.ok slot, next), d => slot = q.writeIdx ∧ d = ⟨.Store, next.writeIdx, next.usedMsgs⟩
    | (.error _, _), d => d = ⟨if isNoWait then .Full else .Pend, q.writeIdx, q.usedMsgs⟩
  putFront : match q.putFront, putFrontDecide q.readIdx q.usedMsgs q.maxMsgs with
    | (.ok slot, next), d => slot = d.newReadIdx ∧ d = ⟨true, next.readIdx, next.usedMsgs⟩
    | (.error _, _), d => d = ⟨false, q.readIdx, q.usedMsgs⟩
  get : match q.get, getDecide q.readIdx q.usedMsgs q.maxMsgs false isNoWait with
    | (.ok slot, next), d => slot = q.readIdx ∧ d = ⟨.Read, next.readIdx, next.usedMsgs⟩
    | (.error _, _), d => d = ⟨if isNoWait then .Empty else .Pend, q.readIdx, q.usedMsgs⟩
  peekAt : ∀ idx, match q.peekAt idx, peekAtDecide q.readIdx q.usedMsgs q.maxMsgs idx with
    | .ok slot, d => d = ⟨true, slot⟩
    | .error _, d => d.ok = false

theorem decides (q : MsgQ) (isNoWait : Bool) : Decides q isNoWait where
  put := by
    by_cases hr : q.usedMsgs < q.maxMsgs
    · simp [MsgQ.put, putDecide, hr, Nat.not_le.mpr hr, nextIdx]
    · cases isNoWait <;> simp [MsgQ.put, putDecide, hr, Nat.not_lt.mp hr]
  putFront := by
    by_cases hr : q.usedMsgs < q.maxMsgs
    · simp [MsgQ.putFront, putFrontDecide, hr, Nat.not_le.mpr hr, prevIdx]
    · simp [MsgQ.putFront, putFrontDecide, hr, Nat.not_lt.mp hr]
  get := by
    by_cases he : q.usedMsgs = 0
    · cases isNoWait <;> simp [MsgQ.get, getDecide, he]
    · simp [MsgQ.get, getDecide, he, Nat.pos_of_ne_zero he, nextIdx]
  peekAt := by
    intro idx
    by_cases hi : idx ≥ q.usedMsgs
    · simp [MsgQ.peekAt, peekAtDecide, hi]
    · simp [MsgQ.peekAt, peekAtDecide, hi]

structure Represents (maxMsgs : Nat) (c : Client α) (queue : List α) : Prop where
  maxMsgs_eq : c.q.maxMsgs = maxMsgs
  holds : Holds maxMsgs c.q.readIdx c.q.writeIdx c.q.usedMsgs c.slots queue

namespace Represents

variable {n : Nat} {c : Client α} {queue : List α} (h : Represents n c queue)
include h

theorem put (m : α) : (c.serve (.Put m)).1 = (deque n queue (.Put m)).1 ∧
      Represents n (c.serve (.Put m)).2 (deque n queue (.Put m)).2 := by
  obtain ⟨rfl, holds⟩ := h
  have hn := next_index holds.stop_lt
  by_cases hr : c.q.usedMsgs < c.q.maxMsgs
  · simp only [Client.serve, MsgQ.put, deque, holds.length_eq, if_pos hr, if_neg (Nat.not_le.mpr hr), nextIdx, hn]
    exact ⟨trivial, rfl, holds.push_back m hr⟩
  · simp only [Client.serve, MsgQ.put, deque, holds.length_eq, if_neg hr, if_pos (Nat.not_lt.mp hr)]
    exact ⟨trivial, rfl, holds⟩

theorem putFront (m : α) : (c.serve (.PutFront m)).1 = (deque n queue (.PutFront m)).1 ∧
      Represents n (c.serve (.PutFront m)).2
        (deque n queue (.PutFront m)).2 := by
  obtain ⟨rfl, holds⟩ := h
  have hp := previous_index holds.start_lt
  by_cases hr : c.q.usedMsgs < c.q.maxMsgs
  · simp only [Client.serve, MsgQ.putFront, deque, holds.length_eq, if_pos hr, if_neg (Nat.not_le.mpr hr), prevIdx, hp]
    exact ⟨trivial, rfl, holds.push_front m hr⟩
  · simp only [Client.serve, MsgQ.putFront, deque, holds.length_eq, if_neg hr, if_pos (Nat.not_lt.mp hr)]
    exact ⟨trivial, rfl, holds⟩

theorem get : (c.serve .Get).1 = (deque n queue .Get).1 ∧ Represents n (c.serve .Get).2 (deque n queue .Get).2 := by
  obtain ⟨rfl, holds⟩ := h
  have hn := next_index holds.start_lt
  have hl := holds.length_eq
  cases queue with
  | nil =>
    have he : c.q.usedMsgs = 0 := hl.symm
    simp only [Client.serve, MsgQ.get, if_pos he, deque]
    exact ⟨trivial, rfl, holds⟩
  | cons m rest =>
    obtain ⟨hm, hr⟩ := holds.pop_front
    have hs : ¬ c.q.usedMsgs = 0 := by
      rw [← hl]
      exact Nat.succ_ne_zero _
    simp only [Client.serve, MsgQ.get, if_neg hs, nextIdx, hn, deque, hm]
    exact ⟨trivial, rfl, hr⟩

theorem peekAt (idx : Nat) : c.serve (.PeekAt idx) = ((deque n queue (.PeekAt idx)).1, c) := by
  obtain ⟨rfl, holds⟩ := h
  have hu := holds.count_le
  by_cases hi : idx < c.q.usedMsgs
  · simp [Client.serve, MsgQ.peekAt, if_neg (Nat.not_le.mpr hi), deque, holds.getElem?_eq hi, wrap_index holds.start_lt (Nat.le_trans hi.le hu)]
  · have hn : queue[idx]? = none :=
      List.getElem?_eq_none_iff.mpr (by rw [holds.length_eq]; exact Nat.not_lt.mp hi)
    simp [Client.serve, MsgQ.peekAt, if_pos (Nat.not_lt.mp hi), deque, hn]

theorem serve (request : Request α) : (c.serve request).1 = (deque n queue request).1 ∧
      Represents n (c.serve request).2 (deque n queue request).2 := by
  cases request with
  | Put m => exact h.put m
  | PutFront m => exact h.putFront m
  | Get => exact h.get
  | PeekAt idx =>
    rw [h.peekAt idx, deque]
    refine ⟨rfl, ?_⟩
    cases queue[idx]? <;> exact h
  | Purge =>
    refine ⟨?_, h.maxMsgs_eq, Holds.empty c.slots h.holds.stop_lt⟩
    rw [deque, h.holds.length_eq]
    rfl

theorem keeps_stored (request : Request α) {slot : Nat} (hs : slot ∈ c.q.stored) :
    (c.serve request).2.slots slot = c.slots slot := by
  obtain ⟨rfl, holds⟩ := h
  simp only [stored, contents, List.mem_map, List.mem_range, id_eq] at hs
  obtain ⟨i, hi, rfl⟩ := hs
  cases request with
  | Put m =>
    by_cases hr : c.q.usedMsgs < c.q.maxMsgs
    · simp only [Client.serve, MsgQ.put, if_neg (Nat.not_le.mpr hr)]
      exact holds.slots_eq (holds.push_back m hr) hi
    · simp [Client.serve, MsgQ.put, if_pos (Nat.not_lt.mp hr)]
  | PutFront m =>
    by_cases hr : c.q.usedMsgs < c.q.maxMsgs
    · simp only [Client.serve, MsgQ.putFront, if_neg (Nat.not_le.mpr hr), prevIdx, previous_index holds.start_lt]
      apply Function.update_of_ne
      intro heq
      have ho := slot_inj (by omega) (by omega) heq
      omega
    · simp [Client.serve, MsgQ.putFront, if_pos (Nat.not_lt.mp hr)]
  | Get =>
    by_cases he : c.q.usedMsgs = 0
    · simp [Client.serve, MsgQ.get, if_pos he]
    · simp [Client.serve, MsgQ.get, if_neg he]
  | PeekAt idx => rw [peekAt ⟨rfl, holds⟩]
  | Purge => rfl

end Represents

theorem message_deque {msgSize maxMsgs : Nat} {q : MsgQ} (hinit : init msgSize maxMsgs = .ok q)
    (slots : Nat → α) (requests : List (Request α)) :
    (replies Client.serve ⟨q, slots⟩ requests).1 = (replies (deque maxMsgs) [] requests).1 ∧
      let c := (replies Client.serve ⟨q, slots⟩ requests).2
      (∀ request, ∀ slot ∈ c.q.stored, (c.serve request).2.slots slot = c.slots slot) ∧
      ∀ isNoWait, Decides c.q isNoWait := by
  have hs : Represents maxMsgs ⟨q, slots⟩ [] := by
    unfold init at hinit
    split at hinit
    · cases hinit
    · next hsz =>
        split at hinit
        · cases hinit
        · cases hinit
          have hp : 0 < maxMsgs := by omega
          exact ⟨rfl, Holds.empty slots hp⟩
  have hsr : ∀ (c : Client α) queue, ∀ request ∈ requests, Represents maxMsgs c queue →
      (c.serve request).1 = (deque maxMsgs queue request).1 ∧
        Represents maxMsgs (c.serve request).2 (deque maxMsgs queue request).2 :=
    fun _ _ request _ h => h.serve request
  obtain ⟨hr, hf⟩ := replies_refine hsr hs
  exact ⟨hr, fun request _ hsl => hf.keeps_stored request hsl, fun _ => decides _ _⟩

theorem message_deque_around_the_end : init 4 3 = .ok ⟨4, 3, 0, 0, 0⟩ ∧
      (replies Client.serve ⟨⟨4, 3, 0, 0, 0⟩, fun _ => 0⟩
        [.Put 1, .Put 2, .PutFront 3, .Put 4, .PeekAt 2, .Get, .Purge]).1 =
        [.Stored, .Stored, .Stored, .Error ENOMSG, .Message 2, .Message 3, .Purged 2] := by
  have hi : init 4 3 = .ok ⟨4, 3, 0, 0, 0⟩ := rfl
  exact ⟨hi, (message_deque hi (fun _ => 0)
    [.Put 1, .Put 2, .PutFront 3, .Put 4, .PeekAt 2, .Get, .Purge]).1⟩

end MsgQ

end Gale.Msgq
