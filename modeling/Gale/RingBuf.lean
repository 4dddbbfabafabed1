import Gale.Kernel
import Gale.Lib.Replies
import Gale.Lib.Ring

namespace Gale

open Lib

-- src/ring_buf.rs keeps the indexes only; the bytes are the caller's. Its values are u32:
-- nothing here passes the capacity but the sums that the source makes in u64.
structure RingBuf where
  capacity : Nat
  head : Nat
  tail : Nat
  size : Nat

namespace RingBuf

def init (capacity : Nat) : Except Int RingBuf :=
  if capacity = 0 then .error EINVAL else .ok ⟨capacity, 0, 0, 0⟩

def nextIdx (rb : RingBuf) (idx : Nat) : Nat := if idx + 1 < rb.capacity then idx + 1 else 0

def put (rb : RingBuf) : Except Int Nat × RingBuf :=
  if rb.size ≥ rb.capacity then (.error EAGAIN, rb)
  else (.ok rb.tail, { rb with tail := rb.nextIdx rb.tail, size := rb.size + 1 })

def get (rb : RingBuf) : Except Int Nat × RingBuf :=
  if rb.size = 0 then (.error EAGAIN, rb)
  else (.ok rb.head, { rb with head := rb.nextIdx rb.head, size := rb.size - 1 })

def putN (rb : RingBuf) (count : Nat) : Nat × RingBuf :=
  let free := rb.capacity - rb.size
  let n := if count ≤ free then count else free
  let newTail := rb.tail + n
  (n, { rb with
    tail := if newTail < rb.capacity then newTail else newTail - rb.capacity
    size := rb.size + n })

def getN (rb : RingBuf) (count : Nat) : Nat × RingBuf :=
  let n := if count ≤ rb.size then count else rb.size
  let newHead := rb.head + n
  (n, { rb with
    head := if newHead < rb.capacity then newHead else newHead - rb.capacity
    size := rb.size - n })

def peekAt (rb : RingBuf) (idx : Nat) : Except Int Nat :=
  if idx ≥ rb.size then .error EINVAL
  else
    let sum := rb.head + idx
    .ok (if sum < rb.capacity then sum else sum - rb.capacity)

def reset (rb : RingBuf) : RingBuf := { rb with head := 0, tail := 0, size := 0 }

def unread (rb : RingBuf) : List Nat := contents id rb.capacity rb.head rb.size

inductive Call (α : Type*) where
  | Put (byte : α)
  | Get
  | PutN (bytes : List α)
  | GetN (count : Nat)
  | PeekAt (idx : Nat)
  | Reset

inductive Reply (α : Type*) where
  | Accepted (count : Nat)
  | Bytes (bytes : List α)
  | Error (code : Int)
  | Done

structure Client (α : Type*) where
  rb : RingBuf
  slots : Nat → α

section

variable {α : Type*}

def storeAll (capacity : Nat) (slots : Nat → α) (position : Nat) : List α → Nat → α
  | [] => slots
  | byte :: rest =>
    storeAll capacity (Function.update slots (position % capacity) byte) (position + 1) rest

def Client.call (c : Client α) : Call α → Reply α × Client α
  | .Put byte =>
    match c.rb.put with
    | (.ok slot, rb) => (.Accepted 1, ⟨rb, Function.update c.slots slot byte⟩)
    | (.error code, rb) => (.Error code, ⟨rb, c.slots⟩)
  | .Get =>
    match c.rb.get with
    | (.ok slot, rb) => (.Bytes [c.slots slot], ⟨rb, c.slots⟩)
    | (.error code, rb) => (.Error code, ⟨rb, c.slots⟩)
  | .PutN bytes =>
    let (n, rb) := c.rb.putN bytes.length
    (.Accepted n, ⟨rb, storeAll c.rb.capacity c.slots c.rb.tail (bytes.take n)⟩)
  | .GetN count =>
    let (n, rb) := c.rb.getN count
    (.Bytes (contents c.slots c.rb.capacity c.rb.head n), ⟨rb, c.slots⟩)
  | .PeekAt idx =>
    match c.rb.peekAt idx with
    | .ok slot => (.Bytes [c.slots slot], c)
    | .error code => (.Error code, c)
  | .Reset => (.Done, ⟨c.rb.reset, c.slots⟩)

def fifo (capacity : Nat) (queue : List α) : Call α → Reply α × List α
  | .Put byte =>
    if queue.length < capacity then (.Accepted 1, queue ++ [byte]) else (.Error EAGAIN, queue)
  | .Get =>
    match queue with
    | [] => (.Error EAGAIN, [])
    | byte :: rest => (.Bytes [byte], rest)
  | .PutN bytes =>
    let taken := bytes.take (capacity - queue.length)
    (.Accepted taken.length, queue ++ taken)
  | .GetN count => (.Bytes (queue.take count), queue.drop count)
  | .PeekAt idx =>
    match queue[idx]? with
    | some byte => (.Bytes [byte], queue)
    | none => (.Error EINVAL, queue)
  | .Reset => (.Done, [])

structure Represents (capacity : Nat) (c : Client α) (queue : List α) : Prop where
  capacity_eq : c.rb.capacity = capacity
  holds : Holds capacity c.rb.head c.rb.tail c.rb.size c.slots queue

variable {capacity : Nat} {c : Client α} {queue : List α}

theorem fifo_puts (queue bs : List α) : (replies (fifo capacity) queue (bs.map .Put)).2 =
      queue ++ bs.take (capacity - queue.length) := by
  induction bs generalizing queue with
  | nil => simp
  | cons byte rest ih =>
    rw [List.map_cons, replies_cons, ih, fifo]
    split
    · next hr =>
        rw [show capacity - queue.length = capacity - (queue.length + 1) + 1 by omega]
        simp
    · next hf =>
        have hn : capacity - queue.length = 0 := by omega
        simp [hn]

theorem fifo_gets (queue : List α) (count : Nat) :
    (replies (fifo capacity) queue (List.replicate count .Get)).2 = queue.drop count := by
  induction count generalizing queue with
  | zero => rfl
  | succ count ih =>
    rw [List.replicate_succ, replies_cons, ih]
    cases queue <;> simp [fifo]

theorem storeAll_mod (slots : Nat → α) (p : Nat) (bytes : List α) :
    storeAll capacity slots (p % capacity) bytes = storeAll capacity slots p bytes := by
  induction bytes generalizing slots p with
  | nil => rfl
  | cons byte rest ih =>
    rw [storeAll, storeAll, Nat.mod_mod, ← ih, ← ih _ (p + 1), Nat.mod_add_mod]

namespace Represents

variable (h : Represents capacity c queue)
include h

theorem call_put (byte : α) : c.call (.Put byte) = if c.rb.size < capacity then
      (.Accepted 1, ⟨{ c.rb with tail := (c.rb.tail + 1) % capacity, size := c.rb.size + 1 },
        Function.update c.slots c.rb.tail byte⟩)
    else (.Error EAGAIN, c) := by
  have ht := h.holds.stop_lt
  rw [← h.capacity_eq] at ht ⊢
  split
  · next hr =>
      simp [Client.call, RingBuf.put, if_neg (not_le.mpr hr), nextIdx, next_index ht]
  · next hf => simp [Client.call, RingBuf.put, if_pos (not_lt.mp hf)]

theorem call_get : c.call .Get = if c.rb.size = 0 then (.Error EAGAIN, c) else
      (.Bytes [c.slots c.rb.head],
        ⟨{ c.rb with head := (c.rb.head + 1) % capacity, size := c.rb.size - 1 }, c.slots⟩) := by
  have hh := h.holds.start_lt
  rw [← h.capacity_eq] at hh ⊢
  split
  · next he => simp [Client.call, RingBuf.get, if_pos he]
  · next hs => simp [Client.call, RingBuf.get, if_neg hs, nextIdx, next_index hh]

theorem call_putN (bs : List α) : c.call (.PutN bs) = (.Accepted (min bs.length (capacity - c.rb.size)), ⟨{ c.rb with
          tail := (c.rb.tail + min bs.length (capacity - c.rb.size)) % capacity
          size := c.rb.size + min bs.length (capacity - c.rb.size) },
        storeAll capacity c.slots c.rb.tail (bs.take (capacity - c.rb.size))⟩) := by
  have htl := h.holds.stop_lt
  have ht : bs.take (min bs.length (capacity - c.rb.size)) = bs.take (capacity - c.rb.size) := by
    rw [min_comm, ← List.take_eq_take_min]
  rw [← h.capacity_eq] at htl ht ⊢
  simp [Client.call, RingBuf.putN, ← min_def, ht, wrap_index htl (show min bs.length
    (c.rb.capacity - c.rb.size) ≤ c.rb.capacity by omega)]

theorem call_getN (count : Nat) : c.call (.GetN count) = (.Bytes (queue.take count), ⟨{ c.rb with
          head := (c.rb.head + min count c.rb.size) % capacity
          size := c.rb.size - min count c.rb.size }, c.slots⟩) := by
  have hh := h.holds.start_lt
  have hs := h.holds.count_le
  rw [← h.holds.contents_eq, contents_take]
  rw [← h.capacity_eq] at hh hs ⊢
  simp [Client.call, RingBuf.getN, ← min_def, wrap_index hh (show min count c.rb.size ≤ c.rb.capacity by omega)]

theorem call_peekAt (idx : Nat) : c.call (.PeekAt idx) = ((fifo capacity queue (.PeekAt idx)).1, c) := by
  have hs := h.holds.count_le
  by_cases hi : idx < c.rb.size
  · have hw : (if c.rb.head + idx < c.rb.capacity then c.rb.head + idx
        else c.rb.head + idx - c.rb.capacity) = (c.rb.head + idx) % capacity := by
      rw [h.capacity_eq]
      exact wrap_index h.holds.start_lt (by omega)
    simp [Client.call, RingBuf.peekAt, if_neg (not_le.mpr hi), hw, fifo, h.holds.getElem?_eq hi]
  · have hg : queue[idx]? = none :=
      List.getElem?_eq_none_iff.mpr (by rw [h.holds.length_eq]; exact not_lt.mp hi)
    simp [Client.call, RingBuf.peekAt, if_pos (not_lt.mp hi), fifo, hg]

theorem put (byte : α) : (c.call (.Put byte)).1 = (fifo capacity queue (.Put byte)).1 ∧
      Represents capacity (c.call (.Put byte)).2 (fifo capacity queue (.Put byte)).2 := by
  rw [h.call_put, fifo, h.holds.length_eq]
  split
  · next hr => exact ⟨rfl, h.capacity_eq, h.holds.push_back byte hr⟩
  · exact ⟨rfl, h⟩

theorem get : (c.call .Get).1 = (fifo capacity queue .Get).1 ∧
      Represents capacity (c.call .Get).2 (fifo capacity queue .Get).2 := by
  have hs := h.holds.length_eq
  rw [h.call_get]
  cases queue with
  | nil =>
    have he : c.rb.size = 0 := hs.symm
    rw [if_pos he]
    exact ⟨rfl, h⟩
  | cons byte rest =>
    obtain ⟨hb, hr⟩ := h.holds.pop_front
    rw [hb, if_neg (by rw [← hs]; exact Nat.succ_ne_zero _)]
    exact ⟨rfl, h.capacity_eq, hr⟩

theorem call_putN_cons (byte : α) (rest : List α) (hr : c.rb.size < capacity) :
    (c.call (.PutN (byte :: rest))).2 = ((c.call (.Put byte)).2.call (.PutN rest)).2 := by
  have hm : min (rest.length + 1) (capacity - c.rb.size) = min rest.length (capacity - (c.rb.size + 1)) + 1 := by
    omega
  have ht : (byte :: rest).take (capacity - c.rb.size) = byte :: rest.take (capacity - (c.rb.size + 1)) := by
    rw [show capacity - c.rb.size = capacity - (c.rb.size + 1) + 1 by omega, List.take_succ_cons]
  rw [h.call_putN, (h.put byte).2.call_putN, h.call_put, if_pos hr, List.length_cons, hm,
    ht, storeAll, Nat.mod_eq_of_lt h.holds.stop_lt]
  simp only [storeAll_mod, Nat.mod_add_mod, Nat.add_assoc, Nat.add_comm 1]

theorem puts (bs : List α) : (replies Client.call c (bs.map .Put)).2 = (c.call (.PutN bs)).2 ∧
      (replies Client.call c (bs.map .Put)).1 = List.replicate (min bs.length (capacity - c.rb.size)) (.Accepted 1) ++
          List.replicate (bs.length - (capacity - c.rb.size)) (.Error EAGAIN) := by
  induction bs generalizing c queue with
  | nil =>
    have ht := Nat.mod_eq_of_lt h.holds.stop_lt
    rw [h.call_putN]
    simp [storeAll, ht]
  | cons byte rest ih =>
    rw [List.map_cons, replies_cons]
    by_cases hrm : c.rb.size < capacity
    · obtain ⟨hs, hr⟩ := ih (h.put byte).2
      rw [h.call_putN_cons byte rest hrm, hs, hr, h.call_put, if_pos hrm]
      refine ⟨rfl, ?_⟩
      rw [List.length_cons, show min (rest.length + 1) (capacity - c.rb.size) =
        min rest.length (capacity - (c.rb.size + 1)) + 1 by omega,
        show rest.length + 1 - (capacity - c.rb.size) =
        rest.length - (capacity - (c.rb.size + 1)) by omega]
      rfl
    · have hf : capacity - c.rb.size = 0 := by omega
      obtain ⟨hs, hr⟩ := ih h
      rw [h.call_put, if_neg hrm, hs, hr, h.call_putN, h.call_putN, hf]
      simp [List.replicate_succ]

theorem gets (count : Nat) : (replies Client.call c (List.replicate count .Get)).2 = (c.call (.GetN count)).2 ∧
      (replies Client.call c (List.replicate count .Get)).1 = (queue.take count).map (fun byte => .Bytes [byte]) ++
          List.replicate (count - queue.length) (.Error EAGAIN) := by
  induction count generalizing c queue with
  | zero =>
    have hh := Nat.mod_eq_of_lt h.holds.start_lt
    rw [h.call_getN]
    simp [hh]
  | succ count ih =>
    have hsz := h.holds.length_eq
    have hg := h.get
    rw [List.replicate_succ, replies_cons]
    cases queue with
    | nil =>
      have he : c.rb.size = 0 := hsz.symm
      obtain ⟨hs, hr⟩ := ih h
      rw [h.call_get, if_pos he, hs, hr, h.call_getN, h.call_getN, he]
      simp [List.replicate_succ]
    | cons byte rest =>
      obtain ⟨hs, hr⟩ := ih hg.2
      rw [List.length_cons] at hsz
      have hm : 1 + min count (c.rb.size - 1) = min (count + 1) c.rb.size := by
        omega
      have hl : c.rb.size - 1 - min count (c.rb.size - 1) = c.rb.size - min (count + 1) c.rb.size := by
        omega
      rw [hg.1, hs, hr, hg.2.call_getN, h.call_getN, h.call_get, if_neg (by omega)]
      rw [Nat.mod_add_mod, Nat.add_assoc, hm, hl]
      simp [fifo]

theorem putN (bs : List α) : (c.call (.PutN bs)).1 = (fifo capacity queue (.PutN bs)).1 ∧
      Represents capacity (c.call (.PutN bs)).2 (fifo capacity queue (.PutN bs)).2 := by
  have hp : ∀ (c : Client α) queue, ∀ call ∈ bs.map Call.Put, Represents capacity c queue →
      (c.call call).1 = (fifo capacity queue call).1 ∧
        Represents capacity (c.call call).2 (fifo capacity queue call).2 := by
    intro c queue call hc h
    obtain ⟨byte, -, rfl⟩ := List.mem_map.mp hc
    exact h.put byte
  have hf := (replies_refine hp h).2
  rw [(h.puts bs).1, fifo_puts] at hf
  refine ⟨?_, hf⟩
  rw [h.call_putN, fifo, h.holds.length_eq, List.length_take, min_comm]

theorem getN (count : Nat) : (c.call (.GetN count)).1 = (fifo capacity queue (.GetN count)).1 ∧
      Represents capacity (c.call (.GetN count)).2 (fifo capacity queue (.GetN count)).2 := by
  have hg : ∀ (c : Client α) queue, ∀ call ∈ List.replicate count Call.Get,
      Represents capacity c queue → (c.call call).1 = (fifo capacity queue call).1 ∧
        Represents capacity (c.call call).2 (fifo capacity queue call).2 := by
    intro c queue call hc h
    rw [List.eq_of_mem_replicate hc]
    exact h.get
  have hf := (replies_refine hg h).2
  rw [(h.gets count).1, fifo_gets] at hf
  exact ⟨by rw [h.call_getN]; rfl, hf⟩

theorem call (op : Call α) : (c.call op).1 = (fifo capacity queue op).1 ∧
      Represents capacity (c.call op).2 (fifo capacity queue op).2 := by
  cases op with
  | Put byte => exact h.put byte
  | Get => exact h.get
  | PutN bs => exact h.putN bs
  | GetN count => exact h.getN count
  | PeekAt idx =>
    rw [h.call_peekAt idx, fifo]
    refine ⟨rfl, ?_⟩
    cases queue[idx]? <;> exact h
  | Reset =>
    exact ⟨rfl, h.capacity_eq, Holds.empty c.slots (Nat.zero_lt_of_lt h.holds.start_lt)⟩

theorem keeps_unread (op : Call α) {slot : Nat} (hs : slot ∈ c.rb.unread) :
    (c.call op).2.slots slot = c.slots slot := by
  simp only [unread, contents, List.mem_map, List.mem_range, id_eq, h.capacity_eq] at hs
  obtain ⟨i, hi, rfl⟩ := hs
  cases op with
  | Put byte =>
    rw [h.call_put]
    split
    · next hr => exact h.holds.slots_eq (h.holds.push_back byte hr) hi
    · rfl
  | Get =>
    rw [h.call_get]
    split <;> rfl
  | PutN bs =>
    have hp := (h.putN bs).2.holds
    exact h.holds.slots_eq hp hi
  | GetN count => rw [h.call_getN]
  | PeekAt idx => rw [h.call_peekAt idx]
  | Reset => rfl

end Represents

theorem byte_fifo (hcapacity : 0 < capacity) (slots : Nat → α) (calls : List (Call α)) :
    ∃ rb, init capacity = .ok rb ∧
      (replies Client.call ⟨rb, slots⟩ calls).1 = (replies (fifo capacity) [] calls).1 ∧
      let c := (replies Client.call ⟨rb, slots⟩ calls).2
      (∀ bytes : List α, ∃ n, (c.call (.PutN bytes)).1 = .Accepted n ∧
        (replies Client.call c (bytes.map .Put)).1 =
          List.replicate n (.Accepted 1) ++ List.replicate (bytes.length - n) (.Error EAGAIN) ∧
        (replies Client.call c (bytes.map .Put)).2 = (c.call (.PutN bytes)).2) ∧
      (∀ count, ∃ bytes, (c.call (.GetN count)).1 = .Bytes bytes ∧
        (replies Client.call c (List.replicate count .Get)).1 = bytes.map (fun byte => .Bytes [byte]) ++
            List.replicate (count - bytes.length) (.Error EAGAIN) ∧
        (replies Client.call c (List.replicate count .Get)).2 = (c.call (.GetN count)).2) ∧
      ∀ op, ∀ slot ∈ c.rb.unread, (c.call op).2.slots slot = c.slots slot := by
  have hi : Represents capacity ⟨⟨capacity, 0, 0, 0⟩, slots⟩ [] :=
    ⟨rfl, Holds.empty slots hcapacity⟩
  have hc : ∀ (c : Client α) queue, ∀ op ∈ calls, Represents capacity c queue →
      (c.call op).1 = (fifo capacity queue op).1 ∧
        Represents capacity (c.call op).2 (fifo capacity queue op).2 :=
    fun _ _ op _ h => h.call op
  obtain ⟨hr, hf⟩ := replies_refine hc hi
  refine ⟨_, if_neg (Nat.ne_of_gt hcapacity), hr, ?_, ?_, ?_⟩
  · intro bytes
    obtain ⟨hs, hp⟩ := hf.puts bytes
    refine ⟨_, by rw [hf.call_putN], ?_, hs⟩
    rw [hp]
    congr 2
    omega
  · intro count
    obtain ⟨hs, hg⟩ := hf.gets count
    refine ⟨_, by rw [hf.call_getN], ?_, hs⟩
    rw [hg, List.length_take]
    congr 2
    omega
  · exact fun op slot hsl => hf.keeps_unread op hsl

theorem byte_fifo_around_the_end : 0 < 2 ∧ ∃ rb, init 2 = .ok rb ∧
      (replies Client.call ⟨rb, fun _ => 0⟩ [.PutN [1, 2, 3], .Get, .Put 4, .GetN 3]).1 =
        [.Accepted 2, .Bytes [1], .Accepted 1, .Bytes [2, 4]] := by
  have ht : 0 < 2 := by decide
  obtain ⟨rb, hi, hr, -⟩ :=
    byte_fifo ht (fun _ => 0) [.PutN [1, 2, 3], .Get, .Put 4, .GetN 3]
  exact ⟨ht, rb, hi, hr⟩

end

end RingBuf

end Gale
