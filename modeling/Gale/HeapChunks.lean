import Gale.Kernel
import Gale.Lib.Checked
import Gale.Lib.Run

namespace Gale.HeapChunks

open Lib

-- From src/heap.rs. The values are u32; while the accounts are exact no sum leaves that range.
def MAX_CHUNKS : Nat := 65535

structure Heap where
  capacity : Nat
  allocatedBytes : Nat
  totalChunks : Nat
  freeChunks : Nat
  nextSlotId : Nat
  deriving DecidableEq, Repr

namespace Heap

def init (capacity overhead : Nat) : Except Int Heap :=
  if capacity = 0 ∨ overhead = 0 ∨ capacity ≤ overhead then .error EINVAL
  else .ok ⟨capacity, overhead, 2, 1, 1⟩

def alloc (h : Heap) (bytes : Nat) : Except Int Nat × Heap :=
  if h.freeChunks = 0 then (.error ENOMEM, h)
  else if h.capacity - h.allocatedBytes < bytes then (.error ENOMEM, h)
  else if MAX_CHUNKS ≤ h.nextSlotId then (.error ENOMEM, h)
  else (.ok h.nextSlotId, { h with
      allocatedBytes := h.allocatedBytes + bytes
      freeChunks := h.freeChunks - 1
      nextSlotId := h.nextSlotId + 1 })

def free (h : Heap) (bytes : Nat) : Int × Heap :=
  if h.totalChunks ≤ h.freeChunks then (EINVAL, h)
  else if h.allocatedBytes < bytes then (EINVAL, h)
  else (OK, { h with
    allocatedBytes := h.allocatedBytes - bytes
    freeChunks := h.freeChunks + 1 })

def split (h : Heap) : Int × Heap :=
  if MAX_CHUNKS ≤ h.totalChunks then (EINVAL, h)
  else (OK, { h with totalChunks := h.totalChunks + 1, freeChunks := h.freeChunks + 1 })

def merge (h : Heap) : Int × Heap :=
  if h.totalChunks ≤ 1 ∨ h.freeChunks ≤ 1 then (EINVAL, h)
  else (OK, { h with totalChunks := h.totalChunks - 1, freeChunks := h.freeChunks - 1 })

-- The two parts of coalesce_free for a neighbour; an underflow panics.
def mergeNeighbour (h : Heap) (merges : Bool) : Option Heap := do
  if merges then
    let totalChunks ← checkedSub h.totalChunks 1
    let freeChunks ← checkedSub h.freeChunks 1
    return { h with totalChunks, freeChunks }
  else return h

def coalesceFree (h : Heap) (bytes : Nat) (mergeLeft mergeRight : Bool) : Option (Int × Heap) := do
  let allocatedBytes ← checkedSub h.allocatedBytes bytes
  let h := { h with allocatedBytes, freeChunks := h.freeChunks + 1 }
  let h ← h.mergeNeighbour mergeRight
  let h ← h.mergeNeighbour mergeLeft
  return (OK, h)

theorem mergeNeighbour_some {h next : Heap} {merges : Bool}
    (hs : h.mergeNeighbour merges = some next) : next.allocatedBytes = h.allocatedBytes ∧
      next.nextSlotId = h.nextSlotId ∧
      next.totalChunks + h.freeChunks = h.totalChunks + next.freeChunks := by
  cases merges with
  | false =>
    cases hs
    exact ⟨rfl, rfl, rfl⟩
  | true =>
    simp only [mergeNeighbour, checkedSub, if_true, Option.bind_eq_bind, Option.bind_eq_some_iff,
      Option.ite_none_right_eq_some, Option.some.injEq, Option.pure_def] at hs
    obtain ⟨_, ⟨ht, rfl⟩, _, ⟨hf, rfl⟩, rfl⟩ := hs
    exact ⟨rfl, rfl, by simp only; omega⟩

theorem coalesceFree_some {h : Heap} {bytes : Nat} {mergeLeft mergeRight : Bool}
    {result : Int × Heap} (hs : h.coalesceFree bytes mergeLeft mergeRight = some result) :
    result.1 = OK ∧ result.2.nextSlotId = h.nextSlotId ∧ result.2.allocatedBytes + bytes = h.allocatedBytes ∧
      result.2.totalChunks + h.freeChunks + 1 = h.totalChunks + result.2.freeChunks := by
  simp only [coalesceFree, checkedSub, Option.bind_eq_bind, Option.bind_eq_some_iff,
    Option.ite_none_right_eq_some, Option.some.injEq, Option.pure_def] at hs
  obtain ⟨_, ⟨hle, rfl⟩, right, hright, left, hleft, rfl⟩ := hs
  obtain ⟨hby, hst, hch⟩ := mergeNeighbour_some hright
  obtain ⟨hb, hsl, hc⟩ := mergeNeighbour_some hleft
  refine ⟨rfl, hsl.trans hst, ?_, ?_⟩ <;> simp only at * <;> omega

theorem alloc_ok_iff {h : Heap} {bytes : Nat} : (∃ slot, (h.alloc bytes).1 = .ok slot) ↔
    (0 < h.freeChunks ∧ bytes ≤ h.capacity - h.allocatedBytes) ∧ h.nextSlotId < MAX_CHUNKS := by
  unfold alloc
  split_ifs <;> simp <;> omega

end Heap

structure Block where
  slot : Nat
  bytes : Nat
  deriving DecidableEq, Repr

structure Session where
  heap : Heap
  given : List Block
  live : List Block
  deriving DecidableEq, Repr

inductive Op where
  | Alloc (bytes : Nat)
  | Free (block : Block)
  | Split
  | Merge
  | CoalesceFree (block : Block) (mergeLeft mergeRight : Bool)

namespace Session

def start (heap : Heap) : Session := ⟨heap, [], []⟩

def alloc (s : Session) (bytes : Nat) : Session :=
  match s.heap.alloc bytes with
  | (.ok slot, heap) => ⟨heap, ⟨slot, bytes⟩ :: s.given, ⟨slot, bytes⟩ :: s.live⟩
  | (.error _, heap) => { s with heap }

def freed (s : Session) (block : Block) : Int × Heap → Session
  | (rc, heap) => { s with heap, live := if rc = OK then s.live.erase block else s.live }

-- A block that is freed is one that alloc gave at some time.
def step (s : Session) : Op → Option Session
  | .Alloc bytes => some (s.alloc bytes)
  | .Free block => if block ∈ s.given then some (s.freed block (s.heap.free block.bytes)) else none
  | .Split => some { s with heap := s.heap.split.2 }
  | .Merge => some { s with heap := s.heap.merge.2 }
  | .CoalesceFree block mergeLeft mergeRight =>
    if block ∈ s.given then
      (s.heap.coalesceFree block.bytes mergeLeft mergeRight).map (s.freed block)
    else none

structure Exact (overhead : Nat) (s : Session) : Prop where
  bytes : s.heap.allocatedBytes = overhead + (s.live.map Block.bytes).sum
  chunks : s.heap.totalChunks = s.heap.freeChunks + (1 + s.live.length)

-- A free of a block that is not live is refused.
def Refuses (s : Session) : Op → Prop
  | .Free block => block ∉ s.live → s.heap.free block.bytes = (EINVAL, s.heap)
  | _ => True

-- What is freed is live, or larger than all that is allocated.
def Careful (s : Session) : Op → Prop
  | .Free block => block ∈ s.live ∨ s.heap.allocatedBytes < block.bytes
  | .CoalesceFree block _ _ => block ∈ s.live
  | _ => True

variable {overhead bytes : Nat} {s next : Session} {block : Block} {op : Op} {heap : Heap}

theorem sum_erase (h : block ∈ s.live) :
    block.bytes + ((s.live.erase block).map Block.bytes).sum = (s.live.map Block.bytes).sum :=
  List.sum_map_erase Block.bytes h

namespace Exact

variable (h : Exact overhead s)
include h

theorem alloc (bytes : Nat) : Exact overhead (s.alloc bytes) := by
  have hb := h.bytes
  have hc := h.chunks
  unfold Session.alloc Heap.alloc
  split_ifs
  · exact ⟨hb, hc⟩
  · exact ⟨hb, hc⟩
  · exact ⟨hb, hc⟩
  · constructor <;> simp only [List.map_cons, List.sum_cons, List.length_cons] <;> omega

theorem free_eq : s.heap.free bytes =
    if s.heap.allocatedBytes < bytes then (EINVAL, s.heap)
    else (OK, { s.heap with
      allocatedBytes := s.heap.allocatedBytes - bytes
      freeChunks := s.heap.freeChunks + 1 }) := by
  rw [Heap.free, if_neg]
  rw [h.chunks]
  omega

theorem freed_iff (hb : heap.allocatedBytes + block.bytes = s.heap.allocatedBytes)
    (hc : heap.totalChunks + s.heap.freeChunks + 1 = s.heap.totalChunks + heap.freeChunks) :
    Exact overhead (s.freed block (OK, heap)) ↔ block ∈ s.live := by
  have ho := h.bytes
  have hu := h.chunks
  simp only [freed, if_true]
  constructor
  · rintro ⟨-, ha⟩
    by_contra hdead
    simp only [List.erase_of_not_mem hdead] at ha
    omega
  · intro hl
    have hs := sum_erase hl
    have hln := List.length_erase_of_mem hl
    have hp := List.length_pos_of_mem hl
    constructor <;> simp only [] <;> omega

theorem step_iff (hs : s.step op = some next) : Exact overhead next ∧ s.Refuses op ↔ s.Careful op := by
  have hb := h.bytes
  have hc := h.chunks
  cases op with
  | Alloc bytes =>
    cases hs
    simp [Refuses, Careful, h.alloc bytes]
  | Free block =>
    obtain ⟨-, hs⟩ := Option.ite_none_right_eq_some.mp hs
    cases hs
    rw [Refuses, Careful, h.free_eq]
    split
    · next hl => simp [freed, hl, EINVAL, OK, show Exact overhead s from h]
    · next hf =>
      rw [h.freed_iff (by simp only; omega) (by simp only; omega)]
      simp [hf, EINVAL, OK]
  | Split =>
    cases hs
    simp only [Refuses, Careful, and_true, iff_true]
    unfold Heap.split
    split_ifs <;> constructor <;> simp only <;> omega
  | Merge =>
    cases hs
    simp only [Refuses, Careful, and_true, iff_true]
    unfold Heap.merge
    split_ifs <;> constructor <;> simp only <;> omega
  | CoalesceFree block mergeLeft mergeRight =>
    obtain ⟨-, hs⟩ := Option.ite_none_right_eq_some.mp hs
    obtain ⟨⟨rc, heap⟩, hresult, rfl⟩ := Option.map_eq_some_iff.mp hs
    obtain ⟨rfl, -, hls, hu⟩ := Heap.coalesceFree_some hresult
    simp only [Refuses, Careful, and_true]
    exact h.freed_iff hls hu

end Exact

theorem start_exact {cap : Nat} (hi : Heap.init cap overhead = .ok heap) :
    Exact overhead (start heap) ∧ (start heap).heap.nextSlotId = (start heap).given.length + 1 := by
  unfold Heap.init at hi
  split_ifs at hi
  cases hi
  exact ⟨⟨rfl, rfl⟩, rfl⟩

-- No free consults the slot: a block that is not live is refused only if it is larger than
-- all that is allocated.
theorem double_free_refused_iff {capacity : Nat} (hinit : Heap.init capacity overhead = .ok heap)
    (ops : List Op) :
    Throughout step (Exact overhead) (start heap) ops ∧ Along step Refuses (start heap) ops ↔
      Along step Careful (start heap) ops :=
  throughout_and_along_iff (Exact overhead) (fun _ h => h)
    (fun _ _ _ h hc hs => ((h.step_iff hs).mpr hc).2)
    (fun _ _ _ h hc hs => ((h.step_iff hs).mpr hc).1)
    (fun _ _ _ h hn hs he hex => hn ((h.step_iff hs).mp ⟨hex, he⟩))
    (start_exact hinit).1 ops

theorem alloc_then_free_exact : Heap.init 1000 100 = .ok ⟨1000, 100, 2, 1, 1⟩ ∧
    Throughout step (Exact 100) (start ⟨1000, 100, 2, 1, 1⟩) [.Alloc 50, .Free ⟨1, 50⟩] := by
  have hi : Heap.init 1000 100 = .ok ⟨1000, 100, 2, 1, 1⟩ := rfl
  have hc : Along step Careful (start ⟨1000, 100, 2, 1, 1⟩) [.Alloc 50, .Free ⟨1, 50⟩] := by
    rintro _ ⟨⟩
    refine ⟨trivial, ?_⟩
    rintro _ ⟨⟩
    exact ⟨.inl (by decide), trivial⟩
  exact ⟨hi, ((double_free_refused_iff hi _).mpr hc).1⟩

-- The second free of the block gives back half of the 100 bytes of the heap itself.
theorem freed_twice : Heap.init 1000 100 = .ok ⟨1000, 100, 2, 1, 1⟩ ∧
    run step (start ⟨1000, 100, 2, 1, 1⟩) [.Alloc 50, .Free ⟨1, 50⟩] =
      some ⟨⟨1000, 100, 2, 1, 2⟩, [⟨1, 50⟩], []⟩ ∧
    (⟨1000, 100, 2, 1, 2⟩ : Heap).free 50 = (OK, ⟨1000, 50, 2, 2, 2⟩) :=
  ⟨rfl, by decide, rfl⟩

-- Slots are numbered as they are given, and never used again.
theorem step_slot (h : s.heap.nextSlotId = s.given.length + 1) (hs : s.step op = some next) :
    next.heap.nextSlotId = next.given.length + 1 := by
  cases op with
  | Alloc bytes =>
    cases hs
    unfold Session.alloc Heap.alloc
    split_ifs <;> simp [h]
  | Free block =>
    obtain ⟨-, hs⟩ := Option.ite_none_right_eq_some.mp hs
    cases hs
    unfold Heap.free
    split_ifs <;> exact h
  | Split =>
    cases hs
    unfold Heap.split
    split_ifs <;> exact h
  | Merge =>
    cases hs
    unfold Heap.merge
    split_ifs <;> exact h
  | CoalesceFree block mergeLeft mergeRight =>
    obtain ⟨-, hs⟩ := Option.ite_none_right_eq_some.mp hs
    obtain ⟨⟨rc, heap⟩, hresult, rfl⟩ := Option.map_eq_some_iff.mp hs
    exact (Heap.coalesceFree_some hresult).2.1.trans h

-- A request that there is room for is served exactly if fewer than 65534 were served before.
theorem alloc_serves_iff {capacity : Nat} (hinit : Heap.init capacity overhead = .ok heap)
    {ops : List Op} (hrun : run step (start heap) ops = some s) (bytes : Nat) :
    ((∃ slot, (s.heap.alloc bytes).1 = .ok slot) ↔
        0 < s.heap.freeChunks ∧ bytes ≤ s.heap.capacity - s.heap.allocatedBytes) ↔
      (0 < s.heap.freeChunks ∧ bytes ≤ s.heap.capacity - s.heap.allocatedBytes →
        s.given.length < 65534) := by
  have hs := (throughout_of_step (fun _ _ _ => step_slot) (start_exact hinit).2 ops).last hrun
  have hm : s.heap.nextSlotId < MAX_CHUNKS ↔ s.given.length < 65534 := by
    rw [hs, MAX_CHUNKS]
    omega
  rw [Heap.alloc_ok_iff, hm, and_iff_left_iff_imp]

theorem first_alloc_serves : run step (start ⟨1000, 100, 2, 1, 1⟩) [] =
      some (start ⟨1000, 100, 2, 1, 1⟩) ∧
    ((∃ slot, ((⟨1000, 100, 2, 1, 1⟩ : Heap).alloc 8).1 = .ok slot) ↔ 0 < 1 ∧ 8 ≤ 1000 - 100) := by
  have hi : Heap.init 1000 100 = .ok ⟨1000, 100, 2, 1, 1⟩ := rfl
  have hr : run step (start ⟨1000, 100, 2, 1, 1⟩) [] = some (start ⟨1000, 100, 2, 1, 1⟩) := rfl
  exact ⟨hr, (alloc_serves_iff hi hr 8).mpr fun _ => by decide⟩

def FreesLive (s : Session) : Op → Prop
  | .Free block => block ∈ s.live
  | _ => True

def turns (slot : Nat) : Nat → List Op
  | 0 => []
  | n + 1 => .Alloc 8 :: .Free ⟨slot, 8⟩ :: turns (slot + 1) n

theorem run_turns (n slot : Nat) (given : List Block) (hs : slot + n ≤ MAX_CHUNKS) :
    (∃ g', run step ⟨⟨1000, 100, 2, 1, slot⟩, given, []⟩ (turns slot n) = some ⟨⟨1000, 100, 2, 1, slot + n⟩, g', []⟩) ∧
    Along step FreesLive ⟨⟨1000, 100, 2, 1, slot⟩, given, []⟩ (turns slot n) := by
  induction n generalizing slot given with
  | zero => exact ⟨⟨given, rfl⟩, trivial⟩
  | succ n ih =>
    obtain ⟨⟨g', hr⟩, halong⟩ := ih (slot + 1) (⟨slot, 8⟩ :: given) (by omega)
    have ha : (⟨⟨1000, 100, 2, 1, slot⟩, given, []⟩ : Session).step (.Alloc 8) =
        some ⟨⟨1000, 108, 2, 0, slot + 1⟩, ⟨slot, 8⟩ :: given, [⟨slot, 8⟩]⟩ := by
      have hm : ¬ MAX_CHUNKS ≤ slot := by omega
      simp [step, Session.alloc, Heap.alloc, hm]
    have hf : (⟨⟨1000, 108, 2, 0, slot + 1⟩, ⟨slot, 8⟩ :: given, [⟨slot, 8⟩]⟩ : Session).step
        (.Free ⟨slot, 8⟩) = some ⟨⟨1000, 100, 2, 1, slot + 1⟩, ⟨slot, 8⟩ :: given, []⟩ := by
      simp [step, Heap.free, freed]
    refine ⟨⟨g', run_cons_eq_some.mpr ⟨_, ha, run_cons_eq_some.mpr ⟨_, hf, ?_⟩⟩⟩,
      along_cons ha trivial (along_cons hf List.mem_cons_self halong)⟩
    rw [hr, Nat.add_right_comm, Nat.add_assoc]

theorem worn_out : ∃ s, run step (start ⟨1000, 100, 2, 1, 1⟩) (turns 1 65534) = some s ∧
    Along step FreesLive (start ⟨1000, 100, 2, 1, 1⟩) (turns 1 65534) ∧
    0 < s.heap.freeChunks ∧ 8 ≤ s.heap.capacity - s.heap.allocatedBytes ∧
    (s.heap.alloc 8).1 = .error ENOMEM := by
  obtain ⟨⟨given, hr⟩, halong⟩ := run_turns 65534 1 [] (by decide)
  exact ⟨_, hr, halong, Nat.one_pos, by simp, rfl⟩

end Session

end Gale.HeapChunks
