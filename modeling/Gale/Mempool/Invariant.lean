import Gale.Mempool
import Gale.Heap.Rewind

namespace Gale.Mempool

open Lib Heap

variable {H : Type*} {m : Machine H}

structure Site (m : Machine H) where
  layouts : H → Layout
  cfg : ∀ heap, (layouts heap).cfg = m.heap
  apart : ∀ heap other, heap ≠ other → ∀ a, (layouts heap).Outside a ∨ (layouts other).Outside a

def Block.extent (m : Machine H) (block : Block H) : Nat := block.bytes + m.sizeofRef

structure Block.Valid (m : Machine H) (layout : Layout) (held : Nat → Option Nat)
    (memory : Nat → UInt8) (block : Block H) : Prop where
  holds : layout.Holds held block.mem (block.extent m) (layout.memToChunkid block.mem)
  aligned : block.align ∣ block.mem + m.sizeofRef
  returned : (∀ zeroed, block.stage ≠ .Taken zeroed) → block.ptr = block.mem + m.sizeofRef ∧
    load memory block.mem m.sizeofRef = m.encode block.heap ∧
    ∀ i < block.bytes, memory (block.ptr + i) = block.data i
  freeing : ∀ owner ref, block.stage = .Freeing owner ref → owner = block.heap ∧ ref = block.mem
  reallocating : ∀ owner ref size total, block.stage = .Reallocating owner ref size total →
    owner = block.heap ∧ ref = block.mem ∧ total = size + m.sizeofRef

structure Inv (site : Site m) (held : H → Nat → Option Nat) (s : State H) : Prop where
  heaps : ∀ heap, Represents (site.layouts heap) (s.heaps heap) (held heap)
  blocks : ∀ id block, s.blocks id = some block →
    block.Valid m (site.layouts block.heap) (held block.heap) s.memory
  distinct : ∀ id other block block', id ≠ other → s.blocks id = some block →
    s.blocks other = some block' → block.heap = block'.heap →
    (site.layouts block.heap).memToChunkid block.mem ≠
      (site.layouts block'.heap).memToChunkid block'.mem

theorem Machine.sizeofRef_dvd_header (m : Machine H) {layout : Layout} (hc : layout.cfg = m.heap) :
    2 ^ m.wordLog ∣ layout.header := by
  have hh := layout.cfg.chunkHeaderBytes_cases layout.endChunk
  unfold Layout.header
  rcases m.width with hw | ⟨hw, hb⟩
  · rw [hw]
    rcases hh with heq | heq <;> rw [heq] <;> decide
  · have heq : layout.cfg.chunkHeaderBytes layout.endChunk = 8 := by
      unfold Config.chunkHeaderBytes Config.bigHeapChunks
      rw [hc, hb]
      rfl
    rw [hw, heq]
    decide

namespace Block.Valid

variable {lo : Layout} {held h' : Nat → Option Nat} {memory memory' : Nat → UInt8}
  {block : Block H}

theorem frame (h : block.Valid m lo held memory)
    (hh : lo.Holds h' block.mem (block.extent m) (lo.memToChunkid block.mem))
    (hm : ∀ a, block.mem ≤ a → a < block.mem + block.extent m → memory' a = memory a) :
    block.Valid m lo h' memory' := by
  refine ⟨hh, h.aligned, fun hs => ?_, h.freeing, h.reallocating⟩
  obtain ⟨hp, hw, hd⟩ := h.returned hs
  unfold Block.extent at hm
  refine ⟨hp, ?_, fun i hi => ?_⟩
  · rw [load_congr fun a hlo hhi => hm a hlo (by omega)]
    exact hw
  · rw [hm _ (by omega) (by omega)]
    exact hd i hi

theorem ptr_ne_zero (h : block.Valid m lo held memory)
    (hs : ∀ zeroed, block.stage ≠ .Taken zeroed) : block.ptr ≠ 0 := by
  have hne := h.holds.ptr_ne_zero
  have hp := (h.returned hs).1
  omega

theorem ref_eq (h : block.Valid m lo held memory)
    (hs : ∀ zeroed, block.stage ≠ .Taken zeroed) : block.ptr - m.sizeofRef = block.mem := by
  rw [(h.returned hs).1, Nat.add_sub_cancel]

end Block.Valid

namespace Inv

variable {site : Site m} {held h' : H → Nat → Option Nat} {s next : State H} {id : Nat}
  {block : Block H}

section

variable (h : Inv site held s)
include h

theorem owner_eq (hid : s.blocks id = some block) (hs : ∀ zeroed, block.stage ≠ .Taken zeroed) :
    s.owner m (block.ptr - m.sizeofRef) = block.heap := by
  have hv := h.blocks id block hid
  unfold State.owner
  rw [hv.ref_eq hs, (hv.returned hs).2.1, m.decode_encode]

theorem update {new : Option (Block H)} (hh : ∀ heap, Represents (site.layouts heap) (next.heaps heap) (h' heap))
    (hb : next.blocks = Function.update s.blocks id new)
    (hot : ∀ o block, o ≠ id → s.blocks o = some block →
      block.Valid m (site.layouts block.heap) (h' block.heap) next.memory)
    (hn : ∀ block, new = some block → block.Valid m (site.layouts block.heap) (h' block.heap) next.memory ∧
      ∀ o b', o ≠ id → s.blocks o = some b' → b'.heap = block.heap → (site.layouts b'.heap).memToChunkid b'.mem ≠
          (site.layouts block.heap).memToChunkid block.mem) : Inv site h' next := by
  refine ⟨hh, ?_, ?_⟩
  · intro o block ho
    rw [hb] at ho
    rcases update_cases ho with ⟨-, hl⟩ | ⟨hne, hol⟩
    · exact (hn block hl).1
    · exact hot o block hne hol
  · intro first b block b' hne hf hs hheap
    rw [hb] at hf hs
    rcases update_cases hf with ⟨heq, hf⟩ | ⟨hfirst_ne, hf⟩
    · rcases update_cases hs with ⟨he, -⟩ | ⟨hsecond_ne, hs⟩
      · exact absurd (heq.trans he.symm) hne
      · exact Ne.symm ((hn block hf).2 b b' hsecond_ne hs hheap.symm)
    · rcases update_cases hs with ⟨-, hs⟩ | ⟨-, hs⟩
      · exact (hn b' hs).2 first block hfirst_ne hf hheap
      · exact h.distinct first b block b' hne hf hs hheap

variable {heap : H} {heldNext : Nat → Option Nat} {memory : Nat → UInt8} {b' : Block H}

theorem valid_of_spares [DecidableEq H] (hid : s.blocks id = some block) {c : Nat}
    (hs : Spares (site.layouts heap) (held heap) heldNext s.memory memory c)
    (hne : block.heap = heap → (site.layouts heap).memToChunkid block.mem ≠ c) :
    block.Valid m (site.layouts block.heap) (Function.update held heap heldNext block.heap)
      memory := by
  have hv := h.blocks id block hid
  by_cases heq : block.heap = heap
  · subst heq
    rw [Function.update_self]
    exact hv.frame (hs.holds _ _ _ (hne rfl) hv.holds) fun a hlo hhi =>
      hs.bytes _ _ _ a (hne rfl) hv.holds hlo hhi
  · rw [Function.update_of_ne heq]
    refine hv.frame hv.holds fun a hlo hhi => hs.outside a ?_
    have hb := hv.holds.bounds
    refine (site.apart block.heap heap heq a).resolve_left fun ho => ?_
    unfold Layout.Outside at ho
    omega

theorem represents_called [DecidableEq H] {z : ZHeap} (hz : Represents (site.layouts heap) z heldNext) (o : H) :
    Represents (site.layouts o) (Function.update s.heaps heap z o)
      (Function.update held heap heldNext o) := by
  by_cases heq : o = heap
  · subst heq
    rw [Function.update_self, Function.update_self]
    exact hz
  · rw [Function.update_of_ne heq, Function.update_of_ne heq]
    exact h.heaps o

theorem extents_disjoint {o : Nat} (hne : o ≠ id) (hid : s.blocks id = some block) (ho : s.blocks o = some b') :
    b'.mem + b'.extent m ≤ block.mem ∨ block.mem + block.extent m ≤ b'.mem := by
  have hvl := h.blocks id block hid
  have hv := h.blocks o b' ho
  by_cases heq : b'.heap = block.heap
  · have hc := h.distinct o id b' block hne ho hid heq
    have hh := hv.holds
    rw [heq] at hh hc
    exact (h.heaps block.heap).holds_disjoint hh hvl.holds hc
  · -- the first byte of the later block would be in both heaps
    have hbn := hvl.holds.bounds
    have hb := hv.holds.bounds
    have hlo := site.apart b'.heap block.heap heq block.mem
    have hl := site.apart b'.heap block.heap heq b'.mem
    have hp : 0 < m.sizeofRef := Nat.two_pow_pos _
    unfold Layout.Outside at hlo hl
    unfold Block.extent at *
    omega

theorem write (hid : s.blocks id = some block) (hhp : next.heaps = s.heaps) (hmm : next.memory = memory)
    (hb : next.blocks = Function.update s.blocks id (some b'))
    (hm : ∀ a, a < block.mem ∨ block.mem + block.extent m ≤ a → memory a = s.memory a)
    (hh : b'.heap = block.heap) (hs : b'.mem = block.mem)
    (hv : b'.Valid m (site.layouts b'.heap) (held b'.heap) memory) :
    Inv site held next := by
  refine h.update (fun heap => hhp ▸ h.heaps heap) hb ?_ ?_
  · intro o block'' hne ho
    have hd := h.extents_disjoint hne hid ho
    rw [hmm]
    exact (h.blocks o block'' ho).frame (h.blocks o block'' ho).holds
      fun a hlo hhi => hm a (by omega)
  · rintro _ ⟨⟩
    refine ⟨hmm ▸ hv, fun o block'' hne ho heq => ?_⟩
    rw [hs, hh]
    exact h.distinct o id block'' block hne ho hid (heq.trans hh)

end

end Inv

end Gale.Mempool
