import Gale.Heap.Blocks
import Gale.Lib.Run

namespace Gale.Heap

open Lib

def ZHeap.chunksFrom (s : ZHeap) : Nat → Nat → List Nat
  | 0, _ => []
  | fuel + 1, c => if c < s.endChunk then c :: s.chunksFrom fuel (s.rightChunk c) else [c]

def ZHeap.chunks (s : ZHeap) : List Nat := s.chunksFrom (s.endChunk + 1) 0

inductive Op where
  | Alloc (bytes : Nat)
  | AlignedAlloc (exponent bytes : Nat)
  | Realloc (ptr bytes : Nat)
  | Free (ptr : Nat)

def step (cfg : Config) (m : Session) : Op → Option Session
  | .Alloc bytes => some (m.alloc cfg bytes).1
  | .AlignedAlloc exponent bytes => some (m.alignedAlloc cfg (2 ^ exponent) bytes).1
  | .Realloc ptr bytes =>
    if ptr = 0 ∨ ptr ∈ m.live.map Block.ptr then some (m.realloc cfg ptr bytes).1 else none
  | .Free ptr => if ptr = 0 ∨ ptr ∈ m.live.map Block.ptr then some (m.free cfg ptr) else none

structure Integrity (cfg : Config) (m : Session) : Prop where
  -- the chunks tile the heap, with matching left sizes
  tiled : m.heap.chunks.head? = some 0 ∧ m.heap.chunks.getLast? = some m.heap.endChunk
  progress : ∀ c ∈ m.heap.chunks, c < m.heap.endChunk → 0 < m.heap.size c
  left : ∀ c ∈ m.heap.chunks, c < m.heap.endChunk →
    m.heap.leftSize (m.heap.rightChunk c) = m.heap.size c
  -- no two neighbouring chunks are free
  apart : ∀ c ∈ m.heap.chunks, c < m.heap.endChunk → m.heap.used c = false →
    m.heap.used (m.heap.rightChunk c) = true
  -- each list has the free chunks of its sizes, once each
  listed : ∀ bidx < cfg.nbBuckets m.heap.endChunk, ∃ nodes, Bucket m.heap bidx nodes ∧
    ∀ c, c ∈ nodes ↔ c ∈ m.heap.chunks ∧ m.heap.used c = false ∧
      cfg.minChunkSize m.heap.endChunk ≤ m.heap.size c ∧
      cfg.bucketIdx m.heap.endChunk (m.heap.size c) = bidx
  beyond : ∀ bidx, cfg.nbBuckets m.heap.endChunk ≤ bidx → m.heap.availBuckets bidx = false
  -- a live block lies in a used chunk, between its header and its trailer
  inside : ∀ block ∈ m.live, ∃ c ∈ m.heap.chunks, m.heap.used c = true ∧
    m.heap.chunkMem cfg c ≤ block.ptr ∧
    block.ptr + block.bytes + CHUNK_UNIT * cfg.chunkTrailerSize ≤
      m.heap.base + CHUNK_UNIT * m.heap.rightChunk c
  disjoint : m.live.Pairwise fun block other =>
    block.ptr + block.bytes ≤ other.ptr ∨ other.ptr + other.bytes ≤ block.ptr
  aligned : ∀ block ∈ m.live, block.align ∣ block.ptr
  -- no assertion or hardening check has failed
  sound : m.heap.failed = false

variable {s : ZHeap} {starts : Finset Nat} {layout : Layout}

theorem chunksFrom_of_tiling (h : Tiling starts s.size s.endChunk) {fuel c : Nat} (hc : c ∈ starts)
    (hf : s.endChunk < fuel + c) :
    (∀ d, d ∈ s.chunksFrom fuel c ↔ d ∈ starts ∧ c ≤ d) ∧ (s.chunksFrom fuel c).head? = some c ∧
      (s.chunksFrom fuel c).getLast? = some s.endChunk := by
  induction fuel generalizing c with
  | zero => exact absurd (h.le_last c hc) (by omega)
  | succ fuel ih =>
    unfold ZHeap.chunksFrom
    by_cases hlt : c < s.endChunk
    · have hp := h.pos c hc hlt
      obtain ⟨hm, hh, hl⟩ := ih (h.next_mem c hc hlt) (by omega)
      rw [if_pos hlt]
      refine ⟨fun d => ?_, rfl, ?_⟩
      · rw [List.mem_cons]
        unfold ZHeap.rightChunk
        rw [hm]
        constructor
        · rintro (rfl | ⟨hd, hle⟩)
          · exact ⟨hc, Nat.le_refl _⟩
          · exact ⟨hd, by omega⟩
        · rintro ⟨hd, hle⟩
          rcases h.apart c hc hlt d hd with hle' | hle'
          · exact .inl (by omega)
          · exact .inr ⟨hd, hle'⟩
      · rw [List.getLast?_cons]
        unfold ZHeap.rightChunk
        rw [hl]
        rfl
    · have heq : c = s.endChunk := Nat.le_antisymm (h.le_last c hc) (by omega)
      rw [if_neg hlt]
      refine ⟨fun d => ?_, rfl, by rw [heq]; rfl⟩
      rw [List.mem_singleton]
      constructor
      · rintro rfl
        exact ⟨hc, Nat.le_refl _⟩
      · rintro ⟨hd, hle⟩
        have := h.le_last d hd
        omega

theorem mem_chunks_of_tiling (h : Tiling starts s.size s.endChunk) (c : Nat) : c ∈ s.chunks ↔ c ∈ starts := by
  have hw := chunksFrom_of_tiling h h.zero_mem (show s.endChunk < s.endChunk + 1 + 0 by omega)
  unfold ZHeap.chunks
  rw [hw.1]
  simp

theorem Inv.fits_disjoint {out : Finset Nat} {held : Nat → Option Nat}
    {ptr bs c n ptr' bs' c' n' : Nat} (h : Inv layout s starts out held)
    (hhl : held c = some n) (hft : layout.Fits ptr bs c n) (hh : held c' = some n')
    (hf : layout.Fits ptr' bs' c' n') (hne : c ≠ c') :
    ptr + bs ≤ ptr' ∨ ptr' + bs' ≤ ptr := by
  obtain ⟨hc, -, rfl⟩ := h.of_held hhl
  obtain ⟨hc', -, rfl⟩ := h.of_held hh
  have ha := h.tiling.disjoint hc (h.endChunk ▸ hft.lt_end) hc' (h.endChunk ▸ hf.lt_end)
    hne
  have hst := hft.start
  have hs := hf.start
  have hrm := hft.room
  have hr := hf.room
  unfold Layout.chunkMem CHUNK_UNIT at *
  omega

theorem Session.Sane.integrity {m : Session} (h : m.Sane layout) : Integrity layout.cfg m := by
  obtain ⟨held, ⟨starts, hi⟩, hblocks⟩ := h
  have hm := mem_chunks_of_tiling hi.tiling
  obtain ⟨-, hhd, hl⟩ := chunksFrom_of_tiling hi.tiling hi.tiling.zero_mem
    (show m.heap.endChunk < m.heap.endChunk + 1 + 0 by omega)
  constructor
  · exact ⟨hhd, hl⟩
  · exact fun c hc => hi.tiling.pos c ((hm c).mp hc)
  · exact fun c hc => hi.left c ((hm c).mp hc)
  · exact fun c hc _ hfr => (hi.walled ((hm c).mp hc) hfr).right
  · intro bidx hbd
    obtain ⟨nodes, hbc, hn⟩ := hi.listed.bucket bidx hbd
    refine ⟨nodes, hbc, fun c => ?_⟩
    rw [hn, Inv.mem_listable, hm]
    simp only [Finset.notMem_empty, not_false_eq_true, and_true, and_assoc]
  · exact hi.listed.beyond
  · intro block hb
    obtain ⟨c, n, -, hh, hf, -⟩ := hblocks.placed block hb
    obtain ⟨hc, hu, hs⟩ := hi.of_held hh
    refine ⟨c, (hm c).mpr hc, hu, ?_, ?_⟩
    · rw [hi.chunkMem_eq]
      exact hf.start
    · unfold ZHeap.rightChunk
      rw [hi.base, hs]
      exact hf.room
  · refine (List.pairwise_map.mp hblocks.distinct).imp_of_mem ?_
    intro block o hb ho hne
    obtain ⟨c, n, -, hh, hf, -⟩ := hblocks.placed block hb
    obtain ⟨c', n', -, hhl, hft, -⟩ := hblocks.placed o ho
    exact hi.fits_disjoint hh hf hhl hft (hf.chunk ▸ hft.chunk ▸ hne)
  · intro block hb
    obtain ⟨c, n, -, -, -, ha⟩ := hblocks.placed block hb
    exact ha
  · exact hi.sound

theorem step_sane {m next : Session} {op : Op} (h : m.Sane layout)
    (hs : step layout.cfg m op = some next) : next.Sane layout := by
  cases op with
  | Alloc bs =>
    cases hs
    exact h.alloc bs
  | AlignedAlloc e bs =>
    cases hs
    exact h.alignedAlloc (by rw [Nat.and_two_pow_sub_one_eq_mod, Nat.mod_self]) bs
  | Realloc ptr bs =>
    obtain ⟨hp, hn⟩ := Option.ite_none_right_eq_some.mp hs
    cases hn
    rcases hp with rfl | hm
    · exact h.realloc_null bs
    · obtain ⟨block, hb, rfl⟩ := List.mem_map.mp hm
      exact h.realloc hb bs
  | Free ptr =>
    obtain ⟨hp, hn⟩ := Option.ite_none_right_eq_some.mp hs
    cases hn
    rcases hp with rfl | hm
    · exact h.free_null
    · obtain ⟨block, hb, rfl⟩ := List.mem_map.mp hm
      exact h.free hb

def smallHeap : Config :=
  { sizing := .SmallOnly, canaries := true, sizeofZHeap := 24, sizeofBucket := 4, allocLoops := 3,
    hardening := 2 }

def blank : ZHeap :=
  { base := 0, endChunk := 0, availBuckets := fun _ => false, buckets := fun _ => 0,
    leftSize := fun _ => 0, size := fun _ => 0, used := fun _ => false, prevFree := fun _ => 0,
    nextFree := fun _ => 0, failed := false }

def smallHeapCalls : List Op :=
  [.Alloc 20, .Realloc 1084 40, .Realloc 1084 8, .AlignedAlloc 5 16, .Realloc 1084 60, .Free 1120]

end Gale.Heap
