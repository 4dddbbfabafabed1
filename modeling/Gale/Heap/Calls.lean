import Gale.Heap.Operations

namespace Gale.Heap

open Finset Function Lib

variable (cfg : Config)

theorem Config.chunkHeaderBytes_cases (endChunk : Nat) :
    cfg.chunkHeaderBytes endChunk = 4 ∨ cfg.chunkHeaderBytes endChunk = 8 := by
  unfold chunkHeaderBytes
  split
  · exact .inr rfl
  · exact .inl rfl

theorem Config.bytesToChunksz_eq (endChunk bytes extra : Nat) :
    cfg.bytesToChunksz endChunk bytes extra = min (bytes / 8 + extra / 8 + cfg.chunkTrailerSize +
        (bytes % 8 + extra % 8 + cfg.chunkHeaderBytes endChunk + 7) / 8) endChunk :=
  rfl

theorem Config.bytesToChunksz_le (endChunk bytes extra : Nat) : cfg.bytesToChunksz endChunk bytes extra ≤ endChunk :=
  Nat.min_le_right _ _

variable {endChunk bytes align : Nat} {layout : Layout} {held : Nat → Option Nat}
  {result : ZHeap × Nat}

theorem Config.bytesToChunksz_pos (h : 0 < endChunk) (bytes extra : Nat) :
    0 < cfg.bytesToChunksz endChunk bytes extra := by
  have hh := cfg.chunkHeaderBytes_cases endChunk
  rw [bytesToChunksz_eq]
  omega

theorem Config.bytes_le_bytesToChunksz {extra : Nat} (h : cfg.bytesToChunksz endChunk bytes extra < endChunk) :
    cfg.chunkHeaderBytes endChunk + extra + bytes + CHUNK_UNIT * cfg.chunkTrailerSize ≤
      CHUNK_UNIT * cfg.bytesToChunksz endChunk bytes extra := by
  rw [bytesToChunksz_eq] at h ⊢
  unfold CHUNK_UNIT
  omega

theorem Config.bytesToChunksz_le_of_bytes_le {n : Nat}
    (h : cfg.chunkHeaderBytes endChunk + bytes + CHUNK_UNIT * cfg.chunkTrailerSize ≤
      CHUNK_UNIT * n) : cfg.bytesToChunksz endChunk bytes 0 ≤ n := by
  rw [bytesToChunksz_eq]
  unfold CHUNK_UNIT at h
  omega

theorem Config.bytesToChunksz_gap (endChunk bytes : Nat) {gap : Nat} (h : gap < CHUNK_UNIT) :
    cfg.bytesToChunksz endChunk bytes gap ≤ cfg.bytesToChunksz endChunk bytes 0 + 1 := by
  rw [bytesToChunksz_eq, bytesToChunksz_eq]
  unfold CHUNK_UNIT at h
  omega

theorem le_roundUp (x : Nat) (h : 0 < align) : x ≤ roundUp x align := by
  have hlt := Nat.lt_div_mul_add (a := x + (align - 1)) h
  unfold roundUp
  omega

theorem roundUp_lt (x : Nat) (h : 0 < align) : roundUp x align < x + align := by
  have hle := Nat.div_mul_le_self (x + (align - 1)) align
  unfold roundUp
  omega

theorem lowestBit_two_pow (exponent : Nat) : lowestBit (2 ^ exponent) = 2 ^ exponent := by
  unfold lowestBit
  rw [Nat.log2_two_pow, Nat.pow_succ, Nat.mul_two, Nat.add_sub_cancel, Nat.and_self]

theorem dvd_roundUp (x align : Nat) : align ∣ roundUp x align := Nat.dvd_mul_left _ _

theorem roundUp_add_le {g x : Nat} (ha : g ∣ align) (hx : g ∣ x) (hp : 0 < align) :
    roundUp x align + g ≤ x + align := by
  have hlt := roundUp_lt x hp
  obtain ⟨r, hr⟩ := ha.trans (dvd_roundUp x align)
  obtain ⟨k, hk⟩ := Nat.dvd_add hx ha
  rw [hr, hk] at hlt ⊢
  have hs : r + 1 ≤ k := Nat.lt_of_mul_lt_mul_left hlt
  calc g * r + g = g * (r + 1) := (Nat.mul_succ g r).symm
    _ ≤ g * k := Nat.mul_le_mul_left g hs

namespace Layout

def header (layout : Layout) : Nat := layout.cfg.chunkHeaderBytes layout.endChunk

def chunkMem (layout : Layout) (c : Nat) : Nat := layout.base + CHUNK_UNIT * c + layout.header

def memToChunkid (layout : Layout) (mem : Nat) : Nat :=
  (mem - layout.header - layout.base) / CHUNK_UNIT

theorem header_dvd_unit (layout : Layout) : layout.header ∣ CHUNK_UNIT := by
  unfold header
  rcases layout.cfg.chunkHeaderBytes_cases layout.endChunk with hh | hh <;>
    rw [hh] <;> decide

theorem header_dvd_chunkMem (layout : Layout) (c : Nat) : layout.header ∣ layout.chunkMem c := by
  obtain ⟨b, hb⟩ := layout.aligned
  have hh := layout.cfg.chunkHeaderBytes_cases layout.endChunk
  unfold chunkMem header CHUNK_UNIT at *
  rcases hh with hh | hh <;> rw [hh, hb] <;> omega

theorem chunkMem_pos (layout : Layout) (c : Nat) : 0 < layout.chunkMem c := by
  have hh := layout.cfg.chunkHeaderBytes_cases layout.endChunk
  unfold chunkMem header
  omega

theorem roundUp_chunkMem_near (layout : Layout) {align : Nat} (hu : CHUNK_UNIT ∣ align) (hp : 0 < align) (c : Nat) :
    layout.chunkMem c ≤ roundUp (layout.chunkMem c + 0) align - 0 ∧
      roundUp (layout.chunkMem c + 0) align - 0 ≤ layout.chunkMem c + (align - layout.header) := by
  have hle := le_roundUp (layout.chunkMem c) hp
  have hn := roundUp_add_le (layout.header_dvd_unit.trans hu) (layout.header_dvd_chunkMem c) hp
  rw [Nat.add_zero, Nat.sub_zero]
  omega

structure Fits (layout : Layout) (ptr bytes c n : Nat) : Prop where
  chunk : layout.memToChunkid ptr = c
  start : layout.chunkMem c ≤ ptr
  room : ptr + bytes + CHUNK_UNIT * layout.cfg.chunkTrailerSize ≤ layout.base + CHUNK_UNIT * (c + n)
  inside : c + n ≤ layout.endChunk

namespace Fits

variable {lo : Layout} {ptr bytes c n : Nat}

section

variable (h : lo.Fits ptr bytes c n)
include h

theorem ne_zero : ptr ≠ 0 := by
  have hs := h.start
  have hh := lo.cfg.chunkHeaderBytes_cases lo.endChunk
  unfold chunkMem header at hs
  omega

theorem lt_end : c < lo.endChunk := by
  obtain ⟨-, hs, hr, hi⟩ := h
  have hh := lo.cfg.chunkHeaderBytes_cases lo.endChunk
  unfold chunkMem header CHUNK_UNIT at *
  omega

theorem need_le : lo.cfg.bytesToChunksz lo.endChunk bytes 0 ≤ n := by
  obtain ⟨-, hs, hr, -⟩ := h
  refine lo.cfg.bytesToChunksz_le_of_bytes_le ?_
  unfold chunkMem header CHUNK_UNIT at *
  omega

theorem gap_lt : ptr - lo.chunkMem c < CHUNK_UNIT := by
  have hc := h.chunk
  unfold memToChunkid chunkMem CHUNK_UNIT at *
  omega

theorem resize {bs' need : Nat} (hn : lo.cfg.bytesToChunksz lo.endChunk bs' (ptr - lo.chunkMem c) = need)
    (hlt : need < lo.endChunk) (hi : c + need ≤ lo.endChunk) :
    lo.Fits ptr bs' c need := by
  have hr := lo.cfg.bytes_le_bytesToChunksz (hn ▸ hlt)
  rw [hn] at hr
  refine ⟨h.chunk, h.start, ?_, hi⟩
  have hs := h.start
  unfold chunkMem header at hs hr
  unfold CHUNK_UNIT at *
  omega

end

end Fits

end Layout

-- The heap is intact and its used chunks are those of held: the abstract heap is
-- the map alone, and every call changes it at one or two chunks.
def Represents (layout : Layout) (s : ZHeap) (held : Nat → Option Nat) : Prop :=
  ∃ starts, Inv layout s starts ∅ held

namespace Inv

variable {lo : Layout} {s : ZHeap} {starts out : Finset Nat} {held : Nat → Option Nat}
  {c : Nat}

theorem chunkMem_eq (h : Inv lo s starts out held) (c : Nat) : s.chunkMem lo.cfg c = lo.chunkMem c := by
  unfold ZHeap.chunkMem Layout.chunkMem Layout.header
  rw [h.base, h.endChunk]

theorem memToChunkid_eq (h : Inv lo s starts out held) (mem : Nat) :
    s.memToChunkid lo.cfg mem = lo.memToChunkid mem := by
  unfold ZHeap.memToChunkid Layout.memToChunkid Layout.header
  rw [h.base, h.endChunk]

theorem use (h : Inv lo s starts {c} held) :
    Represents lo (s.setChunkUsed c true) (update held c (some (s.size c))) := by
  have hu := h.setChunkUsed_true (mem_singleton_self c)
  rw [erase_singleton] at hu
  exact ⟨starts, hu⟩

theorem trim {c0 cEnd : Nat} (h : Inv lo s starts {c0} held) (hw : Walled s starts c0)
    (hlo : c0 ≤ c) (hlt : c < cEnd) (hhi : cEnd ≤ c0 + s.size c0) :
    ∃ mid next st', (if c > c0 then (s.splitChunks c0 c).freeListAdd lo.cfg c0 else s) = mid ∧
      (if mid.rightChunk c > cEnd then (mid.splitChunks c cEnd).freeListAdd lo.cfg cEnd
        else mid) = next ∧
      Inv lo next st' {c} held ∧ next.size c = cEnd - c := by
  obtain ⟨mid, st', hm, hi, hs, hr⟩ : ∃ mid st',
      (if c > c0 then (s.splitChunks c0 c).freeListAdd lo.cfg c0 else s) = mid ∧
      Inv lo mid st' {c} held ∧ mid.size c = c0 + s.size c0 - c ∧
      mid.used (c + mid.size c) = true := by
    by_cases hc : c > c0
    · obtain ⟨next, hn, hi, hs, hr⟩ := h.trim_left hw hc (by omega)
      exact ⟨next, _, (if_pos hc).trans hn, hi, hs, hr⟩
    · have heq : c = c0 := by omega
      subst heq
      exact ⟨s, starts, if_neg hc, h, by omega, hw.right⟩
  have hright_eq : mid.rightChunk c = c0 + s.size c0 := by
    unfold ZHeap.rightChunk
    omega
  by_cases he : mid.rightChunk c > cEnd
  · obtain ⟨next, hn, hi, hs, -⟩ := hi.trim_right (mem_singleton_self c) hlt
      (by omega) hr
    exact ⟨mid, next, _, hm, (if_pos he).trans hn, hi, hs⟩
  · exact ⟨mid, mid, _, hm, if_neg he, hi, by omega⟩

theorem usedChunkCheck (h : Inv lo s starts out held) (hc : c ∈ starts)
    (hu : s.used c = true) (hp : c ≠ 0) (hlt : c < s.endChunk) :
    s.usedChunkCheck lo.cfg c = s := by
  unfold ZHeap.usedChunkCheck
  dsimp only
  rw [ZHeap.check_of (s := s) (by simp [hu]), ZHeap.check_of (s := s) (by simp [h.leftChunk_rightChunk hc hlt]),
    ZHeap.check_of (s := s) (by simp [h.rightChunk_leftChunk hc hp])]

end Inv

-- What an allocation can do: a chunk that was free holds the bytes, aligned.
inductive Allocates (layout : Layout) (held : Nat → Option Nat) (bytes align : Nat) :
    ZHeap × Nat → Prop where
  | Failed {s : ZHeap} : Represents layout s held → Allocates layout held bytes align (s, 0)
  | Placed {s : ZHeap} {ptr c n : Nat} : held c = none → c ≠ 0 → layout.Fits ptr bytes c n →
      align ∣ ptr → Represents layout s (update held c (some n)) →
      Allocates layout held bytes align (s, ptr)

theorem Allocates.mono {align' : Nat} (h : Allocates layout held bytes align result) (hd : align' ∣ align) :
    Allocates layout held bytes align' result := by
  cases h with
  | Failed hs => exact .Failed hs
  | Placed hh hc hf hp hs => exact .Placed hh hc hf (Nat.dvd_trans hd hp) hs

inductive Grants (layout : Layout) (held : Nat → Option Nat) (bytes : Nat) (good : Nat → Prop) :
    ZHeap × Nat → Prop where
  | Failed {s : ZHeap} : Represents layout s held → Grants layout held bytes good (s, 0)
  | Placed {s : ZHeap} {ptr c n : Nat} : held c = none → c ≠ 0 → layout.Fits ptr bytes c n →
      good ptr → Represents layout s (update held c (some n)) →
      Grants layout held bytes good (s, ptr)

theorem Grants.allocates (h : Grants layout held bytes (fun mem => align ∣ mem + 0) result) :
    Allocates layout held bytes align result := by
  cases h with
  | Failed hs => exact .Failed hs
  | Placed hh hc hf hp hs => exact .Placed hh hc hf hp hs

theorem Grants.mono {good good' : Nat → Prop} (h : Grants layout held bytes good result)
    (hg : ∀ ptr, good ptr → good' ptr) : Grants layout held bytes good' result := by
  cases h with
  | Failed hs => exact .Failed hs
  | Placed hh hc hf hp hs => exact .Placed hh hc hf (hg _ hp) hs

theorem Allocates.grants {good : Nat → Prop} (h : Allocates layout held bytes align result)
    (hg : ∀ ptr, align ∣ ptr → good ptr) : Grants layout held bytes good result := by
  cases h with
  | Failed hs => exact .Failed hs
  | Placed hh hc hf hp hs => exact .Placed hh hc hf (hg _ hp) hs

theorem galeSysHeapAllocDecide_found {size need : Nat} (hp : 0 < need) (hle : need ≤ size) :
    galeSysHeapAllocDecide true size need = if need < size then .SplitAndUse else .UseWhole := by
  unfold galeSysHeapAllocDecide
  rw [if_neg (by simp), if_neg (by omega), if_neg (by omega)]

namespace Represents

variable {lo : Layout} {s : ZHeap} {held : Nat → Option Nat} {bytes : Nat}

theorem fits_chunkMem {starts out : Finset Nat} {c : Nat} (h : Inv lo s starts out held)
    (hc : c ∈ starts) (hlt : c < s.endChunk) (hp : c ≠ 0)
    (hs : lo.cfg.bytesToChunksz lo.endChunk bytes 0 ≤ s.size c) :
    lo.Fits (lo.chunkMem c) bytes c (lo.cfg.bytesToChunksz lo.endChunk bytes 0) := by
  have he := h.tiling.next_le hc hlt
  rw [h.endChunk] at he
  have hl : lo.cfg.bytesToChunksz lo.endChunk bytes 0 < lo.endChunk := by omega
  have hr := lo.cfg.bytes_le_bytesToChunksz hl
  constructor
  · unfold Layout.memToChunkid Layout.chunkMem CHUNK_UNIT
    omega
  · exact Nat.le_refl _
  · unfold Layout.chunkMem Layout.header CHUNK_UNIT at *
    omega
  · omega

theorem sysHeapAlloc (h : Represents lo s held) (bytes : Nat) :
    Allocates lo held bytes lo.header (s.sysHeapAlloc lo.cfg bytes) := by
  obtain ⟨starts, h⟩ := h
  unfold ZHeap.sysHeapAlloc
  by_cases hb : bytes = 0
  · rw [if_pos hb]
    exact .Failed ⟨starts, h⟩
  rw [if_neg hb]
  have hle := lo.cfg.bytesToChunksz_le s.endChunk bytes 0
  obtain ⟨next, c, heq, ⟨rfl, hn⟩ | ⟨hc, hsz, hn, hw⟩⟩ := h.allocChunk hle
  · simp only [heq]
    exact .Failed ⟨starts, hn⟩
  obtain ⟨hm, hf⟩ := hn.out_mem c (mem_singleton_self c)
  have hlt := hn.lt_end hm hf
  have he : next.endChunk = s.endChunk := hn.endChunk.trans h.endChunk.symm
  have hp := lo.cfg.bytesToChunksz_pos (show 0 < s.endChunk by omega) bytes 0
  have hh := hn.held_eq_none hf
  have hft := fits_chunkMem hn hm hlt hc (h.endChunk ▸ hsz)
  simp only [heq]
  rw [show decide (c ≠ 0) = true by simpa using hc, if_pos hc, galeSysHeapAllocDecide_found hp hsz]
  by_cases hs : lo.cfg.bytesToChunksz s.endChunk bytes 0 < next.size c
  · rw [if_pos hs]
    have hlo : c < c + lo.cfg.bytesToChunksz s.endChunk bytes 0 := by omega
    obtain ⟨trimmed, ht, hi, hsi, -⟩ := hn.trim_right (mem_singleton_self c)
      hlo (by omega) hw.right
    simp only [ht]
    have hu := hi.use
    rw [hsi, Nat.add_sub_cancel_left, h.endChunk] at hu
    rw [hi.chunkMem_eq]
    exact .Placed hh hc hft (lo.header_dvd_chunkMem c) hu
  · rw [if_neg hs]
    have hu := hn.use
    rw [show next.size c = lo.cfg.bytesToChunksz lo.endChunk bytes 0 by
      rw [← h.endChunk]; omega] at hu
    simp only [hn.chunkMem_eq]
    exact .Placed hh hc hft (lo.header_dvd_chunkMem c) hu

theorem aligned_geometry {c0 padded mem : Nat} (hlo : lo.chunkMem c0 ≤ mem)
    (hhi : mem + bytes + CHUNK_UNIT * lo.cfg.chunkTrailerSize ≤ lo.base + CHUNK_UNIT * (c0 + padded)) :
    c0 ≤ lo.memToChunkid mem ∧ lo.chunkMem (lo.memToChunkid mem) ≤ mem ∧
      lo.memToChunkid mem < (roundUp (mem + bytes) CHUNK_UNIT - lo.base) / CHUNK_UNIT + lo.cfg.chunkTrailerSize ∧
      (roundUp (mem + bytes) CHUNK_UNIT - lo.base) / CHUNK_UNIT + lo.cfg.chunkTrailerSize ≤ c0 + padded ∧
      mem + bytes + CHUNK_UNIT * lo.cfg.chunkTrailerSize ≤ lo.base + CHUNK_UNIT *
        ((roundUp (mem + bytes) CHUNK_UNIT - lo.base) / CHUNK_UNIT + lo.cfg.chunkTrailerSize) := by
  obtain ⟨b, hb⟩ := lo.aligned
  have hh := lo.cfg.chunkHeaderBytes_cases lo.endChunk
  unfold Layout.memToChunkid Layout.chunkMem Layout.header roundUp CHUNK_UNIT at *
  omega

section

variable (h : Represents lo s held)
include h

theorem alignedAlloc {align gap rew : Nat} (hp : align &&& (align - 1) = 0)
    (hnr : ∀ c, lo.chunkMem c ≤ roundUp (lo.chunkMem c + rew) align - rew ∧
      roundUp (lo.chunkMem c + rew) align - rew ≤ lo.chunkMem c + (align - gap))
    (bytes : Nat) :
    Grants lo held bytes (fun mem => align ∣ mem + rew)
      (s.alignedAlloc lo.cfg align gap rew bytes) := by
  obtain ⟨starts, h⟩ := h
  unfold ZHeap.alignedAlloc
  simp only [ZHeap.check_of (s := s) (show decide (align &&& (align - 1) = 0) = true by simp [hp])]
  by_cases hb : bytes = 0
  · rw [if_pos hb]
    exact .Failed ⟨starts, h⟩
  rw [if_neg hb]
  have hle := lo.cfg.bytesToChunksz_le s.endChunk bytes (align - gap)
  obtain ⟨next, c0, heq, ⟨rfl, hn⟩ | ⟨hc0, hsi, hn, hw⟩⟩ := h.allocChunk hle
  · simp only [heq, if_true]
    exact .Failed ⟨starts, hn⟩
  obtain ⟨hmm, hf⟩ := hn.out_mem c0 (mem_singleton_self c0)
  have hlt := hn.lt_end hmm hf
  have he := hn.tiling.next_le hmm hlt
  rw [h.endChunk] at hsi hle
  rw [hn.endChunk] at hlt he
  simp only [heq, hc0, if_false, hn.chunkMem_eq, hn.memToChunkid_eq, hn.base]
  have hnd : lo.cfg.bytesToChunksz lo.endChunk bytes (align - gap) <
      lo.endChunk := by omega
  have hr := lo.cfg.bytes_le_bytesToChunksz hnd
  obtain ⟨hlo, hhi⟩ := hnr c0
  have hd := dvd_roundUp (lo.chunkMem c0 + rew) align
  have hrw : roundUp (lo.chunkMem c0 + rew) align - rew + rew = roundUp (lo.chunkMem c0 + rew) align := by
    have hps := lo.chunkMem_pos c0
    omega
  rw [← hrw] at hd
  generalize roundUp (lo.chunkMem c0 + rew) align - rew = mem at *
  have hft : mem + bytes + CHUNK_UNIT * lo.cfg.chunkTrailerSize ≤ lo.base + CHUNK_UNIT *
      (c0 + lo.cfg.bytesToChunksz lo.endChunk bytes (align - gap)) := by
    unfold Layout.chunkMem Layout.header at hhi
    unfold CHUNK_UNIT at *
    omega
  obtain ⟨hle_c, hs, hlt_end, hend_le, hr⟩ := aligned_geometry hlo hft
  obtain ⟨mid, trimmed, st', hm, ht, hi, hsz⟩ :=
    hn.trim hw hle_c hlt_end (by omega)
  obtain ⟨hc, hc_free⟩ := hi.out_mem _ (mem_singleton_self _)
  have hu := hi.use
  rw [hsz] at hu
  simp only [hm, ht]
  refine .Placed (hi.held_eq_none hc_free) (hi.ne_zero hc_free) ⟨rfl, hs, ?_, ?_⟩ hd hu
  · rw [Nat.add_sub_of_le (Nat.le_of_lt hlt_end)]
    exact hr
  · omega

theorem chunkHeaderBytes_eq : lo.cfg.chunkHeaderBytes s.endChunk = lo.header := by
  obtain ⟨starts, h⟩ := h
  rw [h.endChunk]
  rfl

theorem sysHeapAlignedAlloc_plain {e : Nat} (hle : 2 ^ e ≤ lo.header) (bytes : Nat) :
    s.sysHeapAlignedAlloc lo.cfg (2 ^ e) bytes = s.sysHeapAlloc lo.cfg bytes := by
  unfold ZHeap.sysHeapAlignedAlloc
  simp only [lowestBit_two_pow, ne_eq, not_true_eq_false, if_false, h.chunkHeaderBytes_eq]
  rw [if_pos hle]

theorem sysHeapAlignedAlloc_two_pow (exponent bytes : Nat) : Allocates lo held bytes (2 ^ exponent)
      (s.sysHeapAlignedAlloc lo.cfg (2 ^ exponent) bytes) := by
  have hc := lo.cfg.chunkHeaderBytes_cases lo.endChunk
  by_cases hle : 2 ^ exponent ≤ lo.header
  · rw [h.sysHeapAlignedAlloc_plain hle]
    refine (h.sysHeapAlloc bytes).mono ?_
    unfold Layout.header at hle ⊢
    rcases hc with heq | heq <;> rw [heq] at hle ⊢
    · exact Nat.pow_dvd_pow 2 ((Nat.pow_le_pow_iff_right (by omega)).mp (show 2 ^ exponent ≤ 2 ^ 2 from hle))
    · exact Nat.pow_dvd_pow 2 ((Nat.pow_le_pow_iff_right (by omega)).mp (show 2 ^ exponent ≤ 2 ^ 3 from hle))
  · unfold ZHeap.sysHeapAlignedAlloc
    simp only [lowestBit_two_pow, ne_eq, not_true_eq_false, if_false, h.chunkHeaderBytes_eq]
    rw [if_neg hle]
    have he : 3 ≤ exponent := by
      by_contra hlt
      have hp : 2 ^ exponent ≤ 2 ^ 2 := Nat.pow_le_pow_right (by omega) (by omega)
      unfold Layout.header at hle
      omega
    have hp : 2 ^ exponent &&& (2 ^ exponent - 1) = 0 := by
      rw [Nat.and_two_pow_sub_one_eq_mod, Nat.mod_self]
    have hu : CHUNK_UNIT ∣ 2 ^ exponent := Nat.pow_dvd_pow 2 he
    exact (h.alignedAlloc hp (lo.roundUp_chunkMem_near hu (Nat.two_pow_pos _)) bytes).allocates

theorem sysHeapAlignedAlloc {align : Nat} (hp : align &&& (align - 1) = 0) (bytes : Nat) :
    Allocates lo held bytes (max align 1) (s.sysHeapAlignedAlloc lo.cfg align bytes) := by
  by_cases hz : align = 0
  · subst hz
    exact (h.sysHeapAlloc bytes).mono (one_dvd _)
  · obtain ⟨e, rfl⟩ := (Nat.and_sub_one_eq_zero_iff_isPowerOfTwo hz).mp hp
    rw [Nat.max_eq_left (Nat.pos_of_ne_zero hz)]
    exact h.sysHeapAlignedAlloc_two_pow e bytes

theorem sysHeapFree {mem c n : Nat} (hh : held c = some n) (hc : c ≠ 0) (hf : lo.Fits mem bytes c n) :
    Represents lo (s.sysHeapFree lo.cfg mem) (update held c none) := by
  obtain ⟨starts, h⟩ := h
  obtain ⟨hm, hu, -⟩ := h.of_held hh
  have hlt : c < s.endChunk := h.endChunk ▸ hf.lt_end
  have hr := h.leftChunk_rightChunk hm hlt
  unfold ZHeap.sysHeapFree
  rw [if_neg hf.ne_zero]
  simp only [h.memToChunkid_eq, hf.chunk, h.usedChunkCheck hm hu hc hlt]
  have hd : galeSysHeapFreeDecide (s.used c) (s.leftChunk (s.rightChunk c) = c) =
      .FreeAndCoalesce := by
    simp [galeSysHeapFreeDecide, hu, hr]
  simp only [hd]
  exact (h.setChunkUsed_false hm hu hc hlt).freeChunk

end

end Represents

theorem galeSysHeapReallocDecide_of_pos {current need : Nat} (hp : 0 < need) (rightFree : Bool) (rightSize : Nat) :
    galeSysHeapReallocDecide current need rightFree rightSize =
      if need ≤ current then .Shrink
      else if rightFree ∧ current + rightSize ≥ need ∧ current + rightSize ≤ 2 ^ 32 - 1 then .Grow
      else .Copy := by
  unfold galeSysHeapReallocDecide
  rw [if_neg (by omega)]

namespace Inv

variable {lo : Layout} {s : ZHeap} {starts : Finset Nat} {held : Nat → Option Nat} {c : Nat}

theorem shrink (h : Inv lo s starts ∅ held) (hc : c ∈ starts) (hu : s.used c = true)
    (hp : c ≠ 0) (hlt : c < s.endChunk) {need : Nat} (hn : 0 < need) (hs : need < s.size c) :
    Represents lo
      (((s.splitChunks c (c + need)).setChunkUsed c true).freeChunk lo.cfg (c + need))
      (update held c (some need)) := by
  have hin := h.splitChunks hc hp hlt (show c < c + need by omega) (by omega) (.inl hu)
  have hsp := split_splitChunks (s := s) (show c < c + need by omega) (by omega)
  have hi := hin.setChunkUsed_true (mem_insert_self c _)
  have ho : (insert c (insert (c + need) ∅) : Finset Nat).erase c = {c + need} := by
    ext d
    simp only [mem_insert, mem_erase, notMem_empty, mem_singleton, or_false]
    omega
  rw [ho, update_idem, hsp.size_left, Nat.add_sub_cancel_left] at hi
  exact hi.freeChunk

theorem grow (h : Inv lo s starts ∅ held) (hc : c ∈ starts) (hu : s.used c = true)
    (hp : c ≠ 0) (hlt : c < s.endChunk) (hf : s.used (s.rightChunk c) = false) {need : Nat}
    (hnd : s.size c < need) (hr : need ≤ s.size c + s.size (s.rightChunk c)) :
    ∃ mid next, (s.freeChunkCheck lo.cfg (s.rightChunk c)).freeListRemove lo.cfg
        (s.rightChunk c) = mid ∧
      (if need - s.size c < mid.size (s.rightChunk c) then
          (mid.splitChunks (s.rightChunk c) (s.rightChunk c + (need - s.size c))).freeListAdd
            lo.cfg (s.rightChunk c + (need - s.size c))
        else mid) = next ∧
      Represents lo ((next.mergeChunks c (s.rightChunk c)).setChunkUsed c true)
        (update held c (some need)) := by
  have hrc : s.rightChunk c ∈ starts := h.tiling.next_mem c hc hlt
  have hpos_c := h.tiling.pos c hc hlt
  have hne : s.rightChunk c ≠ c := by
    unfold ZHeap.rightChunk
    omega
  have hrg := (h.walled hrc hf).right
  rw [(h.free_sound hrc hf).freeChunkCheck lo.cfg]
  obtain ⟨hs, hin⟩ := h.freeListRemove hrc hf (by simp)
  generalize s.freeListRemove lo.cfg (s.rightChunk c) = mid at hs hin
  obtain ⟨next, starts', hn, hi, hsize_rc, hsize_c, hus, hc'⟩ : ∃ next starts',
      (if need - s.size c < mid.size (s.rightChunk c) then
        (mid.splitChunks (s.rightChunk c) (s.rightChunk c + (need - s.size c))).freeListAdd
          lo.cfg (s.rightChunk c + (need - s.size c))
        else mid) = next ∧
      Inv lo next starts' {s.rightChunk c} held ∧
      next.size (s.rightChunk c) = need - s.size c ∧ next.size c = s.size c ∧
      next.used c = true ∧ c ∈ starts' := by
    by_cases hsp : need - s.size c < mid.size (s.rightChunk c)
    · have hlo : s.rightChunk c < s.rightChunk c + (need - s.size c) := by omega
      obtain ⟨next, hn, hi, hsz, ho⟩ := hin.trim_right
        (mem_singleton_self _) hlo (by omega)
        (by rw [hs.used, hs.size]; exact hrg)
      obtain ⟨hsize_c, hused_c⟩ := ho c hc (Ne.symm hne)
      rw [hs.size] at hsize_c
      rw [hs.used] at hused_c
      exact ⟨next, _, (if_pos hsp).trans hn, hi, by omega, hsize_c, hused_c.trans hu, mem_insert_of_mem hc⟩
    · refine ⟨mid, starts, if_neg hsp, hin, ?_, by rw [hs.size], ?_, hc⟩
      · rw [hs.size] at hsp ⊢
        omega
      · rw [hs.used]
        exact hu
  refine ⟨mid, next, rfl, hn, ?_⟩
  have he : next.endChunk = s.endChunk := hi.endChunk.trans h.endChunk.symm
  have hm := hi.mergeChunks hc' hp (by rw [hsize_c]; rfl) (by omega)
    (mem_singleton_self _) (.inl hus)
  have hmr := merge_mergeChunks (s := next) hne
  rw [erase_singleton, insert_empty_eq] at hm
  have huse := hm.use
  rw [update_idem, hmr.size_left, hsize_c, hsize_rc, Nat.add_sub_of_le (Nat.le_of_lt hnd)] at huse
  exact huse

end Inv

namespace Represents

variable {lo : Layout} {s : ZHeap} {held : Nat → Option Nat} {ptr old c n : Nat}

theorem inplaceRealloc (h : Represents lo s held) (hh : held c = some n) (hc : c ≠ 0)
    (hf : lo.Fits ptr old c n) (bytes : Nat) {need : Nat}
    (hn : lo.cfg.bytesToChunksz lo.endChunk bytes (ptr - lo.chunkMem c) = need) :
    ∃ next inplace, s.inplaceRealloc lo.cfg ptr bytes = (next, inplace) ∧
      (inplace = true ∧ lo.Fits ptr bytes c need ∧ Represents lo next (update held c (some need)) ∨
        inplace = false ∧ next = s ∧ n < need) := by
  obtain ⟨starts, h⟩ := h
  obtain ⟨hmm, hu, hsz⟩ := h.of_held hh
  have hlt : c < s.endChunk := h.endChunk ▸ hf.lt_end
  have hp := lo.cfg.bytesToChunksz_pos (show 0 < lo.endChunk by rw [← h.endChunk]; omega)
    bytes (ptr - lo.chunkMem c)
  rw [hn] at hp
  have hi := hf.inside
  unfold ZHeap.inplaceRealloc
  simp only [h.memToChunkid_eq, hf.chunk, h.usedChunkCheck hmm hu hc hlt, h.chunkMem_eq,
    h.endChunk, hn, galeSysHeapReallocDecide_of_pos hp, hsz]
  by_cases hs : need ≤ n
  · simp only [hs, if_true]
    have hft := hf.resize hn (by omega) (by omega)
    by_cases heq : n = need
    · subst heq
      rw [if_pos rfl]
      refine ⟨s, true, rfl, .inl ⟨rfl, hft, starts, ?_⟩⟩
      rw [← hh, update_eq_self]
      exact h
    · rw [if_neg heq]
      exact ⟨_, true, rfl, .inl ⟨rfl, hft, h.shrink hmm hu hc hlt hp (by omega)⟩⟩
  · rw [if_neg hs]
    by_cases hg : (!s.used (s.rightChunk c)) = true ∧
        n + (if (!s.used (s.rightChunk c)) = true then s.size (s.rightChunk c) else 0) ≥ need ∧
        n + (if (!s.used (s.rightChunk c)) = true then s.size (s.rightChunk c) else 0) ≤ 2 ^ 32 - 1
    · rw [if_pos hg]
      obtain ⟨hfr, hr, -⟩ := hg
      rw [if_pos hfr] at hr
      have hfr : s.used (s.rightChunk c) = false := by simpa using hfr
      have he := h.tiling.next_le (h.tiling.next_mem c hmm hlt)
        (h.lt_end (h.tiling.next_mem c hmm hlt) hfr)
      obtain ⟨mid, next, hm, hnx, hrp⟩ := h.grow hmm hu hc hlt hfr
        (show s.size c < need by omega) (by omega)
      rw [hsz] at hnx
      simp only [hm, hnx]
      unfold ZHeap.rightChunk at he hr
      rw [h.endChunk] at he
      exact ⟨_, true, rfl, .inl ⟨rfl, hf.resize hn (by omega) (by omega), hrp⟩⟩
    · rw [if_neg hg]
      exact ⟨s, false, rfl, .inr ⟨rfl, rfl, by omega⟩⟩

end Represents

-- What a reallocation of the block at ptr, in the chunk c of the size n, can do: the
-- heap and the pointer it returns, and how often it frees the block.
inductive Reallocates (layout : Layout) (held : Nat → Option Nat) (ptr bytes c n : Nat) :
    ZHeap × Nat → Nat → Prop where
  | Released {s : ZHeap} : bytes = 0 → Represents layout s (update held c none) →
      Reallocates layout held ptr bytes c n (s, 0) 1
  | InPlace {s : ZHeap} {need : Nat} : bytes ≠ 0 →
      layout.cfg.bytesToChunksz layout.endChunk bytes (ptr - layout.chunkMem c) = need →
      layout.Fits ptr bytes c need →
      Represents layout s (update held c (some need)) →
      Reallocates layout held ptr bytes c n (s, ptr) 0
  | Moved {s : ZHeap} {ptr' c' n' : Nat} : bytes ≠ 0 →
      n < layout.cfg.bytesToChunksz layout.endChunk bytes (ptr - layout.chunkMem c) →
      held c' = none → c' ≠ 0 → layout.Fits ptr' bytes c' n' →
      Represents layout s (update (update held c' (some n')) c none) →
      Reallocates layout held ptr bytes c n (s, ptr') 1
  | Failed {s : ZHeap} : bytes ≠ 0 →
      n < layout.cfg.bytesToChunksz layout.endChunk bytes (ptr - layout.chunkMem c) →
      Represents layout s held → Reallocates layout held ptr bytes c n (s, 0) 0

theorem Represents.sysHeapRealloc {s : ZHeap} {ptr old c n : Nat} (h : Represents layout s held)
    (hh : held c = some n) (hc : c ≠ 0) (hft : layout.Fits ptr old c n) (bytes : Nat) :
    Reallocates layout held ptr bytes c n (s.sysHeapRealloc layout.cfg ptr bytes)
      (s.reallocFrees layout.cfg ptr bytes) := by
  unfold ZHeap.sysHeapRealloc ZHeap.reallocFrees
  rw [if_neg hft.ne_zero, if_neg hft.ne_zero]
  by_cases hb : bytes = 0
  · rw [if_pos hb, if_pos hb]
    exact .Released hb (h.sysHeapFree hh hc hft)
  rw [if_neg hb, if_neg hb]
  obtain ⟨next, inplace, heq, ⟨rfl, hf, hn⟩ | ⟨rfl, rfl, hlt⟩⟩ :=
    h.inplaceRealloc hh hc hft bytes rfl
  · simp only [heq, if_true]
    exact .InPlace hb rfl hf hn
  · simp only [heq, Bool.false_eq_true, if_false]
    have ha := h.sysHeapAlloc bytes
    generalize next.sysHeapAlloc layout.cfg bytes = result at ha ⊢
    cases ha with
    | Failed hn => exact .Failed hb hlt hn
    | @Placed s ptr' c' n' hheld' hc' hf _ hn =>
      have hne : c ≠ c' := by
        rintro rfl
        cases hh.symm.trans hheld'
      have hheld_c : update held c' (some n') c = some n := by
        rw [update_of_ne hne, hh]
      simp only [ne_eq, hf.ne_zero, not_false_eq_true, if_true]
      exact .Moved hb hlt hheld' hc' hf (hn.sysHeapFree hheld_c hc hft)

-- A fresh heap: the chunk of struct z_heap, one chunk for the rest and the end marker.
structure Fresh (s : ZHeap) (chunk0Size heapSz : Nat) : Prop where
  size_first : s.size 0 = chunk0Size
  size_rest : s.size chunk0Size = heapSz - chunk0Size
  leftSize_rest : s.leftSize chunk0Size = chunk0Size
  leftSize_end : s.leftSize heapSz = heapSz - chunk0Size
  used_first : s.used 0 = true
  used_rest : s.used chunk0Size = false
  used_end : s.used heapSz = true

theorem fresh_layOut (mem : ZHeap) (addr nbBuckets : Nat) {chunk0Size heapSz : Nat}
    (hp : 0 < chunk0Size) (hlt : chunk0Size < heapSz) :
    Fresh (layOut mem addr heapSz nbBuckets chunk0Size) chunk0Size heapSz := by
  have hf : 0 ≠ chunk0Size := by omega
  have hfirst_end : 0 ≠ heapSz := by omega
  have hrest_end : chunk0Size ≠ heapSz := by omega
  constructor <;>
    simp [layOut, ZHeap.setChunkSize, ZHeap.setChunkUsed, ZHeap.setLeftChunkSize, hf, hfirst_end, hrest_end]

theorem layOut_inv (layout : Layout) (mem : ZHeap) {c0 : Nat} (hp : 0 < c0) (hlt : c0 < layout.endChunk) :
    ∃ held, Inv layout (layOut mem layout.base layout.endChunk (layout.cfg.nbBuckets layout.endChunk) c0)
      {0, c0, layout.endChunk} {c0} held := by
  have hm : ∀ d, d ∈ ({0, c0, layout.endChunk} : Finset Nat) ↔ d = 0 ∨ d = c0 ∨ d = layout.endChunk := by simp
  obtain ⟨hsize_first, hsize_rest, hleft_rest, hleft_end, hused_first, hused_rest, hused_end⟩ :=
    fresh_layOut mem layout.base (layout.cfg.nbBuckets layout.endChunk) hp hlt
  have hr : c0 + (layout.endChunk - c0) = layout.endChunk := by omega
  refine ⟨_, rfl, rfl, rfl, ?_, ?_, hused_first, hused_end, ?_, ?_, fun _ => rfl, ?_⟩
  · refine ⟨by simp, (hm _).mpr (.inr (.inr rfl)), ?_, ?_, ?_, ?_⟩
    · intro d hd
      rcases (hm d).mp hd with rfl | rfl | rfl
      · exact Nat.zero_le _
      · exact Nat.le_of_lt hlt
      · exact Nat.le_refl _
    · intro d hd hd_lt
      rcases (hm d).mp hd with rfl | rfl | rfl
      · rwa [hsize_first]
      · rw [hsize_rest]
        omega
      · exact absurd hd_lt (Nat.lt_irrefl _)
    · intro d hd hd_lt
      rcases (hm d).mp hd with rfl | rfl | rfl
      · rw [hsize_first, Nat.zero_add]
        exact (hm _).mpr (.inr (.inl rfl))
      · rw [hsize_rest, hr]
        exact (hm _).mpr (.inr (.inr rfl))
      · exact absurd hd_lt (Nat.lt_irrefl _)
    · intro d hd hd_lt o ho
      rcases (hm d).mp hd with rfl | rfl | rfl
      · rw [hsize_first]
        rcases (hm o).mp ho with rfl | rfl | rfl <;> omega
      · rw [hsize_rest]
        rcases (hm o).mp ho with rfl | rfl | rfl <;> omega
      · exact absurd hd_lt (Nat.lt_irrefl _)
  · intro d hd hd_lt
    rcases (hm d).mp hd with rfl | rfl | rfl
    · rw [hsize_first, Nat.zero_add]
      exact hleft_rest
    · rw [hsize_rest, hr]
      exact hleft_end
    · exact absurd hd_lt (Nat.lt_irrefl _)
  · intro d hd
    rw [mem_singleton.mp hd]
    exact ⟨(hm _).mpr (.inr (.inl rfl)), hused_rest⟩
  · intro d hd hd_free _
    rcases (hm d).mp hd with rfl | rfl | rfl
    · cases hused_first.symm.trans hd_free
    · exact .inl (mem_singleton_self _)
    · cases hused_end.symm.trans hd_free
  · have hn : ∀ d, d ∉ listable layout.cfg (layOut mem layout.base layout.endChunk
        (layout.cfg.nbBuckets layout.endChunk) c0) {0, c0, layout.endChunk}
        {c0} := by
      intro d hd
      obtain ⟨hd, hd_free, -, hd_out⟩ := Inv.mem_listable.mp hd
      rcases (hm d).mp hd with rfl | rfl | rfl
      · cases hused_first.symm.trans hd_free
      · exact hd_out (mem_singleton_self _)
      · cases hused_end.symm.trans hd_free
    refine ⟨fun bidx hb => ⟨[], Bucket.nil (if_pos hb) rfl, fun d => ?_⟩, fun _ _ => rfl,
      fun d hd => absurd hd (hn d), fun d hd => absurd hd (hn d),
      fun d hd => absurd hd (hn d)⟩
    simp [hn d]

theorem sysHeapInit_represents {cfg : Config} {m s : ZHeap} {mem : Nat} (h : sysHeapInit cfg m mem bytes = some s) :
    ∃ layout held, layout.cfg = cfg ∧ Represents layout s held := by
  unfold sysHeapInit at h
  obtain ⟨⟨-, -, -, -, hr, hv⟩, hs⟩ := Option.ite_none_right_eq_some.mp h
  generalize (roundDown _ CHUNK_UNIT - roundUp mem CHUNK_UNIT) / CHUNK_UNIT = heapSz at *
  generalize chunksz _ + cfg.chunkTrailerSize = chunk0Size at *
  cases hs
  have hp : 0 < chunk0Size := by
    rcases Nat.eq_zero_or_pos chunk0Size with rfl | hp
    · simp [galeSysHeapInitValidate, OK, EINVAL] at hv
    · exact hp
  have hm := cfg.bytesToChunksz_pos (show 0 < heapSz by omega) 1 0
  have hlt : chunk0Size < heapSz := by
    unfold Config.minChunkSize at hr
    omega
  obtain ⟨held, hi⟩ := layOut_inv ⟨cfg, roundUp mem CHUNK_UNIT, heapSz, dvd_roundUp _ _⟩ m
    hp hlt
  have hf := fresh_layOut m (roundUp mem CHUNK_UNIT) (cfg.nbBuckets heapSz) hp hlt
  refine ⟨_, held, rfl, _, hi.freeListAdd_walled ⟨?_, fun d hd heq => ?_⟩⟩
  · rw [hf.size_rest, Nat.add_sub_of_le (Nat.le_of_lt hlt)]
    exact hf.used_end
  · simp only [mem_insert, mem_singleton] at hd
    rcases hd with rfl | rfl | rfl
    · exact hf.used_first
    · rw [hf.size_rest] at heq
      omega
    · omega

end Gale.Heap
