import Gale.Heap.Integrity

namespace Gale.Heap

open Finset Function Lib

def ZHeap.freeTotal (s : ZHeap) : Nat := ((s.chunks.filter fun c => !s.used c).map s.size).sum

def ZHeap.givesBack (cfg : Config) (s : ZHeap) (ptr bytes : Nat) : Prop :=
  bytes = 0 ∨ cfg.bytesToChunksz s.endChunk bytes (ptr - s.chunkMem cfg (s.memToChunkid cfg ptr)) <
      s.size (s.memToChunkid cfg ptr)

instance (cfg : Config) (s : ZHeap) (ptr bytes : Nat) : Decidable (s.givesBack cfg ptr bytes) :=
  inferInstanceAs (Decidable (_ ∨ _))

def heldTotal (held : Nat → Option Nat) (last : Nat) : Nat :=
  ∑ c ∈ range last, (held c).getD 0

theorem heldTotal_update (held : Nat → Option Nat) {last c : Nat} (hc : c < last) (v : Option Nat) :
    heldTotal (update held c v) last + (held c).getD 0 = heldTotal held last + v.getD 0 := by
  have hm : c ∈ range last := mem_range.mpr hc
  unfold heldTotal
  rw [← add_sum_erase _ _ hm, ← add_sum_erase _ (fun d => (held d).getD 0) hm]
  have hr : ∑ d ∈ (range last).erase c, (update held c v d).getD 0 = ∑ d ∈ (range last).erase c, (held d).getD 0 :=
    sum_congr rfl fun d hd => by rw [update_of_ne (ne_of_mem_erase hd)]
  simp only [update_self, hr]
  omega

theorem chunksFrom_nodup {s : ZHeap} {starts : Finset Nat} (h : Tiling starts s.size s.endChunk)
    {fuel c : Nat} (hc : c ∈ starts) (hf : s.endChunk < fuel + c) :
    (s.chunksFrom fuel c).Nodup := by
  induction fuel generalizing c with
  | zero => exact List.nodup_nil
  | succ fuel ih =>
    unfold ZHeap.chunksFrom
    by_cases hlt : c < s.endChunk
    · have hp := h.pos c hc hlt
      have hn : s.rightChunk c ∈ starts := h.next_mem c hc hlt
      have hfl : s.endChunk < fuel + s.rightChunk c := by
        unfold ZHeap.rightChunk
        omega
      rw [if_pos hlt]
      refine List.nodup_cons.mpr ⟨fun hm => ?_, ih hn hfl⟩
      have hle := (((chunksFrom_of_tiling h hn hfl).1 c).mp hm).2
      unfold ZHeap.rightChunk at hle
      omega
    · rw [if_neg hlt]
      exact List.nodup_singleton c

namespace Inv

variable {lo : Layout} {s : ZHeap} {starts out : Finset Nat} {held : Nat → Option Nat}

theorem freeTotal_eq (h : Inv lo s starts out held) :
    s.freeTotal = ∑ c ∈ starts.filter (fun c => s.used c = false), s.size c := by
  have hn : (s.chunks.filter fun c => !s.used c).Nodup :=
    (chunksFrom_nodup h.tiling h.tiling.zero_mem (by omega)).filter _
  unfold ZHeap.freeTotal
  rw [← List.sum_toFinset _ hn]
  refine sum_congr ?_ fun _ _ => rfl
  ext c
  rw [List.mem_toFinset, List.mem_filter, mem_filter, mem_chunks_of_tiling h.tiling]
  simp

theorem heldTotal_eq (h : Inv lo s starts out held) : heldTotal held s.endChunk =
      ∑ c ∈ (starts.filter (· < s.endChunk)).filter (fun c => s.used c = true), s.size c := by
  have ht : ∀ c, (held c).getD 0 = if c ∈ starts ∧ s.used c = true then s.size c else 0 := by
    intro c
    rw [h.holds]
    split <;> rfl
  unfold heldTotal
  rw [sum_congr rfl fun c _ => ht c, ← sum_filter]
  refine sum_congr ?_ fun _ _ => rfl
  ext c
  simp only [mem_filter, mem_range]
  constructor
  · rintro ⟨hlt, hc, hu⟩
    exact ⟨⟨hc, hlt⟩, hu⟩
  · rintro ⟨⟨hc, hlt⟩, hu⟩
    exact ⟨hlt, hc, hu⟩

theorem freeTotal_add (h : Inv lo s starts out held) : s.freeTotal + heldTotal held lo.endChunk = lo.endChunk := by
  have ht := h.tiling.sum_below h.tiling.last_mem
  rw [← sum_filter_add_sum_filter_not _ (fun c => s.used c = true), ← h.heldTotal_eq] at ht
  have hf : (starts.filter (· < s.endChunk)).filter (fun c => ¬ s.used c = true) =
      starts.filter fun c => s.used c = false := by
    ext c
    simp only [mem_filter, Bool.not_eq_true]
    constructor
    · rintro ⟨⟨hc, -⟩, hf⟩
      exact ⟨hc, hf⟩
    · rintro ⟨hc, hf⟩
      exact ⟨⟨hc, h.lt_end hc hf⟩, hf⟩
  rw [hf, ← h.freeTotal_eq, h.endChunk] at ht
  omega

end Inv

namespace Represents

variable {lo : Layout} {s : ZHeap} {held : Nat → Option Nat}

theorem freeTotal_add (h : Represents lo s held) : s.freeTotal + heldTotal held lo.endChunk = lo.endChunk := by
  obtain ⟨starts, h⟩ := h
  exact h.freeTotal_add

theorem freeTotal_allocates (h : Represents lo s held) {bs al : Nat}
    {result : ZHeap × Nat} (ha : Allocates lo held bs al result) :
    result.1.freeTotal ≤ s.freeTotal := by
  have hb := h.freeTotal_add
  cases ha with
  | Failed hn =>
    have haf := hn.freeTotal_add
    simp only
    omega
  | @Placed next ptr c n hh _ hf _ hn =>
    have haf := hn.freeTotal_add
    have hs := heldTotal_update held hf.lt_end (some n)
    rw [hh, Option.getD_none, Option.getD_some] at hs
    simp only
    omega

theorem freeTotal_reallocates (h : Represents lo s held) {ptr old c n bs frees : Nat}
    {result : ZHeap × Nat} (hh : held c = some n) (hft : lo.Fits ptr old c n)
    (hr : Reallocates lo held ptr bs c n result frees) :
    s.freeTotal < result.1.freeTotal ↔ bs = 0 ∨ lo.cfg.bytesToChunksz lo.endChunk bs (ptr - lo.chunkMem c) < n := by
  have hbf := h.freeTotal_add
  have hlt := hft.lt_end
  have hp : 0 < n :=
    Nat.lt_of_lt_of_le (lo.cfg.bytesToChunksz_pos (by omega) old 0) hft.need_le
  cases hr with
  | Released hb hn =>
    have ha := hn.freeTotal_add
    have hsm := heldTotal_update held hlt none
    rw [hh, Option.getD_none, Option.getD_some] at hsm
    simp only [hb, true_or, iff_true]
    omega
  | @InPlace next need hb hnd _ hn =>
    have ha := hn.freeTotal_add
    have hsm := heldTotal_update held hlt (some need)
    rw [hh, Option.getD_some, Option.getD_some] at hsm
    simp only [hb, false_or]
    omega
  | @Moved next ptr' c' n' hb hnd hhl _ hf hn =>
    have ha := hn.freeTotal_add
    have hne : c ≠ c' := by
      rintro rfl
      cases hh.symm.trans hhl
    have hsm := heldTotal_update held hf.lt_end (some n')
    have hs := heldTotal_update (update held c' (some n')) hlt none
    rw [hhl, Option.getD_none, Option.getD_some] at hsm
    rw [update_of_ne hne, hh, Option.getD_none, Option.getD_some] at hs
    have hg := lo.cfg.bytesToChunksz_gap lo.endChunk bs hft.gap_lt
    have hnee := hf.need_le
    simp only [hb, false_or]
    omega
  | Failed hb hnd hn =>
    have ha := hn.freeTotal_add
    simp only [hb, false_or]
    omega

end Represents

end Gale.Heap
