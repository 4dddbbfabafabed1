import Gale.Heap.Chunks

namespace Gale.Heap

open Finset Lib

namespace Inv

variable {lo : Layout} {s next : ZHeap} {starts out : Finset Nat} {held : Nat → Option Nat}
  {c : Nat}

theorem of_sameChunks (h : Inv lo s starts out held) (hs : SameChunks s next)
    {out' : Finset Nat} (out_mem : ∀ d ∈ out', d ∈ starts ∧ s.used d = false)
    (apart : ∀ d ∈ starts, s.used d = false → s.used (d + s.size d) = false → d ∈ out' ∨ d + s.size d ∈ out')
    (listed : Listed lo.cfg next (listable lo.cfg s starts out')) :
    Inv lo next starts out' held := by
  constructor
  · exact hs.base.trans h.base
  · exact hs.endChunk.trans h.endChunk
  · exact hs.failed.trans h.sound
  · rw [hs.size, hs.endChunk]
    exact h.tiling
  · rw [hs.size, hs.endChunk, hs.leftSize]
    exact h.left
  · rw [hs.used]
    exact h.first
  · rw [hs.used, hs.endChunk]
    exact h.last
  · rw [hs.used]
    exact out_mem
  · rw [hs.used, hs.size]
    exact apart
  · rw [hs.used, hs.size]
    exact h.holds
  · unfold listable at listed ⊢
    rw [hs.used, hs.size, hs.endChunk]
    exact listed

theorem freeListRemove (h : Inv lo s starts out held) (hc : c ∈ starts) (hf : s.used c = false) (hn : c ∉ out) :
    SameChunks s (s.freeListRemove lo.cfg c) ∧ Inv lo (s.freeListRemove lo.cfg c) starts (insert c out) held := by
  obtain ⟨hs, hl⟩ := h.listed.freeListRemove
    fun hm => mem_listable.mpr ⟨hc, hf, hm, hn⟩
  refine ⟨hs, h.of_sameChunks hs ?_ ?_ ?_⟩
  · intro d hd
    rcases mem_insert.mp hd with rfl | hd
    · exact ⟨hc, hf⟩
    · exact h.out_mem d hd
  · intro d hd hd_free hright_free
    exact (h.apart d hd hd_free hright_free).imp mem_insert_of_mem mem_insert_of_mem
  · have heq : listable lo.cfg s starts (insert c out) = (listable lo.cfg s starts out).erase c := by
      ext d
      rw [mem_erase, mem_listable, mem_listable, mem_insert, not_or]
      constructor
      · rintro ⟨hd, hd_free, hm, hne, hd_out⟩
        exact ⟨hne, hd, hd_free, hm, hd_out⟩
      · rintro ⟨hne, hd, hd_free, hm, hd_out⟩
        exact ⟨hd, hd_free, hm, hne, hd_out⟩
    rw [heq]
    exact hl

theorem freeListAdd (h : Inv lo s starts out held) (hc : c ∈ out)
    (hr : s.used (c + s.size c) = true ∨ c + s.size c ∈ out)
    (hlf : ∀ d ∈ starts, d + s.size d = c → s.used d = true ∨ d ∈ out) :
    SameChunks s (s.freeListAdd lo.cfg c) ∧ Inv lo (s.freeListAdd lo.cfg c) starts (out.erase c) held := by
  obtain ⟨hmm, hf⟩ := h.out_mem c hc
  have hlt := h.lt_end hmm hf
  have hp := h.tiling.pos c hmm hlt
  have hen := h.tiling.next_le hmm hlt
  have ho : ∀ d, d ∈ listable lo.cfg s starts (out.erase c) ↔
      d ∈ listable lo.cfg s starts out ∨ d = c ∧ lo.cfg.minChunkSize s.endChunk ≤ s.size c := by
    intro d
    rw [mem_listable, mem_listable, mem_erase]
    by_cases heq : d = c
    · subst heq
      simp [hmm, hf, hc]
    · simp [heq]
  obtain ⟨hs, hl⟩ := h.listed.freeListAdd
    (fun hm => (mem_listable.mp hm).2.2.2 hc) (h.ne_zero hf) (by omega) ho
  refine ⟨hs, h.of_sameChunks hs ?_ ?_ hl⟩
  · intro d hd
    exact h.out_mem d (mem_of_mem_erase hd)
  · intro d hd hd_free hright_free
    by_cases heq : d = c
    · subst heq
      rcases hr with hu | hot
      · cases hu.symm.trans hright_free
      · exact .inr (mem_erase.mpr ⟨by omega, hot⟩)
    · by_cases he : d + s.size d = c
      · rcases hlf d hd he with hu | hot
        · cases hu.symm.trans hd_free
        · exact .inl (mem_erase.mpr ⟨heq, hot⟩)
      · exact (h.apart d hd hd_free hright_free).imp
          (fun hot => mem_erase.mpr ⟨heq, hot⟩)
          (fun hot => mem_erase.mpr ⟨he, hot⟩)

end Inv

structure Walled (s : ZHeap) (starts : Finset Nat) (c : Nat) : Prop where
  right : s.used (c + s.size c) = true
  left : ∀ d ∈ starts, d + s.size d = c → s.used d = true

namespace Inv

variable {lo : Layout} {s next : ZHeap} {starts out : Finset Nat} {held : Nat → Option Nat}
  {c : Nat}

theorem right_used (h : Inv lo s starts out held) (hc : c ∈ starts) (hf : s.used c = false)
    (ho : c ∉ out) (hr : c + s.size c ∉ out) : s.used (c + s.size c) = true := by
  by_contra hused
  rcases h.apart c hc hf (by simpa using hused) with hm | hm
  · exact ho hm
  · exact hr hm

theorem left_used (h : Inv lo s starts out held) {d : Nat} (hd : d ∈ starts)
    (hf : s.used (d + s.size d) = false) (ho : d ∉ out) (hr : d + s.size d ∉ out) :
    s.used d = true := by
  by_contra hused
  rcases h.apart d hd (by simpa using hused) hf with hm | hm
  · exact ho hm
  · exact hr hm

theorem walled (h : Inv lo s starts ∅ held) (hc : c ∈ starts) (hf : s.used c = false) : Walled s starts c where
  right := h.right_used hc hf (by simp) (by simp)
  left := by
    intro d hd heq
    exact h.left_used hd (heq ▸ hf) (by simp) (by simp)

theorem update_none (h : Inv lo s starts out held) (hf : s.used c = false) : Function.update held c none = held := by
  rw [← h.held_eq_none hf, Function.update_eq_self]

section

variable (h : Inv lo s starts {c} held)
include h

theorem absorb_right (hf : s.used (s.rightChunk c) = false) :
    ∃ next, ((s.freeChunkCheck lo.cfg (s.rightChunk c)).freeListRemove lo.cfg
        (s.rightChunk c)).mergeChunks c (s.rightChunk c) = next ∧
      Inv lo next (starts.erase (s.rightChunk c)) {c} held ∧
      next.used (c + next.size c) = true := by
  obtain ⟨hc, hc_free⟩ := h.out_mem c (mem_singleton_self c)
  have hlt := h.lt_end hc hc_free
  have hp := h.tiling.pos c hc hlt
  have hrc : s.rightChunk c ∈ starts := h.tiling.next_mem c hc hlt
  have hpos_rc := h.pos_size hrc hf
  have hne : s.rightChunk c ≠ c := by unfold ZHeap.rightChunk; omega
  have hrg : s.used (s.rightChunk c + s.size (s.rightChunk c)) = true := by
    refine h.right_used hrc hf (by simpa using hne) ?_
    rw [mem_singleton]
    unfold ZHeap.rightChunk at hpos_rc ⊢
    omega
  rw [(h.free_sound hrc hf).freeChunkCheck lo.cfg]
  obtain ⟨hs, hr⟩ := h.freeListRemove hrc hf (by simpa using hne)
  generalize s.freeListRemove lo.cfg (s.rightChunk c) = middle at hs hr
  have hmr := merge_mergeChunks (s := middle) hne
  have hm := hr.mergeChunks hc (h.ne_zero hc_free)
    (by rw [hs.size]; rfl) (by rw [hs.endChunk]; exact hlt)
    (mem_insert_self _ _) (.inr (by simp))
  rw [hr.update_none (by rw [hs.used]; exact hc_free)] at hm
  refine ⟨_, rfl, ?_, ?_⟩
  · have ho : insert c ((insert (s.rightChunk c) {c} : Finset Nat).erase (s.rightChunk c)) = {c} := by
      ext d
      simp only [mem_insert, mem_erase, mem_singleton]
      omega
    rw [ho] at hm
    exact hm
  · rw [hmr.size_left, hs.size, ← Nat.add_assoc, hmr.used,
      if_neg (by unfold ZHeap.rightChunk at hpos_rc ⊢; omega), hs.used]
    exact hrg

theorem absorb_left (hrg : s.used (c + s.size c) = true) (hf : s.used (s.leftChunk c) = false) :
    ∃ next, ((s.freeChunkCheck lo.cfg (s.leftChunk c)).freeListRemove lo.cfg
        (s.leftChunk c)).mergeChunks (s.leftChunk c) c = next ∧
      Inv lo next (starts.erase c) {s.leftChunk c} held ∧
      Walled next (starts.erase c) (s.leftChunk c) := by
  obtain ⟨hc, hc_free⟩ := h.out_mem c (mem_singleton_self c)
  obtain ⟨lc, hlc, hlc_lt, heq, hl⟩ := h.exists_left hc (h.ne_zero hc_free)
  rw [hl] at hf ⊢
  have hp := h.tiling.pos lc hlc hlc_lt
  have hne : c ≠ lc := by omega
  rw [(h.free_sound hlc hf).freeChunkCheck lo.cfg]
  obtain ⟨hs, hr⟩ := h.freeListRemove hlc hf (by simpa using Ne.symm hne)
  generalize s.freeListRemove lo.cfg lc = middle at hs hr
  have hm := merge_mergeChunks (s := middle) hne
  have hmr := hr.mergeChunks hlc (h.ne_zero hf)
    (show lc + middle.size lc = c by rw [hs.size]; exact heq)
    (by rw [hs.endChunk]; exact hlc_lt) (by simp)
    (.inr (mem_insert_self _ _))
  rw [hr.update_none (by rw [hs.used]; exact hf)] at hmr
  refine ⟨_, rfl, ?_, ?_, ?_⟩
  · have ho : insert lc ((insert lc {c} : Finset Nat).erase c) = {lc} := by
      ext d
      simp only [mem_insert, mem_erase, mem_singleton]
      omega
    rw [ho] at hmr
    exact hmr
  · rw [hm.size_left, hs.size, ← Nat.add_assoc, heq, hm.used, if_neg (by omega), hs.used]
    exact hrg
  · intro d hd hd_eq
    obtain ⟨hd_ne, hd⟩ := mem_erase.mp hd
    by_cases hd_lc : d = lc
    · rw [hd_lc, hm.size_left, hs.size] at hd_eq
      omega
    · rw [hm.size_other d hd_lc, hs.size] at hd_eq
      rw [hm.used, if_neg hd_lc, hs.used]
      exact h.left_used hd (hd_eq ▸ hf) (by simpa using hd_ne)
        (by rw [hd_eq]; simpa using Ne.symm hne)

theorem freeListAdd_walled (hw : Walled s starts c) : Inv lo (s.freeListAdd lo.cfg c) starts ∅ held := by
  have ha := h.freeListAdd (mem_singleton_self c) (.inl hw.right)
    fun d hd heq => .inl (hw.left d hd heq)
  rw [erase_singleton] at ha
  exact ha.2

theorem freeChunk : ∃ st', Inv lo (s.freeChunk lo.cfg c) st' ∅ held := by
  obtain ⟨mid, starts, hm, h, hr⟩ : ∃ mid starts, (if s.used (s.rightChunk c) then s
        else ((s.freeChunkCheck lo.cfg (s.rightChunk c)).freeListRemove lo.cfg
          (s.rightChunk c)).mergeChunks c (s.rightChunk c)) = mid ∧
      Inv lo mid starts {c} held ∧ mid.used (c + mid.size c) = true := by
    by_cases hu : s.used (s.rightChunk c) = true
    · exact ⟨s, starts, if_pos hu, h, hu⟩
    · obtain ⟨next, hn, hi, hr⟩ := h.absorb_right (by simpa using hu)
      exact ⟨next, _, (if_neg hu).trans hn, hi, hr⟩
  unfold ZHeap.freeChunk
  simp only [hm]
  obtain ⟨hc, hc_free⟩ := h.out_mem c (mem_singleton_self c)
  by_cases hu : mid.used (mid.leftChunk c) = true
  · rw [if_pos hu]
    refine ⟨starts, h.freeListAdd_walled ⟨hr, fun d hd heq => ?_⟩⟩
    obtain ⟨lc, hlc, hlc_lt, he, hl⟩ := h.exists_left hc (h.ne_zero hc_free)
    have hd_lt : d < mid.endChunk := by
      have hc_lt := h.lt_end hc hc_free
      omega
    rw [h.tiling.prev_unique hd hd_lt hlc hlc_lt (heq.trans he.symm), ← hl]
    exact hu
  · rw [if_neg hu]
    obtain ⟨next, hn, hi, hw⟩ := h.absorb_left hr (by simpa using hu)
    rw [hn]
    exact ⟨_, hi.freeListAdd_walled hw⟩

end

theorem allocChunk (h : Inv lo s starts ∅ held) {sz : Nat} (hsz : sz ≤ s.endChunk) :
    ∃ next c, s.allocChunk lo.cfg sz = (next, c) ∧ (c = 0 ∧ Inv lo next starts ∅ held ∨
        c ≠ 0 ∧ sz ≤ next.size c ∧ Inv lo next starts {c} held ∧ Walled next starts c) := by
  have ht := h.listed.allocChunk
    (fun d hd => h.free_sound (mem_listable.mp hd).1 (mem_listable.mp hd).2.1) hsz
  generalize s.allocChunk lo.cfg sz = result at ht ⊢
  obtain ⟨next, c⟩ := result
  refine ⟨next, c, rfl, ?_⟩
  by_cases hc : c = 0
  · rw [if_pos hc] at ht
    obtain ⟨hs, hl⟩ := ht
    exact .inl ⟨hc, h.of_sameChunks hs h.out_mem h.apart hl⟩
  · rw [if_neg hc] at ht
    obtain ⟨hm, hsi, hs, hl⟩ := ht
    obtain ⟨hm, hf, -, -⟩ := mem_listable.mp hm
    obtain ⟨hr, hlf⟩ := h.walled hm hf
    refine .inr ⟨hc, by rw [hs.size]; exact hsi, h.of_sameChunks hs ?_ ?_ ?_, ?_, ?_⟩
    · intro d hd
      rw [mem_singleton.mp hd]
      exact ⟨hm, hf⟩
    · intro d hd hd_free hright_free
      rcases h.apart d hd hd_free hright_free with ho | ho <;> cases notMem_empty _ ho
    · have heq : listable lo.cfg s starts {c} = (listable lo.cfg s starts ∅).erase c := by
        ext d
        rw [mem_erase, mem_listable, mem_listable, mem_singleton]
        simp only [notMem_empty, not_false_eq_true, and_true]
        constructor
        · rintro ⟨hd, hd_free, hmn, hne⟩
          exact ⟨hne, hd, hd_free, hmn⟩
        · rintro ⟨hne, hd, hd_free, hmn⟩
          exact ⟨hd, hd_free, hmn, hne⟩
      rw [heq]
      exact hl
    · rw [hs.used, hs.size]
      exact hr
    · rw [hs.used, hs.size]
      exact hlf

theorem trim_right (h : Inv lo s starts out held) (hc : c ∈ out) {rc : Nat} (hlo : c < rc)
    (hhi : rc < c + s.size c) (hr : s.used (c + s.size c) = true) :
    ∃ next, (s.splitChunks c rc).freeListAdd lo.cfg rc = next ∧
      Inv lo next (insert rc starts) out held ∧ next.size c = rc - c ∧
      ∀ d ∈ starts, d ≠ c → next.size d = s.size d ∧ next.used d = s.used d := by
  obtain ⟨hm, hf⟩ := h.out_mem c hc
  have hlt := h.lt_end hm hf
  have hn : rc ∉ starts := by
    intro hrc
    rcases h.tiling.apart c hm hlt rc hrc with hle | hle <;> omega
  have hi := h.splitChunks hm (h.ne_zero hf) hlt hlo hhi (.inr hc)
  have hsp := split_splitChunks hlo hhi
  generalize s.splitChunks c rc = middle at hi hsp
  rw [h.update_none hf, insert_eq_of_mem (mem_insert_of_mem hc)] at hi
  obtain ⟨hs, ha⟩ := hi.freeListAdd (mem_insert_self rc out)
    (.inl (by
      rw [hsp.size_right, show rc + (c + s.size c - rc) = c + s.size c by omega, hsp.used_other (by omega) (by omega)]
      exact hr))
    (by
      intro d hd heq
      have hd_lt : d < middle.endChunk := by
        have hrc_lt := hi.lt_end (mem_insert_self rc starts)
          (hi.out_mem rc (mem_insert_self rc out)).2
        omega
      have he := hi.tiling.prev_unique hd hd_lt (mem_insert_of_mem hm)
        (hi.lt_end (mem_insert_of_mem hm) (hi.out_mem c (mem_insert_of_mem hc)).2)
        (heq.trans (by rw [hsp.size_left]; omega))
      exact .inr (he ▸ mem_insert_of_mem hc))
  rw [erase_insert (fun hrc => hn (h.out_mem rc hrc).1)] at ha
  refine ⟨_, rfl, ha, by rw [hs.size]; exact hsp.size_left, fun d hd hne => ?_⟩
  have hne' : d ≠ rc := by
    rintro rfl
    exact hn hd
  rw [hs.size, hs.used]
  exact ⟨hsp.size_other d hne hne', hsp.used_other hne hne'⟩

theorem trim_left (h : Inv lo s starts {c} held) (hw : Walled s starts c) {rc : Nat}
    (hlo : c < rc) (hhi : rc < c + s.size c) :
    ∃ next, (s.splitChunks c rc).freeListAdd lo.cfg c = next ∧
      Inv lo next (insert rc starts) {rc} held ∧ next.size rc = c + s.size c - rc ∧
      next.used (rc + next.size rc) = true := by
  obtain ⟨hm, hf⟩ := h.out_mem c (mem_singleton_self c)
  have hlt := h.lt_end hm hf
  have hnt : rc ∉ starts := by
    intro hrc
    rcases h.tiling.apart c hm hlt rc hrc with hle | hle <;> omega
  have hi := h.splitChunks hm (h.ne_zero hf) hlt hlo hhi (.inr (by simp))
  have hsp := split_splitChunks hlo hhi
  generalize s.splitChunks c rc = middle at hi hsp
  have hot : (insert c (insert rc {c}) : Finset Nat) = {c, rc} := by
    ext d
    simp only [mem_insert, mem_singleton]
    omega
  rw [h.update_none hf, hot] at hi
  obtain ⟨hs, ha⟩ := hi.freeListAdd (mem_insert_self c {rc})
    (.inr (by
      rw [hsp.size_left, show c + (rc - c) = rc by omega]
      simp))
    (by
      intro d hd heq
      rcases mem_insert.mp hd with rfl | hol
      · omega
      · have hne : d ≠ c := by
          rintro rfl
          rw [hsp.size_left] at heq
          omega
        have hn : d ≠ rc := by
          rintro rfl
          exact hnt hol
        rw [hsp.size_other d hne hn] at heq
        rw [hsp.used_other hne hn]
        exact .inl (hw.left d hol heq))
  have ho : ({c, rc} : Finset Nat).erase c = {rc} := by
    ext d
    simp only [mem_insert, mem_erase, mem_singleton]
    omega
  rw [ho] at ha
  have hr : rc + (c + s.size c - rc) = c + s.size c := by omega
  refine ⟨_, rfl, ha, by rw [hs.size]; exact hsp.size_right, ?_⟩
  rw [hs.size, hs.used, hsp.size_right, hr, hsp.used_other (by omega) (by omega)]
  exact hw.right

end Inv

end Gale.Heap
