import Gale.Heap.FreeLists
import Gale.Lib.Tiling

namespace Gale.Heap

open Finset Function Lib

structure Layout where
  cfg : Config
  base : Nat
  endChunk : Nat
  aligned : CHUNK_UNIT ∣ base

def listable (cfg : Config) (s : ZHeap) (starts out : Finset Nat) : Finset Nat :=
  starts.filter fun c =>
    s.used c = false ∧ cfg.minChunkSize s.endChunk ≤ s.size c ∧ c ∉ out

-- The chunks begin at starts, and held gives the sizes of the used ones. Those in
-- out are free but not on the lists, and may have free neighbours: an operation is
-- at work on them.
structure Inv (layout : Layout) (s : ZHeap) (starts out : Finset Nat)
    (held : Nat → Option Nat) : Prop where
  base : s.base = layout.base
  endChunk : s.endChunk = layout.endChunk
  sound : s.failed = false
  tiling : Tiling starts s.size s.endChunk
  left : ∀ c ∈ starts, c < s.endChunk → s.leftSize (c + s.size c) = s.size c
  first : s.used 0 = true
  last : s.used s.endChunk = true
  out_mem : ∀ c ∈ out, c ∈ starts ∧ s.used c = false
  apart : ∀ c ∈ starts, s.used c = false → s.used (c + s.size c) = false → c ∈ out ∨ c + s.size c ∈ out
  holds : ∀ c, held c = if c ∈ starts ∧ s.used c = true then some (s.size c) else none
  listed : Listed layout.cfg s (listable layout.cfg s starts out)

structure SameLists (s next : ZHeap) : Prop where
  base : next.base = s.base
  endChunk : next.endChunk = s.endChunk
  failed : next.failed = s.failed
  availBuckets : next.availBuckets = s.availBuckets
  buckets : next.buckets = s.buckets
  prevFree : next.prevFree = s.prevFree
  nextFree : next.nextFree = s.nextFree

theorem SameLists.setChunkUsed (s : ZHeap) (c : Nat) (used : Bool) : SameLists s (s.setChunkUsed c used) :=
  ⟨rfl, rfl, rfl, rfl, rfl, rfl, rfl⟩

theorem Listed.headers {cfg : Config} {s next : ZHeap} {listed : Finset Nat}
    (h : Listed cfg s listed) (hs : SameLists s next)
    (hsz : ∀ c ∈ listed, next.size c = s.size c) : Listed cfg next listed := by
  constructor
  · intro bidx hb
    rw [hs.endChunk] at hb
    obtain ⟨nodes, hbc, hn⟩ := h.bucket bidx hb
    refine ⟨nodes, hbc.congr (by rw [hs.buckets]) (by rw [hs.availBuckets])
      (fun _ _ => by rw [hs.nextFree]) (fun _ _ => by rw [hs.prevFree]), fun c => ?_⟩
    rw [hn, hs.endChunk]
    exact and_congr_right fun hc => by rw [hsz c hc]
  · intro bidx hb
    rw [hs.availBuckets]
    exact h.beyond bidx (hs.endChunk ▸ hb)
  · exact h.ne_zero
  · intro c hc
    rw [hsz c hc, hs.endChunk]
    exact h.min_le c hc
  · intro c hc
    rw [hsz c hc, hs.endChunk]
    exact h.le_end c hc

namespace Inv

variable {lo : Layout} {s next : ZHeap} {starts out : Finset Nat} {held : Nat → Option Nat}
  {c : Nat}

theorem mem_listable {cfg : Config} : c ∈ listable cfg s starts out ↔
      c ∈ starts ∧ s.used c = false ∧ cfg.minChunkSize s.endChunk ≤ s.size c ∧ c ∉ out := by
  simp [listable]

section

variable (h : Inv lo s starts out held)
include h

theorem ne_zero (hf : s.used c = false) : c ≠ 0 := by
  rintro rfl
  cases h.first.symm.trans hf

theorem lt_end (hc : c ∈ starts) (hf : s.used c = false) : c < s.endChunk := by
  refine Nat.lt_of_le_of_ne (h.tiling.le_last c hc) ?_
  rintro rfl
  cases h.last.symm.trans hf

theorem pos_size (hc : c ∈ starts) (hf : s.used c = false) : 0 < s.size c :=
  h.tiling.pos c hc (h.lt_end hc hf)

theorem held_eq_none (hf : s.used c = false) : held c = none := by
  rw [h.holds, if_neg (by simp [hf])]

theorem held_eq_some (hc : c ∈ starts) (hu : s.used c = true) : held c = some (s.size c) := by
  rw [h.holds, if_pos ⟨hc, hu⟩]

theorem of_held {n : Nat} (hh : held c = some n) : c ∈ starts ∧ s.used c = true ∧ s.size c = n := by
  rw [h.holds] at hh
  split at hh
  · next hc => exact ⟨hc.1, hc.2, by simpa using hh⟩
  · cases hh

theorem exists_left (hc : c ∈ starts) (hp : c ≠ 0) :
    ∃ lc ∈ starts, lc < s.endChunk ∧ lc + s.size lc = c ∧ s.leftChunk c = lc := by
  obtain ⟨lc, hlc, hlt, heq⟩ := h.tiling.exists_prev hc (Nat.pos_of_ne_zero hp)
  have hl := h.left lc hlc hlt
  rw [heq] at hl
  exact ⟨lc, hlc, hlt, heq, by unfold ZHeap.leftChunk; omega⟩

theorem leftChunk_rightChunk (hc : c ∈ starts) (hlt : c < s.endChunk) : s.leftChunk (s.rightChunk c) = c := by
  unfold ZHeap.leftChunk ZHeap.rightChunk
  rw [h.left c hc hlt]
  omega

theorem rightChunk_leftChunk (hc : c ∈ starts) (hp : c ≠ 0) : s.rightChunk (s.leftChunk c) = c := by
  obtain ⟨lc, -, -, heq, hl⟩ := h.exists_left hc hp
  rw [hl]
  exact heq

theorem free_sound (hc : c ∈ starts) (hf : s.used c = false) : Sound s c :=
  ⟨hf, h.leftChunk_rightChunk hc (h.lt_end hc hf), h.rightChunk_leftChunk hc (h.ne_zero hf)⟩

theorem of_headers (hs : SameLists s next) {st' out' : Finset Nat} {held' : Nat → Option Nat}
    (tiling : Tiling st' next.size next.endChunk)
    (left : ∀ c ∈ st', c < next.endChunk → next.leftSize (c + next.size c) = next.size c)
    (first : next.used 0 = true) (last : next.used next.endChunk = true)
    (out_mem : ∀ c ∈ out', c ∈ st' ∧ next.used c = false)
    (apart : ∀ c ∈ st', next.used c = false → next.used (c + next.size c) = false → c ∈ out' ∨ c + next.size c ∈ out')
    (holds : ∀ c, held' c = if c ∈ st' ∧ next.used c = true then some (next.size c) else none)
    (hl : ∀ c, c ∈ listable lo.cfg next st' out' ↔ c ∈ listable lo.cfg s starts out)
    (hsz : ∀ c ∈ listable lo.cfg s starts out, next.size c = s.size c) :
    Inv lo next st' out' held' where
  base := hs.base.trans h.base
  endChunk := hs.endChunk.trans h.endChunk
  sound := hs.failed.trans h.sound
  tiling := tiling
  left := left
  first := first
  last := last
  out_mem := out_mem
  apart := apart
  holds := holds
  listed := by
    rw [ext hl]
    exact h.listed.headers hs hsz

theorem setChunkUsed_true (hc : c ∈ out) : Inv lo (s.setChunkUsed c true) starts (out.erase c)
      (update held c (some (s.size c))) := by
  have hu : ∀ d, (s.setChunkUsed c true).used d = if d = c then true else s.used d :=
    fun d => update_apply ..
  have hf : ∀ d, (s.setChunkUsed c true).used d = false ↔ d ≠ c ∧ s.used d = false := by
    intro d
    rw [hu]
    split
    · next heq => simp [heq]
    · next hne => simp [hne]
  refine h.of_headers (SameLists.setChunkUsed s c _) h.tiling h.left ?_ ?_ ?_ ?_ ?_ ?_
    fun _ _ => rfl
  · rw [hu, h.first, ite_self]
  · rw [hu]
    split
    · rfl
    · exact h.last
  · intro d hd
    obtain ⟨hne, hd⟩ := mem_erase.mp hd
    exact ⟨(h.out_mem d hd).1, (hf d).mpr ⟨hne, (h.out_mem d hd).2⟩⟩
  · intro d hd hd_free hright_free
    obtain ⟨hne, hd_free⟩ := (hf d).mp hd_free
    obtain ⟨hn, hright_free⟩ := (hf _).mp hright_free
    rcases h.apart d hd hd_free hright_free with ho | ho
    · exact .inl (mem_erase.mpr ⟨hne, ho⟩)
    · exact .inr (mem_erase.mpr ⟨hn, ho⟩)
  · intro d
    rw [update_apply, hu, h.holds]
    by_cases heq : d = c
    · subst heq
      simp [(h.out_mem d hc).1]
      rfl
    · simp only [heq, if_false]
      rfl
  · intro d
    rw [mem_listable, mem_listable, hf]
    by_cases heq : d = c
    · simp [heq, hc]
    · simp only [heq, ne_eq, not_false_eq_true, true_and, mem_erase]
      rfl

theorem setChunkUsed_false (hc : c ∈ starts) (hu : s.used c = true) (hp : c ≠ 0) (hlt : c < s.endChunk) :
    Inv lo (s.setChunkUsed c false) starts (insert c out) (update held c none) := by
  have hus : ∀ d, (s.setChunkUsed c false).used d = if d = c then false else s.used d :=
    fun d => update_apply ..
  have hf : ∀ d, d ≠ c → (s.setChunkUsed c false).used d = false → s.used d = false := by
    intro d hne hd
    rwa [hus, if_neg hne] at hd
  refine h.of_headers (SameLists.setChunkUsed s c _) h.tiling h.left ?_ ?_ ?_ ?_ ?_ ?_
    fun _ _ => rfl
  · rw [hus, if_neg (Ne.symm hp), h.first]
  · rw [hus, if_neg (by exact Nat.ne_of_gt hlt)]
    exact h.last
  · intro d hd
    rw [hus]
    rcases mem_insert.mp hd with rfl | hd
    · exact ⟨hc, if_pos rfl⟩
    · refine ⟨(h.out_mem d hd).1, ?_⟩
      rw [(h.out_mem d hd).2, ite_self]
  · intro d hd hd_free hright_free
    by_cases heq : d = c
    · exact .inl (heq ▸ mem_insert_self _ _)
    · by_cases he : d + s.size d = c
      · exact .inr (mem_insert.mpr (.inl he))
      · exact (h.apart d hd (hf d heq hd_free) (hf _ he hright_free)).imp
          mem_insert_of_mem mem_insert_of_mem
  · intro d
    rw [update_apply, hus, h.holds]
    by_cases heq : d = c
    · simp [heq]
    · simp only [heq, if_false]
      rfl
  · intro d
    rw [mem_listable, mem_listable, hus]
    by_cases heq : d = c
    · simp [heq, hu]
    · simp only [heq, if_false, mem_insert, false_or]
      rfl

end

end Inv

structure Split (s : ZHeap) (lc rc : Nat) (next : ZHeap) : Prop where
  lists : SameLists s next
  size_left : next.size lc = rc - lc
  size_right : next.size rc = lc + s.size lc - rc
  size_other : ∀ d, d ≠ lc → d ≠ rc → next.size d = s.size d
  used : ∀ d, next.used d = if d = lc ∨ d = rc then false else s.used d
  leftSize_right : next.leftSize rc = rc - lc
  leftSize_next : next.leftSize (lc + s.size lc) = lc + s.size lc - rc
  leftSize_other : ∀ d, d ≠ rc → d ≠ lc + s.size lc → next.leftSize d = s.leftSize d

theorem Split.used_other {s next : ZHeap} {lc rc : Nat} (h : Split s lc rc next) {d : Nat}
    (hl : d ≠ lc) (hr : d ≠ rc) : next.used d = s.used d := by
  rw [h.used, if_neg (by simp [hl, hr])]

theorem split_splitChunks {s : ZHeap} {lc rc : Nat} (hlo : lc < rc) (hhi : rc < lc + s.size lc) :
    Split s lc rc (s.splitChunks lc rc) := by
  have hv : galeSysHeapSplitValidate (s.size lc) (rc - lc) = s.size lc - (rc - lc) := by
    unfold galeSysHeapSplitValidate
    rw [if_neg (by omega)]
  have hrs : s.size lc - (rc - lc) = lc + s.size lc - rc := by omega
  have hrg : rc + (lc + s.size lc - rc) = lc + s.size lc := by omega
  have heq : s.splitChunks lc rc = { s with
        size := update (update s.size lc (rc - lc)) rc (lc + s.size lc - rc)
        used := update (update s.used lc false) rc false
        leftSize := update (update s.leftSize rc (rc - lc)) (lc + s.size lc)
          (lc + s.size lc - rc) } := by
    unfold ZHeap.splitChunks
    dsimp only
    rw [ZHeap.check_of (by simp [hv]), hrs]
    unfold ZHeap.rightChunk ZHeap.setLeftChunkSize ZHeap.setChunkSize
    simp [hrg]
  rw [heq]
  refine ⟨⟨rfl, rfl, rfl, rfl, rfl, rfl, rfl⟩, ?_, update_self .., ?_, ?_, ?_, update_self .., ?_⟩
  · exact (update_of_ne (Nat.ne_of_lt hlo) _ _).trans (update_self ..)
  · intro d hl hr
    exact (update_of_ne hr _ _).trans (update_of_ne hl _ _)
  · intro d
    simp only [update_apply]
    by_cases hl : d = lc <;> simp [hl]
  · exact (update_of_ne (Nat.ne_of_lt hhi) _ _).trans (update_self ..)
  · intro d hr hn
    exact (update_of_ne hn _ _).trans (update_of_ne hr _ _)

structure Merge (s : ZHeap) (lc rc : Nat) (next : ZHeap) : Prop where
  lists : SameLists s next
  size_left : next.size lc = s.size lc + s.size rc
  size_other : ∀ d, d ≠ lc → next.size d = s.size d
  used : ∀ d, next.used d = if d = lc then false else s.used d
  leftSize_next : next.leftSize (rc + s.size rc) = s.size lc + s.size rc
  leftSize_other : ∀ d, d ≠ rc + s.size rc → next.leftSize d = s.leftSize d

theorem merge_mergeChunks {s : ZHeap} {lc rc : Nat} (hne : rc ≠ lc) : Merge s lc rc (s.mergeChunks lc rc) := by
  have heq : s.mergeChunks lc rc = { s with
        size := update s.size lc (s.size lc + s.size rc)
        used := update s.used lc false
        leftSize := update s.leftSize (rc + s.size rc) (s.size lc + s.size rc) } := by
    unfold ZHeap.mergeChunks ZHeap.rightChunk ZHeap.setLeftChunkSize ZHeap.setChunkSize
    simp only [update_of_ne hne]
  rw [heq]
  exact ⟨⟨rfl, rfl, rfl, rfl, rfl, rfl, rfl⟩, update_self ..,
    fun d hd => update_of_ne hd _ _, fun d => update_apply ..,
    update_self .., fun d hd => update_of_ne hd _ _⟩

namespace Inv

variable {lo : Layout} {s next : ZHeap} {starts out : Finset Nat} {held : Nat → Option Nat}
  {c lc rc : Nat}

theorem splitChunks (h : Inv lo s starts out held) (hlc : lc ∈ starts) (hp : lc ≠ 0)
    (hlt : lc < s.endChunk) (hlo : lc < rc) (hhi : rc < lc + s.size lc)
    (hof : s.used lc = true ∨ lc ∈ out) :
    Inv lo (s.splitChunks lc rc) (insert rc starts) (insert lc (insert rc out))
      (update held lc none) := by
  have hn : rc ∉ starts := by
    intro hrc
    rcases h.tiling.apart lc hlc hlt rc hrc with hle | hle <;> omega
  have hne : ∀ d ∈ starts, d ≠ rc := by
    rintro d hd rfl
    exact hn hd
  have hs := split_splitChunks hlo hhi
  generalize s.splitChunks lc rc = next at hs
  have hsz : ∀ d ∈ starts, d ≠ lc → next.size d = s.size d :=
    fun d hd hd' => hs.size_other d hd' (hne d hd)
  have hu : ∀ d ∈ starts, d ≠ lc → next.used d = s.used d :=
    fun d hd hd' => hs.used_other hd' (hne d hd)
  have hf : ∀ d ∈ starts, d ≠ lc → next.used d = false → s.used d = false := by
    intro d hd hd' hf
    rwa [hu d hd hd'] at hf
  have hl := hs.lists.endChunk
  refine h.of_headers hs.lists ?_ ?_ ?_ ?_ ?_ ?_ ?_ ?_ ?_
  · rw [hl]
    exact h.tiling.split hlc hlt hlo hhi hs.size_left hs.size_right hsz
  · intro d hd hd_lt
    rw [hl] at hd_lt
    rcases mem_insert.mp hd with rfl | ho
    · rw [hs.size_right, show d + (lc + s.size lc - d) = lc + s.size lc by omega]
      exact hs.leftSize_next
    · by_cases heq : d = lc
      · subst heq
        rw [hs.size_left, show d + (rc - d) = rc by omega]
        exact hs.leftSize_right
      · have hr : d + s.size d ≠ lc + s.size lc :=
          fun he => heq (h.tiling.prev_unique ho hd_lt hlc hlt he)
        rw [hsz d ho heq, hs.leftSize_other _ (hne _ (h.tiling.next_mem d ho hd_lt)) hr]
        exact h.left d ho hd_lt
  · rw [hu 0 h.tiling.zero_mem (Ne.symm hp)]
    exact h.first
  · rw [hl, hu _ h.tiling.last_mem (Nat.ne_of_gt hlt)]
    exact h.last
  · intro d hd
    rcases mem_insert.mp hd with rfl | hd
    · exact ⟨mem_insert_of_mem hlc, by rw [hs.used, if_pos (.inl rfl)]⟩
    · rcases mem_insert.mp hd with rfl | hd
      · exact ⟨mem_insert_self _ _, by rw [hs.used, if_pos (.inr rfl)]⟩
      · refine ⟨mem_insert_of_mem (h.out_mem d hd).1, ?_⟩
        rw [hs.used, (h.out_mem d hd).2, ite_self]
  · intro d hd hd_free hright_free
    by_cases heq : d = lc
    · exact .inl (heq ▸ mem_insert_self _ _)
    · rcases mem_insert.mp hd with rfl | ho
      · exact .inl (mem_insert_of_mem (mem_insert_self _ _))
      · have hd_free := hf d ho heq hd_free
        have hr := h.tiling.next_mem d ho (h.lt_end ho hd_free)
        rw [hsz d ho heq] at hright_free ⊢
        by_cases he : d + s.size d = lc
        · exact .inr (he ▸ mem_insert_self _ _)
        · refine (h.apart d ho hd_free (hf _ hr he hright_free)).imp ?_ ?_ <;>
            exact fun hot => mem_insert_of_mem (mem_insert_of_mem hot)
  · intro d
    by_cases heq : d = lc
    · simp [heq, hs.used]
    · rw [update_of_ne heq, h.holds]
      by_cases he : d = rc
      · simp [he, hs.used, hn]
      · rw [hs.size_other d heq he, hs.used_other heq he]
        simp [he]
  · intro d
    rw [mem_listable, mem_listable, hl]
    by_cases heq : d = lc
    · subst heq
      rcases hof with hof | hof <;> simp [hof]
    · by_cases he : d = rc
      · simp [he, hn]
      · rw [hs.size_other d heq he, hs.used_other heq he]
        simp [heq, he]
  · intro d hd
    obtain ⟨hd, hd_free, -, hd_out⟩ := mem_listable.mp hd
    refine hsz d hd ?_
    rintro rfl
    rcases hof with hof | hof
    · cases hof.symm.trans hd_free
    · exact hd_out hof

theorem mergeChunks (h : Inv lo s starts out held) (hlc : lc ∈ starts) (hp : lc ≠ 0)
    (hr : lc + s.size lc = rc) (hlt : lc < s.endChunk) (hrc : rc ∈ out)
    (ho : s.used lc = true ∨ lc ∈ out) :
    Inv lo (s.mergeChunks lc rc) (starts.erase rc) (insert lc (out.erase rc))
      (update held lc none) := by
  obtain ⟨hrc_mem, hrc_free⟩ := h.out_mem rc hrc
  have hrc_lt := h.lt_end hrc_mem hrc_free
  have hsize_pos := h.tiling.pos lc hlc hlt
  have hne : rc ≠ lc := by omega
  have hm := merge_mergeChunks (s := s) hne
  generalize s.mergeChunks lc rc = next at hm
  have hl := hm.lists.endChunk
  have hf : ∀ d, d ≠ lc → next.used d = false → s.used d = false := by
    intro d hd hf
    rwa [hm.used, if_neg hd] at hf
  refine h.of_headers hm.lists ?_ ?_ ?_ ?_ ?_ ?_ ?_ ?_ ?_
  · rw [hl]
    exact h.tiling.merge hlc hrc_mem hrc_lt hr hm.size_left
      fun d _ hd _ => hm.size_other d hd
  · intro d hd hd_lt
    obtain ⟨hd_ne, hol⟩ := mem_erase.mp hd
    rw [hl] at hd_lt
    by_cases heq : d = lc
    · subst heq
      rw [hm.size_left, ← Nat.add_assoc, hr]
      exact hm.leftSize_next
    · have hne_next : d + s.size d ≠ rc + s.size rc :=
        fun he => hd_ne (h.tiling.prev_unique hol hd_lt hrc_mem hrc_lt he)
      rw [hm.size_other d heq, hm.leftSize_other _ hne_next]
      exact h.left d hol hd_lt
  · rw [hm.used, if_neg (Ne.symm hp)]
    exact h.first
  · rw [hl, hm.used, if_neg (Nat.ne_of_gt hlt)]
    exact h.last
  · intro d hd
    rcases mem_insert.mp hd with rfl | hd
    · exact ⟨mem_erase.mpr ⟨Ne.symm hne, hlc⟩, by rw [hm.used, if_pos rfl]⟩
    · obtain ⟨hd_ne, hd⟩ := mem_erase.mp hd
      refine ⟨mem_erase.mpr ⟨hd_ne, (h.out_mem d hd).1⟩, ?_⟩
      rw [hm.used, (h.out_mem d hd).2, ite_self]
  · intro d hd hd_free hright_free
    obtain ⟨hd_ne, hol⟩ := mem_erase.mp hd
    by_cases heq : d = lc
    · exact .inl (heq ▸ mem_insert_self _ _)
    · have hd_free := hf d heq hd_free
      have hd_lt := h.lt_end hol hd_free
      rw [hm.size_other d heq] at hright_free ⊢
      have hne_right : d + s.size d ≠ rc :=
        fun he => heq (h.tiling.prev_unique hol hd_lt hlc hlt (he.trans hr.symm))
      by_cases he : d + s.size d = lc
      · exact .inr (he ▸ mem_insert_self _ _)
      · rcases h.apart d hol hd_free (hf _ he hright_free) with hot | hot
        · exact .inl (mem_insert_of_mem (mem_erase.mpr ⟨hd_ne, hot⟩))
        · exact .inr (mem_insert_of_mem (mem_erase.mpr ⟨hne_right, hot⟩))
  · intro d
    by_cases heq : d = lc
    · simp [heq, hm.used]
    · rw [update_of_ne heq, h.holds, hm.used, if_neg heq, hm.size_other d heq]
      by_cases he : d = rc
      · simp [he, hrc_free]
      · simp [he]
  · intro d
    rw [mem_listable, mem_listable, hl, hm.used]
    by_cases heq : d = lc
    · subst heq
      rcases ho with ho | ho <;> simp [ho]
    · rw [if_neg heq, hm.size_other d heq]
      by_cases he : d = rc
      · simp [he, hrc]
      · simp [heq, he]
  · intro d hd
    obtain ⟨hd, hd_free, -, hd_out⟩ := mem_listable.mp hd
    refine hm.size_other d ?_
    rintro rfl
    rcases ho with ho | ho
    · cases ho.symm.trans hd_free
    · exact hd_out ho

end Inv

end Gale.Heap
