import Mathlib

namespace Gale.Lib

open Finset

-- Segments of the given sizes cover the interval from zero to last without a gap;
-- last starts the segment after them.
structure Tiling (starts : Finset Nat) (size : Nat → Nat) (last : Nat) : Prop where
  zero_mem : 0 ∈ starts
  last_mem : last ∈ starts
  le_last : ∀ start ∈ starts, start ≤ last
  pos : ∀ start ∈ starts, start < last → 0 < size start
  next_mem : ∀ start ∈ starts, start < last → start + size start ∈ starts
  apart : ∀ start ∈ starts, start < last → ∀ other ∈ starts, other ≤ start ∨ start + size start ≤ other

namespace Tiling

variable {starts : Finset Nat} {size size' : Nat → Nat} {last start other : Nat}

section

variable (h : Tiling starts size last)
include h

theorem next_le (hs : start ∈ starts) (hlt : start < last) : start + size start ≤ last :=
  h.le_last _ (h.next_mem start hs hlt)

theorem exists_prev (hs : start ∈ starts) (hp : 0 < start) :
    ∃ left ∈ starts, left < last ∧ left + size left = start := by
  have hb : (starts.filter (· < start)).Nonempty :=
    ⟨0, mem_filter.mpr ⟨h.zero_mem, hp⟩⟩
  obtain ⟨left, hl, hm⟩ := exists_max_image _ id hb
  obtain ⟨hl, hlt⟩ := mem_filter.mp hl
  have hls := h.le_last start hs
  have hleft_last : left < last := by omega
  have hpos_left := h.pos left hl hleft_last
  have hle : left + size left ≤ start := by
    rcases h.apart left hl hleft_last start hs with hle | hle <;> omega
  refine ⟨left, hl, hleft_last, ?_⟩
  by_contra hne
  have hn := hm (left + size left)
    (mem_filter.mpr ⟨h.next_mem left hl hleft_last, by omega⟩)
  simp only [id_eq] at hn
  omega

theorem prev_unique (hs : start ∈ starts) (hlt : start < last) (ho : other ∈ starts)
    (hother_lt : other < last) (heq : start + size start = other + size other) : start = other := by
  have hps := h.pos start hs hlt
  have hp := h.pos other ho hother_lt
  rcases h.apart start hs hlt other ho with hle | hle
  · rcases h.apart other ho hother_lt start hs with hl | hl <;> omega
  · omega

theorem disjoint (hs : start ∈ starts) (hlt : start < last) (ho : other ∈ starts)
    (hother_lt : other < last) (hne : start ≠ other) :
    start + size start ≤ other ∨ other + size other ≤ start := by
  rcases h.apart start hs hlt other ho with hle | hle
  · rcases h.apart other ho hother_lt start hs with hl | hl
    · omega
    · exact .inr hl
  · exact .inl hle

theorem split {left right : Nat} (hl : left ∈ starts) (hls : left < last) (hlo : left < right)
    (hhi : right < left + size left) (hsize_left : size' left = right - left)
    (hsize_right : size' right = left + size left - right)
    (hsz : ∀ start ∈ starts, start ≠ left → size' start = size start) :
    Tiling (insert right starts) size' last := by
  have hn := h.next_le hl hls
  have hb : ∀ start ∈ starts, start ≤ left ∨ left + size left ≤ start :=
    h.apart left hl hls
  constructor
  · exact mem_insert_of_mem h.zero_mem
  · exact mem_insert_of_mem h.last_mem
  · intro start hs
    rcases mem_insert.mp hs with rfl | hol
    · omega
    · exact h.le_last start hol
  · intro start hs hlt
    rcases mem_insert.mp hs with rfl | hol
    · omega
    · by_cases heq : start = left
      · subst heq
        omega
      · rw [hsz start hol heq]
        exact h.pos start hol hlt
  · intro start hs hlt
    rcases mem_insert.mp hs with rfl | hol
    · rw [hsize_right, show start + (left + size left - start) = left + size left by omega]
      exact mem_insert_of_mem (h.next_mem left hl hls)
    · by_cases heq : start = left
      · subst heq
        rw [hsize_left, show start + (right - start) = right by omega]
        exact mem_insert_self _ _
      · rw [hsz start hol heq]
        exact mem_insert_of_mem (h.next_mem start hol hlt)
  · intro start hs hlt other hot
    rcases mem_insert.mp hs with rfl | hol
    · rcases mem_insert.mp hot with rfl | ho
      · omega
      · rcases hb other ho with hle | hle <;> omega
    · by_cases heq : start = left
      · subst heq
        rcases mem_insert.mp hot with rfl | ho
        · omega
        · rcases hb other ho with hle | hle <;> omega
      · rw [hsz start hol heq]
        rcases mem_insert.mp hot with rfl | ho
        · rcases h.apart start hol hlt left hl with hle | hle
          · rcases hb start hol with hle' | hle' <;> omega
          · omega
        · exact h.apart start hol hlt other ho

theorem merge {left right : Nat} (hlf : left ∈ starts) (hr : right ∈ starts)
    (hl : right < last) (hn : left + size left = right)
    (hsize_left : size' left = size left + size right)
    (hsz : ∀ start ∈ starts, start ≠ left → start ≠ right → size' start = size start) :
    Tiling (starts.erase right) size' last := by
  have hleft_last : left < last := by omega
  have hps := h.pos left hlf hleft_last
  have hp := h.pos right hr hl
  constructor
  · exact mem_erase.mpr ⟨by omega, h.zero_mem⟩
  · exact mem_erase.mpr ⟨by omega, h.last_mem⟩
  · exact fun start hs => h.le_last start (mem_of_mem_erase hs)
  · intro start hs hlt
    obtain ⟨hne, hol⟩ := mem_erase.mp hs
    by_cases heq : start = left
    · subst heq
      omega
    · rw [hsz start hol heq hne]
      exact h.pos start hol hlt
  · intro start hs hlt
    obtain ⟨hne, hol⟩ := mem_erase.mp hs
    by_cases heq : start = left
    · subst heq
      rw [hsize_left, show start + (size start + size right) = right + size right by omega]
      exact mem_erase.mpr ⟨by omega, h.next_mem right hr hl⟩
    · rw [hsz start hol heq hne]
      refine mem_erase.mpr ⟨fun he => heq ?_, h.next_mem start hol hlt⟩
      exact h.prev_unique hol hlt hlf hleft_last (he.trans hn.symm)
  · intro start hs hlt other hot
    obtain ⟨hne, hol⟩ := mem_erase.mp hs
    obtain ⟨hne', ho⟩ := mem_erase.mp hot
    by_cases heq : start = left
    · subst heq
      rcases h.apart start hol hlt other ho with hle | hle
      · exact .inl hle
      · rcases h.apart right hr hl other ho with hle' | hle' <;> omega
    · rw [hsz start hol heq hne]
      exact h.apart start hol hlt other ho

theorem sum_below (hs : start ∈ starts) : ∑ below ∈ starts.filter (· < start), size below = start := by
  induction start using Nat.strong_induction_on with
  | _ start ih =>
    rcases Nat.eq_zero_or_pos start with rfl | hp
    · simp
    · obtain ⟨left, hl, hleft_last, heq⟩ := h.exists_prev hs hp
      have hpos_left := h.pos left hl hleft_last
      have hi : starts.filter (· < start) = insert left (starts.filter (· < left)) := by
        ext other
        simp only [mem_filter, mem_insert]
        constructor
        · rintro ⟨ho, hlt⟩
          rcases h.apart left hl hleft_last other ho with hle | hle
          · rcases Nat.lt_or_eq_of_le hle with hlt' | he
            · exact .inr ⟨ho, hlt'⟩
            · exact .inl he
          · omega
        · rintro (rfl | ⟨ho, hlt⟩)
          · exact ⟨hl, by omega⟩
          · exact ⟨ho, by omega⟩
      rw [hi, sum_insert (by simp), ih left (by omega) hl]
      omega

end

end Tiling

end Gale.Lib
