import Mathlib

namespace Gale.Lib.Slots

open Function

-- A table of a fixed number of slots, searched from the front.

variable {n : Nat} {α : Type*} {p : Fin n → Bool}

def first (p : Fin n → Bool) : Option (Fin n) := (List.finRange n).find? p

theorem of_first_eq_some {i : Fin n} (h : first p = some i) : p i = true :=
  List.find?_some h

theorem of_first_eq_none (h : first p = none) (i : Fin n) : p i = false := by
  have hi := List.find?_eq_none.mp h i (List.mem_finRange i)
  simpa using hi

theorem eq_false_of_lt_first {i j : Fin n} (h : first p = some i) (hj : j < i) : p j = false := by
  obtain ⟨_, k, hk, hg, hb⟩ := List.find?_eq_some_iff_getElem.mp h
  simp only [List.getElem_finRange, Fin.cast_mk] at hg hb
  have hlt : j.val < k := by
    rw [← hg] at hj
    exact hj
  simpa using hb j.val hlt

theorem first_eq_some_of_least {i : Fin n} (hi : p i = true) (hl : ∀ j, j < i → p j = false) : first p = some i := by
  cases h : first p with
  | none =>
    rw [of_first_eq_none h i] at hi
    cases hi
  | some j =>
    have hj := of_first_eq_some h
    rcases lt_trichotomy j i with hlt | heq | hgt
    · rw [hl j hlt] at hj
      cases hj
    · rw [heq]
    · rw [eq_false_of_lt_first h hgt] at hi
      cases hi

def count (p : α → Bool) (table : Fin n → α) : Nat :=
  (Finset.univ.filter fun i => p (table i) = true).card

theorem count_le (p : α → Bool) (tb : Fin n → α) : count p tb ≤ n := by
  have hle := Finset.card_filter_le (Finset.univ : Finset (Fin n)) fun i => p (tb i) = true
  simpa [count] using hle

theorem count_update (p : α → Bool) (tb : Fin n → α) (i : Fin n) (v : α) :
    count p (update tb i v) + (if p (tb i) then 1 else 0) = count p tb + (if p v then 1 else 0) := by
  have hs (f : Fin n → Nat) : ∑ j, f j = f i + ∑ j ∈ Finset.univ.erase i, f j :=
    (Finset.add_sum_erase _ f (Finset.mem_univ i)).symm
  have hr : ∑ j ∈ Finset.univ.erase i, (if p (update tb i v j) then 1 else 0) =
      ∑ j ∈ Finset.univ.erase i, (if p (tb j) then 1 else 0) := by
    apply Finset.sum_congr rfl
    intro j hj
    rw [update_of_ne (Finset.ne_of_mem_erase hj)]
  simp only [count, Finset.card_filter]
  rw [hs, hs fun j => if p (tb j) then 1 else 0, hr, update_self]
  omega

end Gale.Lib.Slots
