import Mathlib

namespace Gale.Lib

open Function

-- A list kept sorted by a key in an array of optional cells.
section SortedArray

variable {α κ : Type*} [LinearOrder κ] (key : α → κ)

-- The position before the first cell of a larger key; none where the cell is empty.
def findPosition (cells : Nat → Option α) (x : α) (i : Nat) : Nat → Option Nat
  | 0 => some i
  | remaining + 1 =>
    (cells i).bind fun entry =>
      if key x < key entry then some i else findPosition cells x (i + 1) remaining

def shiftRight (position : Nat) : Nat → (Nat → Option α) → Nat → Option α
  | 0, cells => cells
  | count + 1, cells =>
    let j := position + count + 1
    shiftRight position count
      (update (update cells j (cells (j - 1))) (j - 1) none)

def shiftLeft (cells : Nat → Option α) (i : Nat) : Nat → Nat → Option α
  | 0 => cells
  | remaining + 1 =>
    shiftLeft (update (update cells i (cells (i + 1))) (i + 1) none) (i + 1) remaining

def clear (cells : Nat → Option α) (i : Nat) : Nat → Nat → Option α
  | 0 => cells
  | remaining + 1 => clear (update cells i none) (i + 1) remaining

theorem findPosition_eq {cells : Nat → Option α} {i : Nat} {xs : List α} (h : ∀ k, cells (i + k) = xs[k]?) (x : α) :
    ∃ k ≤ xs.length, findPosition key cells x i xs.length = some (i + k) ∧
      xs.orderedInsert (fun a b => key a < key b) x = xs.insertIdx k x := by
  induction xs generalizing i with
  | nil => exact ⟨0, Nat.le_refl _, rfl, rfl⟩
  | cons entry rest ih =>
    have he : cells i = some entry := h 0
    rw [List.length_cons, findPosition, he, Option.bind_some]
    by_cases hlt : key x < key entry
    · refine ⟨0, Nat.zero_le _, if_pos hlt, ?_⟩
      rw [List.orderedInsert_cons, if_pos hlt, List.insertIdx_zero]
    · obtain ⟨k, hk, hf, hi⟩ := ih fun k => by
        rw [show i + 1 + k = i + (k + 1) by omega, h, List.getElem?_cons_succ]
      refine ⟨k + 1, Nat.succ_le_succ hk, ?_, ?_⟩
      · rw [if_neg hlt, hf, Nat.add_right_comm, Nat.add_assoc]
      · rw [List.orderedInsert_cons, if_neg hlt, List.insertIdx_succ_cons, hi]

theorem shiftRight_apply {p i : Nat} (hne : i ≠ p) (count : Nat)
    (cells : Nat → Option α) : shiftRight p count cells i =
      if p < i ∧ i ≤ p + count then cells (i - 1) else cells i := by
  induction count generalizing cells with
  | zero => rw [if_neg (by omega), shiftRight]
  | succ count ih =>
    simp only [shiftRight, ih, update_apply]
    split_ifs <;> first | rfl | omega | (congr 1; omega)

theorem shiftLeft_apply (cells : Nat → Option α) (i rem k : Nat) : shiftLeft cells i rem k =
      if i ≤ k ∧ k < i + rem then cells (k + 1)
      else if k = i + rem ∧ 0 < rem then none else cells k := by
  induction rem generalizing cells i with
  | zero => rw [if_neg (by omega), if_neg (by omega), shiftLeft]
  | succ rem ih =>
    simp only [shiftLeft, ih, update_apply]
    split_ifs <;> first | rfl | omega | (congr 1; omega)

theorem clear_apply (cells : Nat → Option α) (i rem k : Nat) :
    clear cells i rem k = if i ≤ k ∧ k < i + rem then none else cells k := by
  induction rem generalizing cells i with
  | zero => rw [if_neg (by omega), clear]
  | succ rem ih =>
    simp only [clear, ih, update_apply]
    split_ifs <;> first | rfl | omega

variable {cells : Nat → Option α} {xs : List α} (h : ∀ k, cells k = xs[k]?)
include h

theorem insertIdx_cells {p : Nat} (hle : p ≤ xs.length) (x : α) (k : Nat) :
    update (shiftRight p (xs.length - p) cells) p (some x) k = (xs.insertIdx p x)[k]? := by
  rw [update_apply, List.getElem?_insertIdx]
  by_cases heq : k = p
  · simp [heq, hle]
  rw [if_neg heq, shiftRight_apply heq, if_neg heq, h, h]
  split_ifs
  · omega
  · rfl
  · rfl
  · rw [List.getElem?_eq_none (by omega), List.getElem?_eq_none (by omega)]

theorem tail_cells (hne : xs ≠ []) (k : Nat) : shiftLeft (update cells 0 none) 0 (xs.length - 1) k = xs.tail[k]? := by
  have hp := List.length_pos_iff.mpr hne
  rw [shiftLeft_apply, List.getElem?_tail]
  split_ifs with hb hl
  · rw [update_of_ne (by omega), h]
  · rw [List.getElem?_eq_none (by omega)]
  · rw [List.getElem?_eq_none (by omega), update_apply, h]
    split_ifs
    · rfl
    · exact List.getElem?_eq_none (by omega)

theorem clear_cells (k : Nat) : clear cells 0 xs.length k = none := by
  rw [clear_apply, h]
  split_ifs with hb
  · rfl
  · exact List.getElem?_eq_none (by omega)

end SortedArray

section Stable

variable {α κ : Type*} [LinearOrder κ] (key : α → κ)

theorem orderedInsert_comm (x a : α) (xs : List α) :
    (xs.orderedInsert (fun a b => key a < key b) x).orderedInsert (fun a b => key a ≤ key b) a =
      (xs.orderedInsert (fun a b => key a ≤ key b) a).orderedInsert (fun a b => key a < key b) x := by
  induction xs with
  | nil =>
    by_cases hle : key a ≤ key x
    · simp [hle, not_lt.mpr hle]
    · simp [hle, not_le.mp hle]
  | cons b rest ih =>
    by_cases hx : key x < key b <;> by_cases ha : key a ≤ key b
    · by_cases hle : key a ≤ key x
      · simp [hx, ha, hle, not_lt.mpr hle]
      · simp [hx, ha, hle, not_le.mp hle]
    · have hle : ¬ key a ≤ key x := fun hle => ha (hle.trans hx.le)
      simp [hx, ha, hle]
    · have hlt : ¬ key x < key a := fun hlt => hx (hlt.trans_le ha)
      simp [hx, ha, hlt]
    · simp [hx, ha, ih]

theorem insertionSort_concat (x : α) (xs : List α) : (xs ++ [x]).insertionSort (fun a b => key a ≤ key b) =
      (xs.insertionSort fun a b => key a ≤ key b).orderedInsert (fun a b => key a < key b) x := by
  induction xs with
  | nil => rfl
  | cons a rest ih =>
    rw [List.cons_append, List.insertionSort_cons, ih, orderedInsert_comm, List.insertionSort_cons]

theorem insertionSort_eq_cons [DecidableEq α] {m : α} {xs : List α} (h : xs.argmin key = some m) :
    xs.insertionSort (fun a b => key a ≤ key b) = m :: (xs.erase m).insertionSort fun a b => key a ≤ key b := by
  induction xs generalizing m with
  | nil => cases h
  | cons a rest ih =>
    rw [List.argmin_cons] at h
    cases hr : rest.argmin key with
    | none =>
      rw [hr] at h
      cases h
      rw [List.argmin_eq_none.mp hr]
      simp
    | some c =>
      simp only [hr] at h
      have hs := ih hr
      by_cases hlt : key c < key a
      · rw [if_pos hlt] at h
        cases h
        have hne : a ≠ m := fun heq => absurd (heq ▸ hlt) (lt_irrefl _)
        rw [List.insertionSort_cons, hs, List.orderedInsert_cons, if_neg (not_le.mpr hlt),
          List.erase_cons_tail (by simpa using hne), List.insertionSort_cons]
      · rw [if_neg hlt] at h
        cases h
        rw [List.erase_cons_head, List.insertionSort_cons, hs, List.orderedInsert_cons, if_pos (not_lt.mp hlt)]

end Stable

end Gale.Lib
