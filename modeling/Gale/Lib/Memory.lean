import Mathlib

namespace Gale.Lib

open Function

theorem update_cases {α β : Type*} [DecidableEq α] {f : α → β} {place o : α} {new value : β}
    (h : update f place new o = value) :
    o = place ∧ new = value ∨ o ≠ place ∧ f o = value := by
  by_cases heq : o = place
  · subst heq
    rw [update_self] at h
    exact .inl ⟨rfl, h⟩
  · rw [update_of_ne heq] at h
    exact .inr ⟨heq, h⟩

theorem of_update_ne {α β : Type*} [DecidableEq α] {f : α → β} {place o : α} {new value : β}
    (h : update f place new o = value) (hne : new ≠ value) :
    o ≠ place ∧ f o = value :=
  (update_cases h).resolve_left fun heq => hne heq.2

section Memory

variable {β : Type*}

def load (memory : Nat → β) (address n : Nat) : Fin n → β :=
  fun i => memory (address + i)

def store {n : Nat} (memory : Nat → β) (address : Nat) (block : Fin n → β) : Nat → β :=
  fun a => if h : address ≤ a ∧ a < address + n then block ⟨a - address, by omega⟩ else memory a

theorem load_congr {memory o : Nat → β} {addr n : Nat} (h : ∀ a, addr ≤ a → a < addr + n → memory a = o a) :
    load memory addr n = load o addr n := by
  funext i
  exact h (addr + i) (by omega) (by omega)

section

variable {n : Nat} (memory : Nat → β)
include memory

theorem store_of_outside {addr a : Nat} (block : Fin n → β) (h : a < addr ∨ addr + n ≤ a) :
    store memory addr block a = memory a := by
  unfold store
  rw [dif_neg (by omega)]

theorem store_apply (addr : Nat) (block : Fin n → β) {i : Nat} (h : i < n) :
    store memory addr block (addr + i) = block ⟨i, h⟩ := by
  unfold store
  rw [dif_pos (by omega)]
  congr
  omega

@[simp] theorem load_store_self (addr : Nat) (block : Fin n → β) : load (store memory addr block) addr n = block := by
  funext i
  simp [load, store]

theorem load_store_disjoint (addr o m : Nat) (block : Fin n → β) (h : o + m ≤ addr ∨ addr + n ≤ o) :
    load (store memory addr block) o m = load memory o m := by
  funext i
  simp only [load, store]
  rw [dif_neg (by omega)]

theorem load_store_slot (slot : Nat) (block : Fin n → β) : (fun i => load (store memory (slot * n) block) (i * n) n) =
      update (fun i => load memory (i * n) n) slot block := by
  funext i
  by_cases hi : i = slot
  · subst hi
    simp
  · rw [update_of_ne hi]
    apply load_store_disjoint
    rcases Nat.lt_or_gt_of_ne hi with h | h
    · left
      have := Nat.mul_le_mul_right n h
      simpa [Nat.succ_mul] using this
    · right
      have := Nat.mul_le_mul_right n h
      simpa [Nat.succ_mul] using this

end

end Memory

end Gale.Lib
