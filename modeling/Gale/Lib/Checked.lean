import Mathlib

namespace Gale.Lib

-- Arithmetic on unsigned integers up to max that stops at an overflow.
section Checked

variable {max a b : Nat}

def checkedAdd (max a b : Nat) : Option Nat := if a + b ≤ max then some (a + b) else none

def checkedSub (a b : Nat) : Option Nat := if b ≤ a then some (a - b) else none

def checkedMul (max a b : Nat) : Option Nat := if a * b ≤ max then some (a * b) else none

theorem checkedAdd_of_le (h : a + b ≤ max) : checkedAdd max a b = some (a + b) := if_pos h

theorem checkedAdd_of_not_le (h : ¬ a + b ≤ max) : checkedAdd max a b = none := if_neg h

theorem checkedAdd_eq_some {c : Nat} (h : checkedAdd max a b = some c) : a + b = c :=
  Option.some.inj (Option.ite_none_right_eq_some.mp h).2

theorem checkedSub_of_le (h : b ≤ a) : checkedSub a b = some (a - b) := if_pos h

theorem checkedMul_of_le (h : a * b ≤ max) : checkedMul max a b = some (a * b) := if_pos h

theorem checkedMul_of_not_le (h : ¬ a * b ≤ max) : checkedMul max a b = none := if_neg h

end Checked

end Gale.Lib
