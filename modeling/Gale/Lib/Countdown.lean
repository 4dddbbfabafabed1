import Gale.Lib.Bits

namespace Gale.Lib

-- A count handed to a driver whose calls give back words: w can be the word after
-- k calls. Every call can return; the first count succeed, the word is complete
-- after the last of them and not before, and one more faults.
structure CountsDown {α : Type} (reach : Nat → α → Prop) (fault : α) (complete : α → Prop)
    (count : Nat) : Prop where
  returns : ∀ k, ∃ word, reach k word
  succeeds : ∀ k ≤ count, ∀ word, reach k word → word ≠ fault
  complete_iff : ∀ k ≤ count, ∀ word, reach k word → (complete word ↔ k = count)
  faults : ∀ word, reach (count + 1) word → word = fault

section CountsDown

variable {α : Type} {reach : Nat → α → Prop} {fault : α} {complete : α → Prop} {step : α → α}
  {left : Nat → α → Prop}

theorem left_iterate (hd : ∀ {n word}, left (n + 1) word → left n (step word)) {n : Nat} {word : α}
    (hl : left n word) {k : Nat} (hk : k ≤ n) : left (n - k) (step^[k] word) := by
  induction k with
  | zero => exact hl
  | succ k ih =>
    rw [Function.iterate_succ_apply']
    apply hd
    rw [show n - (k + 1) + 1 = n - k by omega]
    exact ih (by omega)

-- Where the words are those of a step on words that have a number of calls left,
-- the calls count down from that number and from no other.
theorem countsDown_iff {start : α} (hr : ∀ k word, reach k word ↔ word = step^[k] start)
    (hd : ∀ {n word}, left (n + 1) word → left n (step word))
    (hf : ∀ {n word}, left n word → word ≠ fault)
    (hc : ∀ {n word}, left n word → (complete word ↔ n = 0))
    (hdn : ∀ {word}, left 0 word → step word = fault)
    {n : Nat} (hs : left n start) (count : Nat) :
    CountsDown reach fault complete count ↔ count = n := by
  constructor
  · intro h
    rcases Nat.lt_or_ge count n with hlt | hge
    · -- too few: the last word is not complete
      have hl := left_iterate hd hs (Nat.le_of_lt hlt)
      have hz := (hc hl).mp ((h.complete_iff count (Nat.le_refl _) _ ((hr _ _).mpr rfl)).mpr rfl)
      omega
    · -- too many: a word before the last is complete
      have hl := left_iterate hd hs (Nat.le_refl n)
      have hdn := (hc hl).mpr (Nat.sub_self n)
      exact ((h.complete_iff n hge _ ((hr _ _).mpr rfl)).mp hdn).symm
  · rintro rfl
    refine ⟨fun k => ⟨_, (hr k _).mpr rfl⟩, fun k hk word hw => ?_, fun k hk word hw => ?_, fun word hw => ?_⟩
    · rw [(hr k word).mp hw]
      exact hf (left_iterate hd hs hk)
    · rw [(hr k word).mp hw, hc (left_iterate hd hs hk)]
      omega
    · rw [(hr _ word).mp hw, Function.iterate_succ_apply']
      apply hdn
      have hl := left_iterate hd hs (Nat.le_refl count)
      rwa [Nat.sub_self] at hl

end CountsDown

-- A count kept in a field of a word. While it runs the word is active with the
-- count in the field; a step takes the field down by one and the word is done
-- when the field gets to zero. A step on a word that is done faults.
structure FieldCount {α : Type} (step : α → α) (active : UInt32 → α) (done fault : α)
    (complete : α → Prop) (mask : UInt32) (width : Nat) : Prop where
  width_pos : 0 < width
  width_le : width ≤ 32
  mask_eq : mask.toNat = 2 ^ width - 1
  active_congr : ∀ {x y : UInt32}, x.toNat % 2 ^ width = y.toNat % 2 ^ width → active x = active y
  step_active : ∀ x, step (active x) =
    if (x &&& mask) - 1 = 0 then done else active ((x &&& mask) - 1)
  step_done : step done = fault
  active_ne : ∀ x, active x ≠ fault
  done_ne : done ≠ fault
  active_incomplete : ∀ x, ¬ complete (active x)
  done_complete : complete done

-- The words by the steps they have left. A full field reads as zero.
inductive Left {α : Type} (active : UInt32 → α) (done : α) (width : Nat) : Nat → α → Prop
  | done : Left active done width 0 done
  | more {n : Nat} (hn : n < 2 ^ width) : Left active done width (n + 1) (active (UInt32.ofNat (n + 1)))

namespace FieldCount

variable {α : Type} {step : α → α} {active : UInt32 → α} {done fault : α} {complete : α → Prop}
  {mask : UInt32} {width : Nat}

section

variable (h : FieldCount step active done fault complete mask width)
include h

theorem left_step {n : Nat} {word : α} (hl : Left active done width (n + 1) word) :
    Left active done width n (step word) := by
  cases hl with
  | more hn =>
    have hr := Bits.toNat_low_pred h.width_le h.mask_eq hn
    rw [h.step_active]
    cases n with
    | zero =>
      have ho : UInt32.ofNat (0 + 1) &&& mask = 1 := by
        apply UInt32.toNat_inj.mp
        rw [Bits.toNat_and_low h.mask_eq]
        exact Nat.mod_eq_of_lt (Nat.one_lt_two_pow (Nat.ne_of_gt h.width_pos))
      have hz : (UInt32.ofNat (0 + 1) &&& mask) - 1 = 0 := by
        rw [ho, UInt32.sub_self]
      rw [if_pos hz]
      exact .done
    | succ n =>
      have hne : (UInt32.ofNat (n + 1 + 1) &&& mask) - 1 ≠ 0 := by
        intro hz
        rw [hz, UInt32.toNat_zero, Nat.zero_mod] at hr
        exact absurd hr (Nat.succ_ne_zero n).symm
      have hnx : active ((UInt32.ofNat (n + 1 + 1) &&& mask) - 1) = active (UInt32.ofNat (n + 1)) := by
        apply h.active_congr
        rw [hr, UInt32.toNat_ofNat', Nat.mod_mod_of_dvd _ (Nat.pow_dvd_pow 2 h.width_le), Nat.mod_eq_of_lt hn]
      rw [if_neg hne, hnx]
      exact .more (Nat.lt_of_succ_lt hn)

theorem left_active {count : UInt32} (hc : count ≠ 0) :
    Left active done width ((count.toNat - 1) % 2 ^ width + 1) (active count) := by
  have hp : 0 < count.toNat := UInt32.lt_iff_toNat_lt.mp (UInt32.pos_iff_ne_zero.mpr hc)
  have hs : active count = active (UInt32.ofNat ((count.toNat - 1) % 2 ^ width + 1)) := by
    apply h.active_congr
    rw [UInt32.toNat_ofNat', Nat.mod_mod_of_dvd _ (Nat.pow_dvd_pow 2 h.width_le), Nat.mod_add_mod,
      Nat.sub_add_cancel hp]
  rw [hs]
  exact .more (Nat.mod_lt _ (Nat.two_pow_pos _))

theorem countsDown_iff {reach : Nat → α → Prop} {count : UInt32} (hc : count ≠ 0)
    (hr : ∀ k word, reach k word ↔ word = step^[k] (active count)) :
    CountsDown reach fault complete count.toNat ↔ count.toNat ≤ 2 ^ width := by
  have hp : 0 < count.toNat := UInt32.lt_iff_toNat_lt.mp (UInt32.pos_iff_ne_zero.mpr hc)
  have hi : CountsDown reach fault complete count.toNat ↔ count.toNat = (count.toNat - 1) % 2 ^ width + 1 := by
    refine Lib.countsDown_iff hr h.left_step ?_ ?_ ?_ (h.left_active hc) count.toNat
    · intro n word hl
      cases hl with
      | done => exact h.done_ne
      | more hn => exact h.active_ne _
    · intro n word hl
      cases hl with
      | done => exact iff_of_true h.done_complete rfl
      | more hn => exact iff_of_false (h.active_incomplete _) (Nat.succ_ne_zero _)
    · intro word hl
      cases hl
      exact h.step_done
  rw [hi]
  constructor
  · intro heq
    omega
  · intro hle
    rw [Nat.mod_eq_of_lt (by omega)]
    omega

end

end FieldCount

end Gale.Lib
