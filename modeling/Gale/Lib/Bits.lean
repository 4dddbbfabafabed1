import Mathlib

namespace Gale.Lib.Bits

-- A word read as a set of positions below 32, by shifts and masks.

def isSet (x : UInt32) (i : Nat) : Bool := (x >>> i.toUInt32) &&& 1 == 1

def set (x : UInt32) (i : Nat) : UInt32 := x ||| (1 <<< i.toUInt32)

def clear (x : UInt32) (i : Nat) : UInt32 := x &&& ~~~(1 <<< i.toUInt32)

variable {i j n : Nat} {tag low : UInt32}

theorem toNat_position (hi : i < 32) : i.toUInt32.toNat % 32 = i := by
  simp only [Nat.toUInt32, UInt32.toNat_ofNat']
  omega

variable (x : UInt32)

theorem isSet_eq_getLsbD (hi : i < 32) : isSet x i = x.toBitVec.getLsbD i := by
  have hs : ((x >>> i.toUInt32) &&& 1).toNat = (x.toNat >>> i) % 2 := by
    rw [UInt32.toNat_and, UInt32.toNat_shiftRight, toNat_position hi]
    exact Nat.and_one_is_mod _
  rw [isSet, BitVec.getLsbD, Nat.testBit_eq_decide_div_mod_eq, ← Nat.shiftRight_eq_div_pow,
    UInt32.toNat_toBitVec, ← hs, Bool.eq_iff_iff, beq_iff_eq, decide_eq_true_iff]
  exact ⟨fun h => by rw [h]; rfl, fun h => UInt32.toNat_inj.mp h⟩

theorem getLsbD_single (hi : i < 32) (hj : j < 32) :
    ((1 : UInt32) <<< i.toUInt32).toBitVec.getLsbD j = decide (i = j) := by
  have hp : i % 32 = i := Nat.mod_eq_of_lt hi
  have hb : (!decide (j < i) && decide (j - i = 0)) = decide (i = j) := by
    rw [Bool.eq_iff_iff]
    simp only [Bool.and_eq_true, Bool.not_eq_true', decide_eq_false_iff_not, decide_eq_true_eq]
    omega
  simpa [UInt32.toBitVec_shiftLeft, hj, hp] using hb

@[simp] theorem isSet_zero (i : Nat) : isSet 0 i = false := by
  simp [isSet]

theorem isSet_set (hi : i < 32) (hj : j < 32) : isSet (set x i) j = (isSet x j || decide (i = j)) := by
  rw [isSet_eq_getLsbD _ hj, isSet_eq_getLsbD _ hj, set, UInt32.toBitVec_or, BitVec.getLsbD_or, getLsbD_single hi hj]

theorem isSet_clear (hi : i < 32) (hj : j < 32) : isSet (clear x i) j = (isSet x j && !decide (i = j)) := by
  rw [isSet_eq_getLsbD _ hj, isSet_eq_getLsbD _ hj, clear, UInt32.toBitVec_and,
    BitVec.getLsbD_and, UInt32.toBitVec_not, BitVec.getLsbD_not, getLsbD_single hi hj]
  simp [hj]

theorem and_single_ne_zero (hi : i < 32) : x &&& ((1 : UInt32) <<< i.toUInt32) ≠ 0 ↔ isSet x i = true := by
  have hb : ∀ j < 32, (x &&& ((1 : UInt32) <<< i.toUInt32)).toBitVec.getLsbD j =
      (x.toBitVec.getLsbD j && decide (i = j)) := by
    intro j hj
    rw [UInt32.toBitVec_and, BitVec.getLsbD_and, getLsbD_single hi hj]
  rw [isSet_eq_getLsbD x hi]
  constructor
  · intro hne
    refine Decidable.byContradiction fun ho => ?_
    refine hne (UInt32.eq_of_toBitVec_eq (BitVec.eq_of_getLsbD_eq fun j hj => ?_))
    rw [hb j hj]
    by_cases heq : i = j
    · subst heq
      simpa using ho
    · simp [heq]
  · intro hon hz
    have hs := hb i hi
    rw [hz, hon] at hs
    simp at hs

theorem toNat_lt_of_isSet {x : UInt32} (h : ∀ i, n ≤ i → i < 32 → isSet x i = false) : x.toNat < 2 ^ n := by
  refine Nat.lt_pow_two_of_testBit _ fun i hi => ?_
  by_cases hlt : i < 32
  · have ho := h i hi hlt
    rwa [isSet_eq_getLsbD x hlt] at ho
  · exact Nat.testBit_lt_two_pow (Nat.lt_of_lt_of_le x.toNat_lt
      (Nat.pow_le_pow_right (by decide) (Nat.le_of_not_lt hlt)))

theorem isSet_of_lt {x : UInt32} (h : x.toNat < 2 ^ n) (hn : n ≤ i) (hi : i < 32) : isSet x i = false := by
  rw [isSet_eq_getLsbD x hi]
  exact Nat.testBit_lt_two_pow (Nat.lt_of_lt_of_le h (Nat.pow_le_pow_right (by decide) hn))

theorem shiftRight_eq_zero {x : UInt32} (hn : n < 32) (h : x.toNat < 2 ^ n) : x >>> n.toUInt32 = 0 := by
  apply UInt32.toNat.inj
  rw [UInt32.toNat_shiftRight, toNat_position hn, Nat.shiftRight_eq_div_pow, Nat.div_eq_of_lt h]
  rfl

-- A mask against a word of which some positions were cleared.

theorem and_mask_eq_zero {x mask : UInt32} (h : x &&& mask = 0) (kept : UInt32) : x &&& kept &&& mask = 0 := by
  rw [UInt32.and_assoc, UInt32.and_comm kept, ← UInt32.and_assoc, h, UInt32.zero_and]

theorem and_mask_eq_mask {x kept mask : UInt32} (h : x &&& kept &&& mask = mask) : x &&& mask = mask := by
  calc x &&& mask = x &&& (x &&& kept &&& mask) := by rw [h]
    _ = x &&& kept &&& mask := by simp only [← UInt32.and_assoc, UInt32.and_self]
    _ = mask := h

theorem or_and_distrib (y mask : UInt32) : (x ||| y) &&& mask = x &&& mask ||| y &&& mask := by
  apply UInt32.eq_of_toBitVec_eq
  exact BitVec.and_or_distrib_right

theorem toUInt8_eq_one {x : UInt32} (hx : x.toNat < 256) : x.toUInt8 = 1 ↔ x = 1 := by
  rw [← UInt8.toNat_inj, ← UInt32.toNat_inj, UInt32.toNat_toUInt8, Nat.mod_eq_of_lt hx]
  exact Iff.rfl

-- A double word and its two halves.

def join (lo hi : UInt32) : UInt64 := (hi.toUInt64 <<< 32) ||| lo.toUInt64

def lowWord (x : UInt64) : UInt32 := x.toUInt32

def highWord (x : UInt64) : UInt32 := (x >>> 32).toUInt32

theorem join_split (x : UInt64) : join (lowWord x) (highWord x) = x := by
  have hl : x.toNat % 2 ^ 32 < 2 ^ 32 := Nat.mod_lt _ (by decide)
  have hh : (x.toNat >>> 32 % 2 ^ 32) <<< 32 % 2 ^ 64 = (x.toNat / 2 ^ 32) <<< 32 := by
    have hx := x.toNat_lt
    omega
  apply UInt64.toNat_inj.mp
  calc (join (lowWord x) (highWord x)).toNat
      = (x.toNat >>> 32 % 2 ^ 32) <<< 32 % 2 ^ 64 ||| x.toNat % 2 ^ 32 := by
        simp [join, lowWord, highWord]
    _ = (x.toNat / 2 ^ 32) <<< 32 + x.toNat % 2 ^ 32 := by
        rw [hh, Nat.shiftLeft_add_eq_or_of_lt hl]
    _ = x.toNat := by
        omega

-- A tag above a narrower field in one word.

theorem toNat_field {sh : UInt32} (hs : sh.toNat < 32)
    (ht : tag.toNat < 2 ^ (32 - sh.toNat)) (hl : low.toNat < 2 ^ sh.toNat) :
    (tag <<< sh ||| low).toNat = tag.toNat * 2 ^ sh.toNat + low.toNat := by
  have hp : 2 ^ (32 - sh.toNat) * 2 ^ sh.toNat = 2 ^ 32 := by
    rw [← Nat.pow_add]
    congr 1
    omega
  have hf : tag.toNat * 2 ^ sh.toNat < 2 ^ 32 := by
    rw [← hp]
    exact Nat.mul_lt_mul_of_pos_right ht (Nat.two_pow_pos _)
  have hsh : (tag <<< sh).toNat = tag.toNat <<< sh.toNat := by
    rw [UInt32.toNat_shiftLeft, Nat.mod_eq_of_lt hs, Nat.shiftLeft_eq, Nat.mod_eq_of_lt hf]
  rw [UInt32.toNat_or, hsh, ← Nat.shiftLeft_add_eq_or_of_lt hl, Nat.shiftLeft_eq]

theorem field_shiftRight {sh : UInt32} (hs : sh.toNat < 32)
    (ht : tag.toNat < 2 ^ (32 - sh.toNat)) (hl : low.toNat < 2 ^ sh.toNat) :
    (tag <<< sh ||| low) >>> sh = tag := by
  apply UInt32.toNat.inj
  rw [UInt32.toNat_shiftRight, Nat.mod_eq_of_lt hs, toNat_field hs ht hl,
    Nat.shiftRight_eq_div_pow, Nat.mul_comm, Nat.mul_add_div (Nat.two_pow_pos _),
    Nat.div_eq_of_lt hl, Nat.add_zero]

theorem toNat_and_le (mask : UInt32) : (x &&& mask).toNat ≤ mask.toNat := by
  exact Nat.and_le_right

-- A tag of two bits at the top of a word.

theorem tagged_shiftRight (ht : tag.toNat < 4) (hl : low.toNat < 2 ^ 30) : (tag <<< 30 ||| low) >>> 30 = tag :=
  field_shiftRight (by decide) ht hl

theorem tagged_ne_ones (ht : tag.toNat < 4) (hl : low.toNat < 2 ^ 30 - 1) : tag <<< 30 ||| low ≠ 0xFFFFFFFF := by
  intro h
  have hf : low.toNat < 2 ^ (30 : UInt32).toNat := by
    show low.toNat < 2 ^ 30
    omega
  have hs : (tag <<< 30 ||| low).toNat = tag.toNat * 2 ^ 30 + low.toNat :=
    toNat_field (by decide) ht hf
  have ho : (0xFFFFFFFF : UInt32).toNat = 4294967295 := rfl
  rw [h, ho] at hs
  omega

theorem toNat_and_low {mask : UInt32} {width : Nat} (hm : mask.toNat = 2 ^ width - 1)
    (x : UInt32) : (x &&& mask).toNat = x.toNat % 2 ^ width := by
  rw [UInt32.toNat_and, hm]
  exact Nat.and_two_pow_sub_one_eq_mod x.toNat width

theorem toNat_low_pred {mask : UInt32} {width : Nat} (hw : width ≤ 32)
    (hm : mask.toNat = 2 ^ width - 1) (hn : n < 2 ^ width) :
    ((UInt32.ofNat (n + 1) &&& mask) - 1).toNat % 2 ^ width = n := by
  have hd : 2 ^ width ∣ 2 ^ 32 := Nat.pow_dvd_pow 2 hw
  have ho : (1 : UInt32).toNat = 1 := rfl
  obtain ⟨k, hk⟩ := hd
  calc ((UInt32.ofNat (n + 1) &&& mask) - 1).toNat % 2 ^ width
      = (2 ^ 32 - 1 + (n + 1) % 2 ^ 32 % 2 ^ width) % 2 ^ 32 % 2 ^ width := by
        rw [UInt32.toNat_sub, toNat_and_low hm, UInt32.toNat_ofNat', ho]
    _ = (2 ^ 32 - 1 + (n + 1)) % 2 ^ width := by
        rw [Nat.mod_mod_of_dvd _ ⟨k, hk⟩, Nat.mod_mod_of_dvd _ ⟨k, hk⟩, Nat.add_mod_mod]
    _ = (2 ^ width * k + n) % 2 ^ width := by
        rw [← hk, show 2 ^ 32 - 1 + (n + 1) = 2 ^ 32 + n by omega]
    _ = n := by rw [Nat.mul_add_mod, Nat.mod_eq_of_lt hn]

theorem toNat_and_halfword : (x &&& 0xFFFF).toNat = x.toNat % 2 ^ 16 :=
  toNat_and_low rfl x

-- A tag in the positions that a word of any width leaves free.

section Tagged

variable {width : Nat} {mask tag tag' x x' : BitVec width}

theorem tagged_and_mask (ht : tag &&& mask = tag) (hx : x &&& mask = 0) : (tag ||| x) &&& mask = tag := by
  rw [BitVec.and_or_distrib_right, ht, hx]
  exact BitVec.or_zero

theorem and_not_of_and_eq_zero (hx : x &&& mask = 0) : x &&& ~~~mask = x := by
  apply BitVec.eq_of_getLsbD_eq
  intro i hi
  have hb : (x &&& mask).getLsbD i = false := by rw [hx]; exact BitVec.getLsbD_zero
  rw [BitVec.getLsbD_and] at hb ⊢
  cases hs : x.getLsbD i with
  | false => rfl
  | true => simpa [hs, hi] using hb

theorem tagged_and_not_mask (ht : tag &&& mask = tag) (hx : x &&& mask = 0) : (tag ||| x) &&& ~~~mask = x := by
  have hg : tag &&& ~~~mask = 0 := by
    rw [← ht, BitVec.and_assoc, BitVec.and_not_self]
    exact BitVec.and_zero
  rw [BitVec.and_or_distrib_right, hg, and_not_of_and_eq_zero hx]
  exact BitVec.zero_or

theorem tagged_injective (htg : tag &&& mask = tag) (hx : x &&& mask = 0)
    (ht : tag' &&& mask = tag') (hx' : x' &&& mask = 0) (h : tag ||| x = tag' ||| x') :
    tag = tag' ∧ x = x' := by
  constructor
  · rw [← tagged_and_mask htg hx, h, tagged_and_mask ht hx']
  · rw [← tagged_and_not_mask htg hx, h, tagged_and_not_mask ht hx']

end Tagged

-- A byte of flags, tested against a mask.

def hasFlag (mask flags : UInt8) : Bool := flags &&& mask ≠ 0

theorem hasFlag_or (mask fl o : UInt8) : hasFlag mask (fl ||| o) = (hasFlag mask fl || hasFlag mask o) := by
  have hd : (fl ||| o) &&& mask = (fl &&& mask) ||| (o &&& mask) := by
    apply UInt8.eq_of_toBitVec_eq
    exact BitVec.and_or_distrib_right
  rw [Bool.eq_iff_iff]
  simp only [hasFlag, hd, ne_eq, decide_not, Bool.not_eq_true', decide_eq_false_iff_not,
    Bool.or_eq_true, UInt8.or_eq_zero_iff]
  exact Classical.not_and_iff_not_or_not

theorem hasFlag_and_not (mask flags o : UInt8) : hasFlag mask (flags &&& ~~~o) = hasFlag (~~~o &&& mask) flags := by
  simp only [hasFlag, UInt8.and_assoc]

theorem hasFlag_union (mask o fl : UInt8) : hasFlag (mask ||| o) fl = (hasFlag mask fl || hasFlag o fl) := by
  simp only [hasFlag, UInt8.and_comm fl]
  exact hasFlag_or fl mask o

end Gale.Lib.Bits
