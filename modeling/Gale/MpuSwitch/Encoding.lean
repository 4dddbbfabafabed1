import Gale.MpuSwitch

namespace Gale.MpuSwitch

open Lib.Pmsa

namespace Request

structure WellFormed (r : Request) : Prop where
  unpriv_lt : r.unpriv < UNPRIV_MAX
  ro_writable : r.unpriv = UNPRIV_RO → r.writable = true
  size_pow : ∃ k, 5 ≤ k ∧ k < 32 ∧ r.size.toNat = 2 ^ k
  aligned : r.base.toNat % r.size.toNat = 0
  in_range : r.base.toNat + r.size.toNat < UInt32.size

def Contains (r : Request) (addr : UInt32) : Prop :=
  r.base.toNat ≤ addr.toNat ∧ addr.toNat < r.base.toNat + r.size.toNat

instance (r : Request) (addr : UInt32) : Decidable (r.Contains addr) :=
  inferInstanceAs (Decidable (_ ∧ _))

def rights (r : Request) : Rights :=
  let privileged : Access := if r.writable then .ReadWrite else .ReadOnly
  ⟨privileged,
    if r.unpriv = UNPRIV_NONE then .NoAccess
    else if r.unpriv = UNPRIV_RO then .ReadOnly
    else privileged⟩

end Request

theorem isPowerOfTwo_pow {size : UInt32} (h : isPowerOfTwo size = true) : ∃ k, k < 32 ∧ size.toNat = 2 ^ k := by
  simp only [isPowerOfTwo, Bool.and_eq_true, decide_eq_true_eq, beq_iff_eq] at h
  obtain ⟨hps, ha⟩ := h
  have hp : 1 ≤ size.toNat := UInt32.lt_iff_toNat_lt.mp hps
  have ho : (1 : UInt32) ≤ size := UInt32.le_iff_toNat_le.mpr hp
  have hz : size.toNat &&& (size.toNat - 1) = 0 := by
    have := congrArg UInt32.toNat ha
    rwa [UInt32.toNat_and, UInt32.toNat_sub_of_le _ _ ho] at this
  obtain ⟨k, hk⟩ := (Nat.and_sub_one_eq_zero_iff_isPowerOfTwo (by omega)).mp hz
  refine ⟨k, ?_, hk⟩
  have hlt := size.toNat_lt
  rw [hk] at hlt
  exact (Nat.pow_lt_pow_iff_right (by decide)).mp hlt

theorem sizeField_pow {size : UInt32} {k : Nat} (hlow : 5 ≤ k) (hhigh : k < 32)
    (hsize : size.toNat = 2 ^ k) : (sizeField size).toNat = k - 1 := by
  have hp : ∀ j : Fin 32, 5 ≤ j.val → (sizeField (UInt32.ofNat (2 ^ j.val))).toNat = j.val - 1 := by
    decide
  have hof : size = UInt32.ofNat (2 ^ k) := by
    rw [← hsize]
    exact (UInt32.ofNat_toNat).symm
  rw [hof]
  exact hp ⟨k, hhigh⟩ hlow

theorem apField_lt (writable : Bool) (unpriv : UInt32) : (apField writable unpriv).toNat < 8 := by
  unfold apField
  split_ifs <;> decide

def Request.region (r : Request) : Region := ⟨r.base, rasrFor r.size r.writable r.unpriv⟩

namespace Request

variable {r : Request} {k : Nat}

section

variable (hlow : 5 ≤ k) (hhi : k < 32) (hsz : r.size.toNat = 2 ^ k)
include hlow hhi hsz

theorem region_rasr : r.region.rasr.toNat = 1 + 2 * (k - 1) + 0x01000000 * (apField r.writable r.unpriv).toNat := by
  have hf := sizeField_pow hlow hhi hsz
  have hap := apField_lt r.writable r.unpriv
  simp only [region, rasrFor, UInt32.toNat_add, UInt32.toNat_mul, hf, UInt32.reduceToNat]
  omega

theorem region_enabled : r.region.enabled = true := by
  simp only [Region.enabled, field, region_rasr hlow hhi hsz, decide_eq_true_eq]
  omega

theorem region_sizeLog : r.region.sizeLog = k := by
  simp only [Region.sizeLog, field, region_rasr hlow hhi hsz]
  omega

theorem region_subregions (addr : UInt32) : r.region.subregionDisabled addr = false := by
  simp only [Region.subregionDisabled, region_sizeLog hlow hhi hsz, decide_eq_false_iff_not]
  rintro ⟨hk, hb⟩
  have hi : addr.toNat % 2 ^ k / 2 ^ (k - 3) < 8 := by
    apply Nat.div_lt_of_lt_mul
    have hs : 2 ^ (k - 3) * 8 = 2 ^ k := by
      rw [show (8 : Nat) = 2 ^ 3 by rfl, ← Nat.pow_add, Nat.sub_add_cancel (by omega)]
    rw [hs]
    exact Nat.mod_lt _ (by positivity)
  generalize addr.toNat % 2 ^ k / 2 ^ (k - 3) = index at hb hi
  simp only [field, region_rasr hlow hhi hsz] at hb
  interval_cases index <;> omega

end

theorem region_rights (h : r.WellFormed) : r.region.rights = r.rights := by
  obtain ⟨k, hlow, hhigh, hsize⟩ := h.size_pow
  have hap : field r.region.rasr 24 3 = (apField r.writable r.unpriv).toNat := by
    have := apField_lt r.writable r.unpriv
    simp only [field, region_rasr hlow hhigh hsize]
    omega
  have hro := h.ro_writable
  simp only [Region.rights, hap, apField, rights]
  cases hw : r.writable <;> split_ifs <;> simp_all

theorem region_hits (h : r.WellFormed) (addr : UInt32) : r.region.hits addr = true ↔ r.Contains addr := by
  obtain ⟨k, hlow, hhigh, hsize⟩ := h.size_pow
  have ha := h.aligned
  have hb : r.region.rbar = r.base := rfl
  simp only [Region.hits, region_enabled hlow hhigh hsize, region_sizeLog hlow hhigh hsize,
    region_subregions hlow hhigh hsize, Contains, ← hsize, hb, decide_eq_true_eq, true_and,
    Bool.false_eq_true, not_false_eq_true, and_true]
  have hp : 0 < r.size.toNat := by
    rw [hsize]
    positivity
  obtain ⟨q, hq⟩ := Nat.dvd_of_mod_eq_zero ha
  rw [hq, Nat.mul_div_cancel_left q hp, Nat.div_eq_iff hp]
  rw [Nat.mul_comm]
  omega

theorem region_not_valid (h : r.WellFormed) : field r.region.rbar 4 1 = 0 := by
  obtain ⟨k, hlow, _, hsize⟩ := h.size_pow
  have ha := h.aligned
  obtain ⟨j, rfl⟩ := Nat.exists_eq_add_of_le hlow
  obtain ⟨q, hq⟩ := Nat.dvd_of_mod_eq_zero ha
  rw [hsize, Nat.pow_add, Nat.mul_assoc] at hq
  simp only [field, region]
  omega

end Request

end Gale.MpuSwitch
