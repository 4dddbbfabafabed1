import Mathlib

namespace Gale.Mmu

def U32 : Nat := 4294967296

-- From src/mmu.rs.
structure AlignResult where
  alignedAddr : Nat
  addrOffset : Nat
  alignedSize : Nat

-- raw is computed in u64.
def regionAlignDecide (addr size align : Nat) : Option AlignResult :=
  let alignedAddr := addr / align * align
  let addrOffset := addr - alignedAddr
  let raw := (size + addrOffset + align - 1) / align * align
  if raw > U32 - 1 then none else some ⟨alignedAddr, addrOffset, raw⟩

-- From ffi/src/lib.rs.
def galeMmuRegionAlign (addr size align : Nat) : AlignResult :=
  if align = 0 then ⟨0, 0, 0⟩
  else if addr + size > U32 - 1 then ⟨0, 0, 0⟩
  else
    match regionAlignDecide addr size align with
    | some r => r
    | none => ⟨0, 0, 0⟩

-- From zephyr/gale_mmu.c: what is stored at aligned_addr and aligned_size, and the offset
-- returned. uintptr_t and size_t may be wider than the uint32_t they are cast to.
def galeKMemRegionAlign (addr size align : Nat) : AlignResult :=
  galeMmuRegionAlign (addr % U32) (size % U32) (align % U32)

-- The multiples of align that a region from base needs to contain [addr, addr + size).
def Sizes (base addr size align : Nat) : Set Nat :=
  fun length => align ∣ length ∧ addr + size ≤ base + length

structure Covers (w addr size align : Nat) (r : AlignResult) : Prop where
  exact : r.alignedSize ≠ 0 → IsGreatest (fun base => align ∣ base ∧ base ≤ addr) r.alignedAddr ∧
    r.addrOffset = addr - r.alignedAddr ∧
    IsLeast (Sizes r.alignedAddr addr size align) r.alignedSize
  zero : r.alignedSize = 0 → ∀ base length, IsGreatest (fun base => align ∣ base ∧ base ≤ addr) base →
    IsLeast (Sizes base addr size align) length → length = 0 ∨ 2 ^ w ≤ length

def alignedSize (addr size align : Nat) : Nat := (size + addr % align + align - 1) / align * align

def Refused (addr size align : Nat) : Prop :=
  align = 0 ∨ U32 ≤ addr + size ∨ alignedSize addr size align = 0 ∨ U32 ≤ alignedSize addr size align

section Align

variable {w addr size align : Nat}

theorem sub_base (addr align : Nat) : addr - addr / align * align = addr % align := by
  have hd := Nat.div_add_mod' addr align
  omega

theorem galeMmuRegionAlign_eq (addr size align : Nat) : galeMmuRegionAlign addr size align =
    if align = 0 ∨ U32 ≤ addr + size ∨ U32 ≤ alignedSize addr size align then ⟨0, 0, 0⟩
    else ⟨addr / align * align, addr % align, alignedSize addr size align⟩ := by
  have hl (n : Nat) : n > U32 - 1 ↔ U32 ≤ n := by
    rw [U32]
    omega
  simp only [galeMmuRegionAlign, regionAlignDecide, alignedSize, sub_base, hl]
  by_cases ha : align = 0
  · simp [ha]
  · by_cases hs : U32 ≤ addr + size
    · simp [ha, hs]
    · simp only [ha, hs, if_false, false_or]
      split_ifs <;> rfl

theorem galeMmuRegionAlign_size_eq_zero :
    (galeMmuRegionAlign addr size align).alignedSize = 0 ↔ Refused addr size align := by
  rw [galeMmuRegionAlign_eq, Refused]
  split_ifs with h
  · simp only [true_iff]
    tauto
  · simp only [not_or] at h
    simp [h]

theorem greatest_base (hp : 0 < align) :
    IsGreatest (fun base => align ∣ base ∧ base ≤ addr) (addr / align * align) := by
  refine ⟨⟨Nat.dvd_mul_left _ _, Nat.div_mul_le_self _ _⟩, ?_⟩
  rintro _ ⟨⟨k, rfl⟩, hk⟩
  rw [Nat.mul_comm align k] at hk ⊢
  exact Nat.mul_le_mul_right _ ((Nat.le_div_iff_mul_le hp).mpr hk)

theorem le_alignedSize (hp : 0 < align) : size + addr % align ≤ alignedSize addr size align := by
  have hd := Nat.div_add_mod' (size + addr % align + align - 1) align
  have hm := Nat.mod_lt (size + addr % align + align - 1) hp
  rw [alignedSize]
  omega

theorem least_size (hp : 0 < align) :
    IsLeast (Sizes (addr / align * align) addr size align) (alignedSize addr size align) := by
  have hb := Nat.div_add_mod' addr align
  refine ⟨⟨Nat.dvd_mul_left _ _, ?_⟩, ?_⟩
  · have hle := @le_alignedSize addr size align hp
    omega
  · rintro _ ⟨⟨k, rfl⟩, hk⟩
    have hlt : size + addr % align + align - 1 < (k + 1) * align := by
      rw [Nat.succ_mul, Nat.mul_comm k]
      omega
    rw [alignedSize, Nat.mul_comm align k]
    exact Nat.mul_le_mul_right _ (Nat.lt_succ_iff.mp ((Nat.div_lt_iff_lt_mul hp).mpr hlt))

theorem covers_of_zero {r : AlignResult} (hp : 0 < align) (hr : r.alignedSize = 0) : Covers w addr size align r ↔
      alignedSize addr size align = 0 ∨ 2 ^ w ≤ alignedSize addr size align := by
  refine ⟨fun h => h.zero hr _ _ (greatest_base hp) (least_size hp), fun h => ?_⟩
  refine ⟨fun hne => absurd hr hne, fun _ base length hb hl => ?_⟩
  rw [hb.unique (greatest_base hp)] at hl
  rwa [hl.unique (least_size hp)]

theorem covers_of_pos {r : AlignResult} (hp : 0 < align) (hr : r.alignedSize ≠ 0) : Covers w addr size align r ↔
      r = ⟨addr / align * align, addr % align, alignedSize addr size align⟩ := by
  refine ⟨fun h => ?_, ?_⟩
  · obtain ⟨hb, ho, hs⟩ := h.exact hr
    have heq := hb.unique (greatest_base hp)
    rw [heq] at ho hs
    rw [AlignResult.mk.injEq]
    exact ⟨heq, ho.trans (sub_base _ _), hs.unique (least_size hp)⟩
  · rintro rfl
    exact ⟨fun _ => ⟨greatest_base hp, (sub_base _ _).symm, least_size hp⟩, fun hz => absurd hz hr⟩

end Align

-- The rounded region is in the low 32 bits, or it is refused rightly.
def Kept (w addr size align : Nat) : Prop :=
  addr + size < U32 ∧ align < U32 ∧ alignedSize addr size align < U32 ∨
    (alignedSize addr size align = 0 ∨ 2 ^ w ≤ alignedSize addr size align) ∧
      Refused (addr % U32) (size % U32) (align % U32)

theorem region_align_iff (w addr size align : Nat) (hp : 0 < align) :
    Covers w addr size align (galeKMemRegionAlign addr size align) ↔ Kept w addr size align := by
  by_cases hr : (galeKMemRegionAlign addr size align).alignedSize = 0
  · have hrf := galeMmuRegionAlign_size_eq_zero.mp hr
    rw [covers_of_zero hp hr, Kept]
    refine ⟨fun h => .inr ⟨h, hrf⟩, ?_⟩
    rintro (⟨hsm, hal, hs⟩ | ⟨h, -⟩)
    · rw [Nat.mod_eq_of_lt (show addr < U32 by omega), Nat.mod_eq_of_lt (show size < U32 by omega),
        Nat.mod_eq_of_lt hal, Refused] at hrf
      omega
    · exact h
  · have ha := mt galeMmuRegionAlign_size_eq_zero.mpr hr
    rw [covers_of_pos hp hr, Kept, or_iff_left (fun h => ha h.2), galeKMemRegionAlign,
      galeMmuRegionAlign_eq]
    simp only [Refused, not_or, Nat.not_le] at ha
    obtain ⟨hne, hsm, hz, hf⟩ := ha
    rw [if_neg (by omega)]
    constructor
    · intro h
      obtain ⟨hb, ho, hs⟩ := AlignResult.mk.inj h
      have had : addr % U32 = addr := by
        rw [← Nat.div_add_mod' (addr % U32) (align % U32), hb, ho, Nat.div_add_mod']
      have hle := @le_alignedSize addr size align hp
      have hd : align ∣ alignedSize addr size align := Nat.dvd_mul_left _ _
      have hal := Nat.le_of_dvd (by omega) hd
      have hm : size % U32 = size := Nat.mod_eq_of_lt (by omega)
      omega
    · rintro ⟨hl, hal, -⟩
      rw [Nat.mod_eq_of_lt (show addr < U32 by omega), Nat.mod_eq_of_lt (show size < U32 by omega),
        Nat.mod_eq_of_lt hal]

theorem kept_on_32_bits {addr size align : Nat} (hsm : addr + size < U32) (ha : align < U32) :
    Kept 32 addr size align := by
  by_cases hs : alignedSize addr size align < U32
  · exact .inl ⟨hsm, ha, hs⟩
  · refine .inr ⟨.inr (Nat.not_lt.mp hs), ?_⟩
    rw [Nat.mod_eq_of_lt (show addr < U32 by omega), Nat.mod_eq_of_lt (show size < U32 by omega), Nat.mod_eq_of_lt ha]
    exact .inr (.inr (.inr (Nat.not_lt.mp hs)))

theorem low_page_covered : 0 < 4096 ∧ Covers 64 5000 100 4096 (galeKMemRegionAlign 5000 100 4096) :=
  ⟨by decide, (region_align_iff 64 5000 100 4096 (by decide)).mpr (.inl (by decide))⟩

-- A page above 4 GiB on a 64-bit target: the region that is mapped is at zero.
theorem high_page_truncated : galeKMemRegionAlign 4294967296 4096 4096 = ⟨0, 0, 4096⟩ ∧
    ¬ 4294967296 + 4096 ≤ 0 + 4096 :=
  ⟨rfl, by decide⟩

end Gale.Mmu
