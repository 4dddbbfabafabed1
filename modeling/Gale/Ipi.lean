import Gale.Kernel
import Gale.Lib.Bits

namespace Gale.Ipi

open Lib

-- From src/ipi.rs.

def MAX_CPUS : Nat := 16

def bit (cpu : Nat) : UInt32 := (1 : UInt32) <<< cpu.toUInt32

-- One turn of the loop of compute_ipi_mask. An index outside a slice panics.
def considerCpu (currentCpu : Nat) (targetPrio : Int32) (targetCpuMask : UInt32)
    (cpuPrios : List Int32) (cpuActive : List Bool) (mask : UInt32) (idx : Nat) : Option UInt32 :=
  if idx ≠ currentCpu then do
    let active ← cpuActive[idx]?
    if active ∧ targetCpuMask &&& bit idx ≠ 0 then
      let prio ← cpuPrios[idx]?
      if prio > targetPrio then return mask ||| bit idx else return mask
    else return mask
  else return mask

def computeIpiMask (currentCpu : Nat) (targetPrio : Int32) (targetCpuMask : UInt32)
    (cpuPrios : List Int32) (cpuActive : List Bool) (numCpus _maxCpus : Nat) : Option UInt32 :=
  (List.range numCpus).foldlM
    (considerCpu currentCpu targetPrio targetCpuMask cpuPrios cpuActive) 0

def validateIpiMask (mask : UInt32) (currentCpu maxCpus : Nat) : Bool :=
  let currentExcluded : Bool := mask &&& bit currentCpu = 0
  let bounded : Bool := mask >>> maxCpus.toUInt32 = 0
  currentExcluded && bounded

-- From ffi/src/lib.rs. A pointer is null or what lies behind it.

def galeComputeIpiMask (currentCpu : Nat) (targetPrio : Int32) (targetCpuMask : UInt32)
    (cpuPrios : Option (Nat → Int32)) (cpuActive : Option (Nat → UInt8)) (numCpus maxCpus : Nat) :
    Option UInt32 :=
  match cpuPrios, cpuActive with
  | some prios, some activeU8 =>
    if numCpus = 0 ∨ currentCpu ≥ numCpus ∨ numCpus > maxCpus ∨ maxCpus > 16 then some 0
    else
      let active := (List.range numCpus).map fun i => activeU8 i != 0
      computeIpiMask currentCpu targetPrio targetCpuMask ((List.range numCpus).map prios) active
        numCpus maxCpus
  | _, _ => some 0

def galeValidateIpiMask (mask : UInt32) (currentCpu maxCpus : Nat) : Int :=
  if currentCpu ≥ maxCpus ∨ maxCpus > 16 then 0
  else if validateIpiMask mask currentCpu maxCpus then 1 else 0

section Loop

variable (currentCpu : Nat) (targetPrio : Int32) (targetCpuMask : UInt32) {cpuPrios : List Int32}
  {cpuActive : List Bool}

def CpuEligible (cpuPrios : List Int32) (cpuActive : List Bool) (i : Nat) : Prop :=
  i ≠ currentCpu ∧ cpuActive[i]? = some true ∧ Bits.isSet targetCpuMask i = true ∧
    ∃ prio, cpuPrios[i]? = some prio ∧ prio > targetPrio

theorem considerCpu_eq (mask : UInt32) {idx : Nat} (hi : idx < 32)
    (hp : idx < cpuPrios.length) (ha : idx < cpuActive.length) :
    ∃ next, considerCpu currentCpu targetPrio targetCpuMask cpuPrios cpuActive mask idx = some next ∧
      (CpuEligible currentCpu targetPrio targetCpuMask cpuPrios cpuActive idx ∧
        next = Bits.set mask idx ∨
      ¬ CpuEligible currentCpu targetPrio targetCpuMask cpuPrios cpuActive idx ∧ next = mask) := by
  have hb : targetCpuMask &&& bit idx ≠ 0 ↔ Bits.isSet targetCpuMask idx = true :=
    Bits.and_single_ne_zero targetCpuMask hi
  have hpr := List.getElem?_eq_getElem hp
  have hac := List.getElem?_eq_getElem ha
  unfold CpuEligible considerCpu
  by_cases hc : idx = currentCpu
  · exact ⟨mask, if_neg (not_not_intro hc), .inr ⟨fun h => h.1 hc, rfl⟩⟩
  rw [if_pos hc, hac, hpr]
  by_cases ho : cpuActive[idx] = true ∧ targetCpuMask &&& bit idx ≠ 0
  · by_cases hl : cpuPrios[idx] > targetPrio
    · refine ⟨mask ||| bit idx, ?_, .inl ⟨⟨hc, ?_, hb.mp ho.2, _, rfl, hl⟩, rfl⟩⟩
      · simp [ho, hl]
      · rw [ho.1]
    · refine ⟨mask, ?_, .inr ⟨?_, rfl⟩⟩
      · simp [ho, hl]
      · rintro ⟨-, -, -, prio, hs, hgt⟩
        cases hs
        exact hl hgt
  · refine ⟨mask, ?_, .inr ⟨?_, rfl⟩⟩
    · simp only [Option.bind_eq_bind, Option.bind_some, if_neg ho]
      rfl
    · rintro ⟨-, hon, hst, -⟩
      exact ho ⟨Option.some.inj hon, hb.mpr hst⟩

theorem loop_exact {count : Nat} (hcn : count ≤ 32) (hp : count ≤ cpuPrios.length) (ha : count ≤ cpuActive.length) :
    ∃ mask, (List.range count).foldlM
        (considerCpu currentCpu targetPrio targetCpuMask cpuPrios cpuActive) 0 = some mask ∧
      ∀ i < 32, Bits.isSet mask i = true ↔
        i < count ∧ CpuEligible currentCpu targetPrio targetCpuMask cpuPrios cpuActive i := by
  induction count with
  | zero => exact ⟨0, rfl, fun i _ => by simp⟩
  | succ count ih =>
    obtain ⟨mask, hm, hb⟩ := ih (by omega) (by omega) (by omega)
    obtain ⟨next, hn, hc⟩ := considerCpu_eq currentCpu targetPrio targetCpuMask mask
      (by omega : count < 32) (by omega : count < cpuPrios.length)
      (by omega : count < cpuActive.length)
    refine ⟨next, ?_, fun i hi => ?_⟩
    · rw [List.range_succ, List.foldlM_append, hm]
      simpa using hn
    · rcases hc with ⟨hel, rfl⟩ | ⟨hnt, rfl⟩
      · rw [Bits.isSet_set mask (by omega : count < 32) hi, Bool.or_eq_true, decide_eq_true_eq, hb i hi]
        constructor
        · rintro (⟨hlt, he⟩ | rfl)
          · exact ⟨by omega, he⟩
          · exact ⟨by omega, hel⟩
        · rintro ⟨hlt, he⟩
          by_cases heq : count = i
          · exact .inr heq
          · exact .inl ⟨by omega, he⟩
      · rw [hb i hi]
        constructor
        · rintro ⟨hlt, he⟩
          exact ⟨by omega, he⟩
        · rintro ⟨hlt, he⟩
          have hne : i ≠ count := by
            rintro rfl
            exact hnt he
          exact ⟨by omega, he⟩

end Loop

theorem validateIpiMask_of_bits {mask : UInt32} {currentCpu cpus : Nat} (hc : currentCpu < 32)
    (hm : cpus < 32) (ho : Bits.isSet mask currentCpu = false)
    (hh : ∀ i, cpus ≤ i → i < 32 → Bits.isSet mask i = false) :
    validateIpiMask mask currentCpu cpus = true := by
  have he : mask &&& bit currentCpu = 0 := by
    by_contra hne
    rw [(Bits.and_single_ne_zero mask hc).mp hne] at ho
    cases ho
  have hb : mask >>> cpus.toUInt32 = 0 :=
    Bits.shiftRight_eq_zero hm (Bits.toNat_lt_of_isSet hh)
  simp [validateIpiMask, he, hb]

theorem computeIpiMask_exact (currentCpu : Nat) (targetPrio : Int32) (targetCpuMask : UInt32)
    {cpuPrios : List Int32} {cpuActive : List Bool} {n cpus : Nat}
    (hn : n ≤ cpus) (hmx : cpus ≤ MAX_CPUS) (hc : currentCpu < n)
    (hp : cpuPrios.length = n) (ha : cpuActive.length = n) :
    ∃ mask, computeIpiMask currentCpu targetPrio targetCpuMask cpuPrios cpuActive n cpus = some mask ∧
      (∀ i < 32, Bits.isSet mask i = true ↔
        i < n ∧ CpuEligible currentCpu targetPrio targetCpuMask cpuPrios cpuActive i) ∧
      validateIpiMask mask currentCpu cpus = true := by
  have hw : cpus < 32 := by
    unfold MAX_CPUS at hmx
    omega
  obtain ⟨mask, hm, hb⟩ := loop_exact currentCpu targetPrio targetCpuMask
    (by omega : n ≤ 32) (by omega : n ≤ cpuPrios.length)
    (by omega : n ≤ cpuActive.length)
  refine ⟨mask, hm, hb, validateIpiMask_of_bits (by omega) hw ?_ fun i hi hlt => ?_⟩
  · rw [Bool.eq_false_iff]
    intro hs
    exact ((hb currentCpu (by omega)).mp hs).2.1 rfl
  · rw [Bool.eq_false_iff]
    intro hs
    have := ((hb i hlt).mp hs).1
    omega

theorem galeComputeIpiMask_accepted {currentCpu cpus maxCpus : Nat} (targetPrio : Int32)
    (targetCpuMask : UInt32) (prios : Nat → Int32) (active : Nat → UInt8)
    (ha : ¬ (cpus = 0 ∨ currentCpu ≥ cpus ∨ cpus > maxCpus ∨ maxCpus > 16)) :
    galeComputeIpiMask currentCpu targetPrio targetCpuMask (some prios) (some active) cpus
        maxCpus =
      computeIpiMask currentCpu targetPrio targetCpuMask ((List.range cpus).map prios)
        ((List.range cpus).map fun i => active i != 0) cpus maxCpus :=
  if_neg ha

theorem galeValidateIpiMask_accepted {mask : UInt32} {currentCpu cpus : Nat} (hc : currentCpu < cpus) (hm : cpus ≤ 16)
    (hv : validateIpiMask mask currentCpu cpus = true) :
    galeValidateIpiMask mask currentCpu cpus = 1 := by
  rw [galeValidateIpiMask, if_neg (by omega), hv]
  rfl

theorem ipi_mask_exact {currentCpu numCpus maxCpus : Nat} (targetPrio : Int32)
    (targetCpuMask : UInt32) (hnum : numCpus ≤ maxCpus) (hmax : maxCpus ≤ MAX_CPUS)
    (hcurrent : currentCpu < numCpus) :
    (∀ cpuPrios cpuActive, cpuPrios.length = numCpus → cpuActive.length = numCpus →
      ∃ mask, computeIpiMask currentCpu targetPrio targetCpuMask cpuPrios cpuActive numCpus maxCpus =
          some mask ∧
        (∀ i < 32, Bits.isSet mask i = true ↔ i < numCpus ∧ i ≠ currentCpu ∧ cpuActive[i]? = some true ∧
            Bits.isSet targetCpuMask i = true ∧
            ∃ prio, cpuPrios[i]? = some prio ∧ prio > targetPrio) ∧
        validateIpiMask mask currentCpu maxCpus = true) ∧
    ∀ prios active, ∃ mask,
      computeIpiMask currentCpu targetPrio targetCpuMask ((List.range numCpus).map prios)
        ((List.range numCpus).map fun i => active i != 0) numCpus maxCpus = some mask ∧
      galeComputeIpiMask currentCpu targetPrio targetCpuMask (some prios) (some active) numCpus
        maxCpus = some mask ∧
      galeValidateIpiMask mask currentCpu maxCpus = 1 := by
  have hmx : maxCpus ≤ 16 := hmax
  refine ⟨fun cpuPrios cpuActive hp ha => ?_, fun prios active => ?_⟩
  · exact computeIpiMask_exact currentCpu targetPrio targetCpuMask hnum hmax hcurrent hp ha
  · obtain ⟨mask, hm, -, hv⟩ := computeIpiMask_exact currentCpu targetPrio targetCpuMask
      hnum hmax hcurrent (by simp : ((List.range numCpus).map prios).length = numCpus)
      (by simp : ((List.range numCpus).map fun i => active i != 0).length = numCpus)
    refine ⟨mask, hm, ?_, galeValidateIpiMask_accepted (by omega) hmx hv⟩
    rw [galeComputeIpiMask_accepted _ _ _ _ (by omega), hm]

theorem ipi_mask_third :
    computeIpiMask 0 5 0b1110 [0, 9, 2, 7] [true, true, true, true] 4 4 = some 0b1010 ∧
      ∃ mask, computeIpiMask 0 5 0b1110 [0, 9, 2, 7] [true, true, true, true] 4 4 = some mask ∧
        validateIpiMask mask 0 4 = true := by
  refine ⟨by decide, ?_⟩
  obtain ⟨mask, hm, -, hv⟩ := (ipi_mask_exact 5 0b1110 (by decide : 4 ≤ 4)
    (by decide) (by decide : 0 < 4)).1 [0, 9, 2, 7] [true, true, true, true] rfl rfl
  exact ⟨mask, hm, hv⟩

end Gale.Ipi
