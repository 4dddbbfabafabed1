import Gale.Lib.Checked

namespace Gale.Mpu

open Lib

-- From src/mpu.rs. The fields are u32; none is a panic.
def U32_MAX : Nat := 4294967295

def MIN_REGION_SIZE : Nat := 32

structure MpuRegion where
  base : Nat
  size : Nat

def validateRegion (base size : Nat) : Bool :=
  if size = 0 then false
  else
    let powerOfTwo := size &&& (size - 1) == 0
    let minSize := size ≥ MIN_REGION_SIZE
    let aligned := base &&& (size - 1) == 0
    let noOverflow := (checkedAdd U32_MAX base size).isSome
    powerOfTwo && minSize && aligned && noOverflow

def regionsOverlap (r1 r2 : MpuRegion) : Option Bool := do
  let r1End ← checkedAdd U32_MAX r1.base r1.size
  let r2End ← checkedAdd U32_MAX r2.base r2.size
  return r1.base < r2End && r2.base < r1End

def validateRegionSet (regions : List MpuRegion) (count : Nat) : Option Bool := do
  let each ← (List.range count).allM fun i => do
    let r ← regions[i]?
    return validateRegion r.base r.size
  if !each then return false
  (List.range count).allM fun i2 =>
    (List.range count).allM fun j =>
      if i2 ≠ j then do
        let ri ← regions[i2]?
        let rj ← regions[j]?
        if (checkedAdd U32_MAX ri.base ri.size).isNone || (checkedAdd U32_MAX rj.base rj.size).isNone then
          return false
        return !(← regionsOverlap ri rj)
      else return true

namespace MpuRegion

def Contains (r : MpuRegion) (address : Nat) : Prop := r.base ≤ address ∧ address < r.base + r.size

structure Valid (r : MpuRegion) : Prop where
  power : ∃ k, r.size = 2 ^ k
  least : 32 ≤ r.size
  aligned : r.size ∣ r.base
  inRange : r.base + r.size ≤ U32_MAX

def Apart (r other : MpuRegion) : Prop := ∀ address, ¬ (r.Contains address ∧ other.Contains address)

theorem Apart.symm {r o : MpuRegion} (h : Apart r o) : Apart o r :=
  fun addr hb => h addr hb.symm

def meets (r other : MpuRegion) : Bool :=
  r.base < other.base + other.size && other.base < r.base + r.size

theorem meets_eq_false {r other : MpuRegion} (hr : r.Valid) (ho : other.Valid) :
    r.meets other = false ↔ Apart r other := by
  have hps := hr.least
  have hp := ho.least
  rw [meets, ← Bool.not_eq_true, Bool.and_eq_true, decide_eq_true_iff, decide_eq_true_iff]
  refine ⟨fun h addr hb => ?_, fun h hm => ?_⟩
  · simp only [Contains] at hb
    omega
  · refine h (max r.base other.base) ?_
    simp only [Contains]
    omega

end MpuRegion

theorem validateRegion_iff (r : MpuRegion) : validateRegion r.base r.size = true ↔ r.Valid := by
  by_cases hz : r.size = 0
  · simp only [validateRegion, hz, if_true, Bool.false_eq_true, false_iff]
    intro h
    have := h.least
    omega
  have hp := Nat.and_sub_one_eq_zero_iff_isPowerOfTwo hz
  have had : (checkedAdd U32_MAX r.base r.size).isSome ↔ r.base + r.size ≤ U32_MAX := by
    simp [checkedAdd]
  simp only [validateRegion, hz, if_false, Bool.and_eq_true, beq_iff_eq, decide_eq_true_eq, hp, had]
  constructor
  · rintro ⟨⟨⟨⟨k, hk⟩, hl⟩, ha⟩, hr⟩
    rw [hk, Nat.and_two_pow_sub_one_eq_mod] at ha
    exact ⟨⟨k, hk⟩, hl, hk ▸ Nat.dvd_of_mod_eq_zero ha, hr⟩
  · rintro ⟨⟨k, hk⟩, hl, ha, hr⟩
    refine ⟨⟨⟨⟨k, hk⟩, hl⟩, ?_⟩, hr⟩
    rw [hk, Nat.and_two_pow_sub_one_eq_mod]
    exact Nat.mod_eq_zero_of_dvd (hk ▸ ha)

theorem allM_eq_some {α : Type} {p : α → Option Bool} {q : α → Bool} {l : List α}
    (h : ∀ a ∈ l, p a = some (q a)) : l.allM p = some (l.all q) := by
  induction l with
  | nil => rfl
  | cons a rest ih =>
    rw [List.allM, h a List.mem_cons_self, List.all_cons]
    cases q a with
    | true => exact ih fun b hb => h b (List.mem_cons_of_mem _ hb)
    | false => rfl

def Sound (regions : List MpuRegion) : Prop := (∀ r ∈ regions, r.Valid) ∧ regions.Pairwise MpuRegion.Apart

section Set

open MpuRegion

variable {regions : List MpuRegion} {count : Nat} {region : Nat → MpuRegion}

theorem sound_take_iff (h : ∀ i < count, regions[i]? = some (region i)) : Sound (regions.take count) ↔
    (∀ i < count, (region i).Valid) ∧ ∀ i < count, ∀ j < count, i ≠ j → (region i).Apart (region j) := by
  have ht : regions.take count = (List.range count).map region := by
    refine List.ext_getElem? fun i => ?_
    by_cases hi : i < count
    · simp [hi, h i hi]
    · simp [List.getElem?_take, hi]
  rw [ht, Sound, List.pairwise_map, List.forall_mem_map]
  simp only [List.mem_range]
  refine and_congr_right fun _ => ?_
  rw [List.pairwise_iff_getElem]
  simp only [List.length_range, List.getElem_range]
  constructor
  · intro hp i hi j hj hne
    rcases Nat.lt_or_gt_of_ne hne with hlt | hlt
    · exact hp i j hi hj hlt
    · exact (hp j i hj hi hlt).symm
  · exact fun ha i j hi hj hlt => ha i hi j hj (Nat.ne_of_lt hlt)

theorem regionsOverlap_eq {r o : MpuRegion} (hr : r.Valid) (ho : o.Valid) : regionsOverlap r o = some (r.meets o) := by
  rw [regionsOverlap, checkedAdd_of_le hr.inRange, checkedAdd_of_le ho.inRange]
  rfl

theorem validateRegionSet_eq (h : ∀ i < count, regions[i]? = some (region i)) :
    ∃ answer, validateRegionSet regions count = some answer ∧ (answer = true ↔ Sound (regions.take count)) := by
  have he : (List.range count).allM (fun i => do
      let r ← regions[i]?
      return validateRegion r.base r.size) =
      some ((List.range count).all fun i => validateRegion (region i).base (region i).size) :=
    allM_eq_some fun i hi => by simp [h i (List.mem_range.mp hi)]
  rw [sound_take_iff h, validateRegionSet, he]
  cases hv : (List.range count).all fun i => validateRegion (region i).base (region i).size with
  | false =>
    refine ⟨false, rfl, ?_⟩
    obtain ⟨i, hi, hin⟩ := List.all_eq_false.mp hv
    simp only [Bool.false_eq_true, false_iff]
    exact fun hs => hin ((validateRegion_iff _).mpr (hs.1 i (List.mem_range.mp hi)))
  | true =>
    have ha (i : Nat) (hi : i < count) : (region i).Valid :=
      (validateRegion_iff _).mp (List.all_eq_true.mp hv i (List.mem_range.mpr hi))
    refine ⟨(List.range count).all fun i => (List.range count).all fun j =>
      i == j || !(region i).meets (region j), ?_, ?_⟩
    · refine allM_eq_some fun i hi => allM_eq_some fun j hj => ?_
      rw [List.mem_range] at hi hj
      by_cases hij : i = j
      · simp [hij]
      · simp [hij, h i hi, h j hj, checkedAdd_of_le (ha i hi).inRange,
          checkedAdd_of_le (ha j hj).inRange, regionsOverlap_eq (ha i hi) (ha j hj)]
    · simp only [List.all_eq_true, List.mem_range, Bool.or_eq_true, beq_iff_eq, Bool.not_eq_true']
      refine ⟨fun hp => ⟨ha, fun i hi j hj hne => ?_⟩, fun hs i hi j hj => ?_⟩
      · exact (meets_eq_false (ha i hi) (ha j hj)).mp ((hp i hi j hj).resolve_left hne)
      · by_cases hij : i = j
        · exact .inl hij
        · exact .inr ((meets_eq_false (ha i hi) (ha j hj)).mpr (hs.2 i hi j hj hij))

theorem Sound.perm {os : List MpuRegion} (hp : os.Perm regions) : Sound os ↔ Sound regions :=
  and_congr (by simp only [hp.mem_iff]) (hp.pairwise_iff MpuRegion.Apart.symm)

end Set

theorem region_set_exact {regions : List MpuRegion} {count : Nat} (hc : count ≤ regions.length) :
    (∃ answer, validateRegionSet regions count = some answer ∧
      (answer = true ↔ Sound (regions.take count))) ∧
    ∀ others : List MpuRegion, (others.take count).Perm (regions.take count) →
      validateRegionSet others count = validateRegionSet regions count := by
  have hat {l : List MpuRegion} (hl : count ≤ l.length) (i : Nat) (hi : i < count) :
      l[i]? = some (l.getD i ⟨0, 0⟩) := by
    simp [Nat.lt_of_lt_of_le hi hl]
  obtain ⟨answer, heq, ha⟩ := validateRegionSet_eq (hat hc)
  refine ⟨⟨answer, heq, ha⟩, fun others hp => ?_⟩
  have hln : count ≤ others.length := by
    have := hp.length_eq
    simp only [List.length_take] at this
    omega
  obtain ⟨other, he, ho⟩ := validateRegionSet_eq (hat hln)
  rw [heq, he, Bool.eq_iff_iff.mpr (ho.trans ((Sound.perm hp).trans ha.symm))]

theorem two_regions_accepted : ∃ answer, validateRegionSet [⟨64, 64⟩, ⟨0, 32⟩] 2 = some answer ∧
    (answer = true ↔ Sound [⟨64, 64⟩, ⟨0, 32⟩]) :=
  (region_set_exact (by decide)).1

end Gale.Mpu
