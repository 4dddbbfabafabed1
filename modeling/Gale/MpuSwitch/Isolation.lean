import Gale.Mpu
import Gale.MpuSwitch.Encoding

namespace Gale.MpuSwitch

open Lib.Pmsa

variable {part : Fin MAX_PARTITIONS}

theorem slotOf_inj {p' : Fin MAX_PARTITIONS} {r r' : Fin MAX_REGIONS} :
    slotOf part r = slotOf p' r' ↔ part = p' ∧ r = r' := by
  refine ⟨fun h => ?_, fun h => by rw [h.1, h.2]⟩
  have hv : part.val * 8 + r.val = p'.val * 8 + r'.val := congrArg Fin.val h
  have hr : r.val < 8 := r.isLt
  have hr' : r'.val < 8 := r'.isLt
  exact ⟨Fin.ext (by omega), Fin.ext (by omega)⟩

namespace RegionTable

def request (t : RegionTable) (part : Fin MAX_PARTITIONS) (r : Fin MAX_REGIONS) : Option Request :=
  let i := slotOf part r
  if t.enabled i then
    some ⟨UInt32.ofNat part, t.base i, t.size i, t.writable i, t.unpriv i⟩
  else none

theorem request_new (part : Fin MAX_PARTITIONS) (r : Fin MAX_REGIONS) : new.request part r = none := rfl

theorem request_insert (t : RegionTable) {part : Fin MAX_PARTITIONS} (f : Fin MAX_REGIONS)
    {request : Request} (hp : request.part = UInt32.ofNat part) (p' : Fin MAX_PARTITIONS)
    (r : Fin MAX_REGIONS) :
    (t.insert (slotOf part f) request).request p' r =
      if p' = part ∧ r = f then some request else t.request p' r := by
  by_cases h : p' = part ∧ r = f
  · obtain ⟨rfl, rfl⟩ := h
    simp [RegionTable.request, insert, ← hp]
  · have hne : slotOf p' r ≠ slotOf part f := fun heq => h (slotOf_inj.mp heq)
    simp [RegionTable.request, insert, Function.update_of_ne hne, h]

theorem of_gate {α : Type*} {refuses : Prop} [Decidable refuses] {no yes result : α}
    (h : (if refuses then no else yes) = result) (hne : result ≠ no) :
    ¬ refuses ∧ yes = result := by
  by_cases hr : refuses
  · rw [if_pos hr] at h
    exact absurd h.symm hne
  · rw [if_neg hr] at h
    exact ⟨hr, h⟩

theorem wellFormed_of_gates {request : Request} (hm : ¬ request.unpriv ≥ UNPRIV_MAX)
    (hro : ¬ (request.unpriv = UNPRIV_RO ∧ !request.writable))
    (hp : ¬ (!isPowerOfTwo request.size) = true) (hmn : ¬ request.size < MIN_REGION_SIZE)
    (ha : ¬ request.base % request.size ≠ 0)
    (hr : ¬ request.base.toNat + request.size.toNat ≥ UInt32.size) : request.WellFormed where
  unpriv_lt := UInt32.not_le.mp hm
  ro_writable := by simpa using hro
  size_pow := by
    obtain ⟨k, hk, hs⟩ := isPowerOfTwo_pow (by simpa using hp)
    have hl : 32 ≤ request.size.toNat := UInt32.le_iff_toNat_le.mp (UInt32.not_lt.mp hmn)
    refine ⟨k, ?_, hk, hs⟩
    by_contra hlt
    have := Nat.pow_lt_pow_right (show 1 < 2 by decide) (show k < 5 by omega)
    omega
  aligned := by
    rw [← UInt32.toNat_mod, not_not.mp ha]
    rfl
  in_range := Nat.not_le.mp hr

theorem tryAddRegionPerm_cases (t : RegionTable) (request : Request) :
    t.tryAddRegionPerm request = (false, t) ∨ ∃ (part : Fin MAX_PARTITIONS) (f : Fin MAX_REGIONS),
        request.part = UInt32.ofNat part ∧ request.WellFormed ∧
        (∀ r, t.overlaps request.base request.size (slotOf part r) = false) ∧
        t.enabled (slotOf part f) = false ∧
        t.tryAddRegionPerm request = (true, t.insert (slotOf part f) request) := by
  by_cases hno : t.tryAddRegionPerm request = (false, t)
  · exact .inl hno
  refine .inr ?_
  generalize hr : t.tryAddRegionPerm request = result at hno ⊢
  obtain ⟨part, base, size, writable, unpriv⟩ := request
  unfold tryAddRegionPerm at hr
  dsimp only at hr
  by_cases hp : part.toNat < MAX_PARTITIONS
  · rw [dif_pos hp] at hr
    obtain ⟨hm, hr⟩ := of_gate hr hno
    obtain ⟨hro, hr⟩ := of_gate hr hno
    obtain ⟨hpw, hr⟩ := of_gate hr hno
    obtain ⟨hmn, hr⟩ := of_gate hr hno
    obtain ⟨ha, hr⟩ := of_gate hr hno
    obtain ⟨hrn, hr⟩ := of_gate hr hno
    obtain ⟨hs, hr⟩ := of_gate hr hno
    cases hf : (List.finRange MAX_REGIONS).find?
        fun f => !t.enabled (slotOf ⟨part.toNat, hp⟩ f) with
    | none =>
      rw [hf] at hr
      exact absurd hr.symm hno
    | some f =>
      rw [hf] at hr
      have hfr := List.find?_some hf
      refine ⟨⟨part.toNat, hp⟩, f, by simp, wellFormed_of_gates hm hro hpw hmn ha hrn, fun r => ?_, by simpa using hfr,
        hr.symm⟩
      simp only [List.any_eq_true, not_exists, not_and, Bool.not_eq_true] at hs
      exact hs r (List.mem_finRange r)
  · rw [dif_neg hp] at hr
    exact absurd hr.symm hno

end RegionTable

namespace Request

def Disjoint (r r' : Request) : Prop :=
  r.base.toNat + r.size.toNat ≤ r'.base.toNat ∨ r'.base.toNat + r'.size.toNat ≤ r.base.toNat

theorem Disjoint.not_both {r r' : Request} (h : r.Disjoint r') (addr : UInt32) :
    ¬ (r.Contains addr ∧ r'.Contains addr) := by
  simp only [Disjoint, Contains] at *
  omega

end Request

theorem RegionTable.disjoint_of_overlaps {t : RegionTable} {r : Fin MAX_REGIONS} {old new : Request}
    (ho : t.request part r = some old) (hwf : old.WellFormed) (hw : new.WellFormed)
    (h : t.overlaps new.base new.size (slotOf part r) = false) : old.Disjoint new := by
  have hrn := hwf.in_range
  have hr := hw.in_range
  simp only [RegionTable.request] at ho
  split at ho
  · next he =>
      cases ho
      simp only [overlaps, he, Bool.true_and, Bool.not_eq_false', Bool.or_eq_true,
        decide_eq_true_eq, UInt32.le_iff_toNat_le, UInt32.toNat_add] at h
      rw [Nat.mod_eq_of_lt hrn, Nat.mod_eq_of_lt hr] at h
      exact h.symm
  · cases ho

namespace Builder

structure Inv (b : Builder) : Prop where
  wellFormed : ∀ r ∈ b.accepted, r.WellFormed
  disjoint : b.accepted.Pairwise fun r r' => r.part = r'.part → r.Disjoint r'
  table : ∀ (part : Fin MAX_PARTITIONS) r,
    (∃ slot, b.table.request part slot = some r) ↔ r ∈ b.accepted ∧ r.part = UInt32.ofNat part

theorem inv_new : Inv new := by
  refine ⟨by simp [new], List.Pairwise.nil, fun part r => ?_⟩
  simp [new, RegionTable.request_new]

theorem ofNat_part_inj {part part' : Fin MAX_PARTITIONS} : UInt32.ofNat part = UInt32.ofNat part' ↔ part = part' := by
  revert part part'
  decide

theorem Inv.add {b : Builder} (h : b.Inv) (request : Request) : (b.add request).Inv := by
  rcases b.table.tryAddRegionPerm_cases request with hno | ⟨part, f, hp, hwf, hsc, hf, hy⟩
  · simp only [Builder.add, hno]
    exact h
  · simp only [Builder.add, hy]
    refine ⟨?_, ?_, fun p' r => ?_⟩
    · intro r hr
      rcases List.mem_append.mp hr with hr | hr
      · exact h.wellFormed r hr
      · rw [List.mem_singleton.mp hr]
        exact hwf
    · refine List.pairwise_append.mpr ⟨h.disjoint, List.pairwise_singleton _ _, ?_⟩
      intro r hr r' hr' hsm
      rw [List.mem_singleton.mp hr'] at hsm ⊢
      obtain ⟨slot, hs⟩ := (h.table part r).mpr ⟨hr, hsm.trans hp⟩
      exact RegionTable.disjoint_of_overlaps hs (h.wellFormed r hr) hwf (hsc slot)
    · simp only [b.table.request_insert f hp, List.mem_append, List.mem_singleton]
      constructor
      · rintro ⟨slot, hs⟩
        split at hs
        · next heq =>
            cases hs
            exact ⟨.inr rfl, heq.1 ▸ hp⟩
        · obtain ⟨hm, hr⟩ := (h.table p' r).mp ⟨slot, hs⟩
          exact ⟨.inl hm, hr⟩
      · rintro ⟨hm | rfl, hr⟩
        · obtain ⟨slot, hs⟩ := (h.table p' r).mpr ⟨hm, hr⟩
          refine ⟨slot, ?_⟩
          rw [if_neg]
          · exact hs
          · rintro ⟨rfl, rfl⟩
            simp [RegionTable.request, hf] at hs
        · refine ⟨f, if_pos ⟨?_, rfl⟩⟩
          exact ofNat_part_inj.mp (hr.symm.trans hp)

theorem inv_build (requests : List Request) : (build requests).Inv := by
  suffices ∀ b : Builder, b.Inv → (requests.foldl Builder.add b).Inv from this new inv_new
  induction requests with
  | nil => exact fun b h => h
  | cons request rest ih => exact fun b h => ih (b.add request) (h.add request)

end Builder

namespace RegionTable

def slotRegion (t : RegionTable) (part : Fin MAX_PARTITIONS) (r : Fin MAX_REGIONS) : Region :=
  match t.request part r with
  | some request => request.region
  | none => ⟨0, 0⟩

variable {part : Fin MAX_PARTITIONS} (t : RegionTable)

theorem mpuWrite_regionWrite (r : Fin MAX_REGIONS)
    (hwf : ∀ request, t.request part r = some request → request.WellFormed)
    (mpu : Mpu MAX_REGIONS) :
    mpuWrite mpu (t.regionWrite part r) = { mpu with
        rnr := UInt32.ofNat r
        regions := Function.update mpu.regions r (t.slotRegion part r) } := by
  have hw : t.regionWrite part r = ⟨UInt32.ofNat r, (t.slotRegion part r).rbar, (t.slotRegion part r).rasr⟩ := by
    simp only [regionWrite, slotRegion, RegionTable.request]
    split <;> rfl
  have hid : ∀ r : Fin MAX_REGIONS, UInt32.ofNat r ≠ MPU_CTRL_ID ∧ (UInt32.ofNat r).toNat = r := by
    decide
  have hv : field (t.slotRegion part r).rbar 4 1 = 0 := by
    unfold slotRegion
    split
    · next request hr => exact Request.region_not_valid (hwf request hr)
    · rfl
  have hlt : (UInt32.ofNat r).toNat < MAX_REGIONS := by
    rw [(hid r).2]
    exact r.isLt
  rw [hw, mpuWrite, if_neg (hid r).1, Mpu.write_region mpu _ hlt hv]
  simp only [(hid r).2]

theorem foldl_regionWrite (hwf : ∀ r request, t.request part r = some request → request.WellFormed)
    (slots : List (Fin MAX_REGIONS)) (mpu : Mpu MAX_REGIONS) (r : Fin MAX_REGIONS) :
    ((slots.map (t.regionWrite part)).foldl mpuWrite mpu).regions r =
      if r ∈ slots then t.slotRegion part r else mpu.regions r := by
  induction slots generalizing mpu with
  | nil => simp
  | cons slot rest ih =>
    rw [List.map_cons, List.foldl_cons, ih, mpuWrite_regionWrite t slot (hwf slot)]
    by_cases hs : r = slot <;> simp [hs]

theorem applyProgram_programPartition (hwf : ∀ r request, t.request part r = some request → request.WellFormed)
    (mpu : Mpu MAX_REGIONS) :
    (applyProgram (t.programPartition part) mpu).ctrl = MPU_CTRL_ENABLE ∧
      (applyProgram (t.programPartition part) mpu).regions = t.slotRegion part := by
  simp only [applyProgram, programPartition, List.foldl_append, List.foldl_cons, List.foldl_nil]
  refine ⟨rfl, funext fun r => ?_⟩
  show ((List.map _ _).foldl mpuWrite _).regions r = _
  rw [foldl_regionWrite t hwf, if_pos (List.mem_finRange r)]

theorem slotRegion_hits {t : RegionTable} {r : Fin MAX_REGIONS}
    (hwf : ∀ request, t.request part r = some request → request.WellFormed) (addr : UInt32) :
    (t.slotRegion part r).hits addr = true ↔ ∃ request, t.request part r = some request ∧ request.Contains addr := by
  unfold slotRegion
  split
  · next request hr =>
      simp [hr, Request.region_hits (hwf request hr) addr]
  · next hn => simp [hn, Region.hits, Region.enabled, field]

theorem coversAddr_iff (part : Fin MAX_PARTITIONS) (addr : UInt32) : t.coversAddr part addr = true ↔
      ∃ r request, t.request part r = some request ∧ request.Contains addr := by
  simp only [coversAddr, List.any_eq_true, List.mem_finRange, true_and, Bool.and_eq_true,
    decide_eq_true_eq, RegionTable.request]
  refine exists_congr fun r => ?_
  by_cases he : t.enabled (slotOf part r) = true
  · simp only [he, true_and, if_true, Option.some.injEq, exists_eq_left', Request.Contains, UInt32.le_iff_toNat_le]
    refine and_congr_right fun hle => ?_
    rw [UInt32.lt_iff_toNat_lt, UInt32.toNat_sub_of_le _ _ (UInt32.le_iff_toNat_le.mpr hle)]
    omega
  · simp [he]

end RegionTable

theorem filter_eq_singleton {α : Type*} {p : α → Bool} {l : List α}
    (h : l.Pairwise fun x y => ¬ (p x ∧ p y)) {x : α} (hx : x ∈ l) (hp : p x) :
    l.filter p = [x] := by
  induction l with
  | nil => simp at hx
  | cons y rest ih =>
    obtain ⟨hy, hr⟩ := List.pairwise_cons.mp h
    rcases List.mem_cons.mp hx with rfl | hx
    · have hn : rest.filter p = [] :=
        List.filter_eq_nil_iff.mpr fun z hz hpz => hy z hz ⟨hp, hpz⟩
      simp [hp, hn]
    · have hpy : ¬ p y := fun hpy => hy x hx ⟨hpy, hp⟩
      simpa [hpy] using ih hr hx

theorem Builder.Inv.accepted_unique {b : Builder} (h : b.Inv) {addr : UInt32} {r : Request}
    (hr : r ∈ b.accepted) (hp : r.part = UInt32.ofNat part) (hc : r.Contains addr) :
    b.accepted.filter (fun r => r.part = UInt32.ofNat part ∧ r.Contains addr) = [r] := by
  refine filter_eq_singleton (h.disjoint.imp fun {r r'} hdisjoint => ?_) hr
    (by simp [hp, hc])
  simp only [decide_eq_true_eq]
  rintro ⟨⟨hp, hc⟩, hpr, hcn⟩
  exact (hdisjoint (hp.trans hpr.symm)).not_both addr ⟨hc, hcn⟩

theorem switch_isolates (requests : List Request) (part : Fin MAX_PARTITIONS)
    (mpu : Mpu MAX_REGIONS) (addr : UInt32) :
    let b := Builder.build requests
    let after := applyProgram (b.table.programPartition part) mpu
    (b.table.coversAddr part addr = false → after.lookup addr = .Fault) ∧
      (b.table.coversAddr part addr = true →
        ∃ r, b.accepted.filter (fun r => r.part = UInt32.ofNat part ∧ r.Contains addr) = [r] ∧
          after.lookup addr = .Mapped r.rights) := by
  intro b after
  have hi : b.Inv := Builder.inv_build requests
  have hwf : ∀ slot request, b.table.request part slot = some request → request.WellFormed :=
    fun slot request hs =>
      hi.wellFormed request ((hi.table part request).mp ⟨slot, hs⟩).1
  obtain ⟨hct, hr⟩ := b.table.applyProgram_programPartition hwf mpu
  have hl := after.lookup_cases (by rw [hct]; rfl) (by rw [hct]; rfl) addr
  rw [hr] at hl
  rcases hl with ⟨hf, hms⟩ | ⟨slot, hh, hm⟩
  · refine ⟨fun _ => hf, fun hcv => ?_⟩
    obtain ⟨slot, request, hs, hc⟩ := (b.table.coversAddr_iff part addr).mp hcv
    have hh := (RegionTable.slotRegion_hits (hwf slot) addr).mpr ⟨request, hs, hc⟩
    rw [hms slot] at hh
    cases hh
  · obtain ⟨request, hs, hc⟩ :=
      (RegionTable.slotRegion_hits (hwf slot) addr).mp hh
    refine ⟨fun hcv => ?_, fun _ => ⟨request, ?_, ?_⟩⟩
    · have := (b.table.coversAddr_iff part addr).mpr ⟨slot, request, hs, hc⟩
      rw [hcv] at this
      cases this
    · obtain ⟨hmm, hp⟩ := (hi.table part request).mp ⟨slot, hs⟩
      exact hi.accepted_unique hmm hp hc
    · have hrg : b.table.slotRegion part slot = request.region := by
        simp [RegionTable.slotRegion, hs]
      rw [hm, hrg, Request.region_rights (hwf slot request hs)]

-- What is accepted for a partition passes the check of mpu.rs.
theorem accepted_regions_validate (requests : List Request) (part : UInt32) :
    let regions := ((Builder.build requests).accepted.filter (·.part = part)).map fun r =>
      Mpu.MpuRegion.mk r.base.toNat r.size.toNat
    Mpu.validateRegionSet regions regions.length = some true := by
  intro regions
  have hi := Builder.inv_build requests
  obtain ⟨answer, heq, ha⟩ := @Mpu.validateRegionSet_eq regions regions.length (regions.getD · ⟨0, 0⟩)
    fun i hl => by simp [hl]
  rw [List.take_length] at ha
  rw [heq, ha.mpr]
  refine ⟨List.forall_mem_map.mpr fun r hr => ?_, List.pairwise_map.mpr ?_⟩
  · have hw := hi.wellFormed r (List.mem_filter.mp hr).1
    obtain ⟨k, hk, -, hs⟩ := hw.size_pow
    refine ⟨⟨k, hs⟩, ?_, Nat.dvd_of_mod_eq_zero hw.aligned, Nat.le_pred_of_lt hw.in_range⟩
    exact hs ▸ Nat.pow_le_pow_right Nat.two_pos hk
  · refine (hi.disjoint.filter _).imp_of_mem fun {r o} hr ho hd addr => ?_
    rw [List.mem_filter, decide_eq_true_eq] at hr ho
    have hd := hd (hr.2.trans ho.2.symm)
    simp only [Request.Disjoint, Mpu.MpuRegion.Contains] at hd ⊢
    omega

end Gale.MpuSwitch
