import Gale.Lib.Run
import Gale.Zms

namespace Gale.Zms

open Function Lib

variable {s : ZmsSector} {fs : ZmsFs}

theorem ZmsSector.init_eq_ok {sectorSize ateSize cycleCnt : Nat} :
    ZmsSector.init sectorSize ateSize cycleCnt = some (.ok s) ↔ 5 * ateSize ≤ U32_MAX ∧ 5 * ateSize ≤ sectorSize ∧
        s = ⟨sectorSize - 3 * ateSize, 0, sectorSize, cycleCnt, true, false⟩ := by
  by_cases hm : 5 * ateSize ≤ U32_MAX
  · by_cases hs : sectorSize < 5 * ateSize
    · simp [init, checkedMul_of_le hm, hm, hs]
    · have hh : 3 * ateSize ≤ U32_MAX := by omega
      have hl : 3 * ateSize ≤ sectorSize := by omega
      have hle : 5 * ateSize ≤ sectorSize := by omega
      simp [init, checkedMul_of_le hm, checkedMul_of_le hh, checkedSub_of_le hl, hm, hs, hle, eq_comm]
  · simp [init, checkedMul_of_not_le hm, hm]

theorem ZmsFs.init_eq_ok {sectorCount sectorSize ateSize : Nat} :
    ZmsFs.init sectorCount sectorSize ateSize = some (.ok fs) ↔
      2 ≤ sectorCount ∧ 5 * ateSize ≤ U32_MAX ∧ 5 * ateSize ≤ sectorSize ∧
        fs = ⟨sectorCount, 0, ateSize, sectorSize - 4 * ateSize⟩ := by
  by_cases hc : sectorCount < 2
  · simp [init, hc]
  · by_cases hm : 5 * ateSize ≤ U32_MAX
    · by_cases hs : sectorSize < 5 * ateSize
      · simp [init, checkedMul_of_le hm, hc, hm, hs]
      · have hu : 4 * ateSize ≤ U32_MAX := by omega
        have hl : 4 * ateSize ≤ sectorSize := by omega
        have hle : 5 * ateSize ≤ sectorSize := by omega
        have ht : 2 ≤ sectorCount := by omega
        simp [init, checkedMul_of_le hm, checkedMul_of_le hu, checkedSub_of_le hl, hc, hm, hs, hle, ht, eq_comm]
    · simp [init, checkedMul_of_not_le hm, hc, hm]

theorem ZmsFs.writeDecide_ok {len : Nat} :
    (fs.writeDecide len).action = .WriteOk ↔ len + fs.ateSize ≤ fs.freeSpace := by
  by_cases hs : len + fs.ateSize ≤ fs.freeSpace <;> simp [writeDecide, hs]

theorem ZmsSector.hasSpace_iff {nd : Nat} : s.hasSpace nd = true ↔ 0 < s.ateWra ∧ s.dataWra + nd ≤ s.ateWra := by
  simp [hasSpace]

theorem ZmsFs.gcNeeded_eq {ateWra dw : Nat} (h : dw ≤ ateWra) (nd : Nat) : ZmsFs.gcNeeded ateWra dw nd =
      some (if dw + nd ≤ ateWra then ⟨0, 0⟩ else ⟨1, 1⟩) := by
  have hi : ateWra - dw ≥ nd ↔ dw + nd ≤ ateWra := by omega
  by_cases hf : dw + nd ≤ ateWra <;>
    simp [gcNeeded, checkedSub_of_le h, hi, hf]

def ZmsSector.Apart (s : ZmsSector) : Prop := s.dataWra ≤ s.ateWra

theorem ZmsSector.apart_wrote {len ateSize : Nat}
    (h : s.dataWra + len + ateSize ≤ s.ateWra) : (s.wrote len ateSize).Apart := by
  simp only [Apart, wrote]
  omega

section Tests

def writeSector (ateSize : Nat) (s : ZmsSector) (dataLen : Nat) : Option ZmsSector :=
  if s.hasSpace (dataLen + ateSize) then some (s.wrote dataLen ateSize) else none

theorem writeSector_apart {ateSize : Nat} {start s : ZmsSector} {writes : List Nat}
    (hs : start.Apart) (hrn : run (writeSector ateSize) start writes = some s) : s.Apart := by
  have hk : Throughout (writeSector ateSize) ZmsSector.Apart start writes := by
    refine throughout_of_step ?_ hs writes
    intro before len after _ hst
    obtain ⟨hsp, ha⟩ := Option.ite_none_right_eq_some.mp hst
    cases ha
    have hr := (ZmsSector.hasSpace_iff.mp hsp).2
    exact ZmsSector.apart_wrote (by omega)
  exact hk.last hrn

-- The entry slot is reserved once more by write_decide than by the other two tests.
theorem space_tests_agree_iff {sectorSize ateSize cycleCnt : Nat} {start s : ZmsSector}
    {writes : List Nat} {fs : ZmsFs} (hate : 0 < ateSize)
    (hinit : ZmsSector.init sectorSize ateSize cycleCnt = some (.ok start))
    (hrun : run (writeSector ateSize) start writes = some s) (hsize : fs.ateSize = ateSize)
    (hfree : fs.FreeSpaceConsistent s.ateWra s.dataWra) (dataLen : Nat) :
    ((fs.writeDecide dataLen).action = .WriteOk ↔ s.hasSpace (dataLen + ateSize) = true) ∧
        (s.hasSpace (dataLen + ateSize) = true ↔
          ZmsFs.gcNeeded s.ateWra s.dataWra (dataLen + ateSize) = some ⟨0, 0⟩) ↔
      ¬ (s.dataWra + dataLen + ateSize ≤ s.ateWra ∧ s.ateWra < s.dataWra + dataLen + 2 * ateSize) := by
  have hle : s.dataWra ≤ s.ateWra := by
    refine writeSector_apart ?_ hrun
    rw [(ZmsSector.init_eq_ok.mp hinit).2.2]
    exact Nat.zero_le _
  have hgc : ZmsFs.gcNeeded s.ateWra s.dataWra (dataLen + ateSize) = some ⟨0, 0⟩ ↔
      s.dataWra + (dataLen + ateSize) ≤ s.ateWra := by
    rw [ZmsFs.gcNeeded_eq hle]
    by_cases hf : s.dataWra + (dataLen + ateSize) ≤ s.ateWra <;> simp [hf]
  unfold ZmsFs.FreeSpaceConsistent at hfree
  rw [hgc, ZmsFs.writeDecide_ok, ZmsSector.hasSpace_iff]
  omega

theorem space_tests_agree_on_nothing : ((⟨2, 0, 4, 4⟩ : ZmsFs).writeDecide 0).action = .WriteOk ↔
      (⟨8, 0, 20, 0, true, false⟩ : ZmsSector).hasSpace (0 + 4) = true := by
  have hi : ZmsSector.init 20 4 0 = some (.ok ⟨8, 0, 20, 0, true, false⟩) :=
    ZmsSector.init_eq_ok.mpr ⟨by decide, by decide, rfl⟩
  have hf : (⟨2, 0, 4, 4⟩ : ZmsFs).FreeSpaceConsistent 8 0 := by
    simp [ZmsFs.FreeSpaceConsistent]
  have hr : run (writeSector 4) ⟨8, 0, 20, 0, true, false⟩ [] = some ⟨8, 0, 20, 0, true, false⟩ := rfl
  exact ((space_tests_agree_iff (by decide) hi hr rfl hf 0).mpr (by decide)).1

-- One byte and its entry fit, and write_decide asks for garbage collection.
theorem fits_and_needs_gc : ZmsSector.init 20 4 0 = some (.ok ⟨8, 0, 20, 0, true, false⟩) ∧
      (⟨2, 0, 4, 4⟩ : ZmsFs).FreeSpaceConsistent 8 0 ∧
      (⟨8, 0, 20, 0, true, false⟩ : ZmsSector).hasSpace (1 + 4) = true ∧
      ZmsFs.gcNeeded 8 0 (1 + 4) = some ⟨0, 0⟩ ∧
      ((⟨2, 0, 4, 4⟩ : ZmsFs).writeDecide 1).action = .NeedsGc := by
  refine ⟨ZmsSector.init_eq_ok.mpr ⟨by decide, by decide, rfl⟩, ?_, by decide, by decide, by decide⟩
  simp [ZmsFs.FreeSpaceConsistent]

end Tests

namespace State

def Tracked (s : State) : Prop := s.fs.FreeSpaceConsistent s.current.ateWra s.current.dataWra

-- A write that write_decide accepts leaves the addresses in order.
def Fits (s : State) : Op → Prop
  | .Write dataLen => (s.fs.writeDecide dataLen).action = .WriteOk →
      s.current.dataWra + dataLen + s.fs.ateSize ≤ s.current.ateWra
  | .Advance _ => True

def LeavesUnused (s : State) : Op → Prop
  | .Write _ => True
  | .Advance _ => s.current.dataWra = 0 ∧ s.current.ateWra + 3 * s.fs.ateSize = s.sectorSize

structure Sound (s : State) : Prop where
  small : 5 * s.fs.ateSize ≤ U32_MAX
  size : 5 * s.fs.ateSize ≤ s.sectorSize
  index : s.fs.currentSector < s.fs.sectorCount
  header : s.current.ateWra + 3 * s.fs.ateSize ≤ s.sectorSize
  room : s.fs.freeSpace + s.current.dataWra + s.fs.ateSize ≤ s.current.ateWra

variable {s next : State}

theorem write_ok {dataLen : Nat} (hok : dataLen + s.fs.ateSize ≤ s.fs.freeSpace) : s.write dataLen = some { s with
      fs := { s.fs with freeSpace := s.fs.freeSpace - dataLen - s.fs.ateSize }
      sectors := update s.sectors s.fs.currentSector
        (s.current.wrote dataLen s.fs.ateSize) } := by
  have hd : dataLen ≤ s.fs.freeSpace := by omega
  have ha : s.fs.ateSize ≤ s.fs.freeSpace - dataLen := by omega
  simp [write, ZmsFs.writeDecide_ok.mpr hok, ZmsFs.consumeSpace, checkedSub_of_le hd, checkedSub_of_le ha]

theorem write_refused {len : Nat} (hf : ¬ len + s.fs.ateSize ≤ s.fs.freeSpace) : s.write len = some s := by
  have ha : (s.fs.writeDecide len).action = .NeedsGc := by simp [ZmsFs.writeDecide, hf]
  rw [write, ha]

theorem advance_eq (h : Sound s) (hi : s.fs.currentSector + 1 ≤ U32_MAX) (cycleCnt : Nat) :
    ∃ i < s.fs.sectorCount, s.advance cycleCnt = some { s with
      fs := { s.fs with currentSector := i }
      sectors := update s.sectors i
        ⟨s.sectorSize - 3 * s.fs.ateSize, 0, s.sectorSize, cycleCnt, true, false⟩ } := by
  have hin : ZmsSector.init s.sectorSize s.fs.ateSize cycleCnt = some (.ok
      ⟨s.sectorSize - 3 * s.fs.ateSize, 0, s.sectorSize, cycleCnt, true, false⟩) :=
    ZmsSector.init_eq_ok.mpr ⟨h.small, h.size, rfl⟩
  have hl := h.index
  refine ⟨if s.fs.currentSector + 1 = s.fs.sectorCount then 0 else s.fs.currentSector + 1, ?_, ?_⟩
  · split <;> omega
  · simp [advance, ZmsFs.advanceSector, checkedAdd_of_le hi, hin]

theorem advance_inv (h : Sound s) {cycleCnt : Nat} (hs : s.advance cycleCnt = some next) :
    ∃ i < s.fs.sectorCount, next = { s with
      fs := { s.fs with currentSector := i }
      sectors := update s.sectors i
        ⟨s.sectorSize - 3 * s.fs.ateSize, 0, s.sectorSize, cycleCnt, true, false⟩ } := by
  by_cases hi : s.fs.currentSector + 1 ≤ U32_MAX
  · obtain ⟨i, hl, heq⟩ := advance_eq h hi cycleCnt
    exact ⟨i, hl, Option.some.inj (hs.symm.trans heq)⟩
  · have hp : s.advance cycleCnt = none := by
      simp [advance, ZmsFs.advanceSector, checkedAdd_of_not_le hi]
    cases hp.symm.trans hs

variable {op : Op}

theorem Sound.step (h : Sound s) (hs : step s op = some next) : Sound next := by
  have hr := h.room
  have hh := h.header
  cases op with
  | Write len =>
    by_cases hok : len + s.fs.ateSize ≤ s.fs.freeSpace
    · cases (write_ok hok).symm.trans hs
      refine ⟨h.small, h.size, h.index, ?_, ?_⟩
      · simp only [current, update_self, ZmsSector.wrote] at hh ⊢
        omega
      · simp only [current, update_self, ZmsSector.wrote] at hr ⊢
        omega
    · cases (write_refused hok).symm.trans hs
      exact h
  | Advance cycleCnt =>
    obtain ⟨i, hl, rfl⟩ := advance_inv h hs
    refine ⟨h.small, h.size, hl, ?_, ?_⟩
    · simp only [current, update_self]
      omega
    · simp only [current, update_self]
      omega

theorem tracked_step_iff (h : Sound s) (ht : s.Tracked)
    (hs : Zms.step s op = some next) : next.Tracked ↔ s.LeavesUnused op := by
  have hr := h.room
  have hh := h.header
  cases op with
  | Write len =>
    refine iff_of_true ?_ trivial
    by_cases hok : len + s.fs.ateSize ≤ s.fs.freeSpace
    · cases (write_ok hok).symm.trans hs
      simp only [Tracked, ZmsFs.FreeSpaceConsistent, current, update_self, ZmsSector.wrote] at ht hr ⊢
      omega
    · cases (write_refused hok).symm.trans hs
      exact ht
  | Advance cycleCnt =>
    obtain ⟨i, -, rfl⟩ := advance_inv h hs
    simp only [Tracked, ZmsFs.FreeSpaceConsistent, LeavesUnused, current, update_self] at ht hr hh ⊢
    omega

theorem Sound.fits (h : Sound s) (op : Op) : s.Fits op := by
  cases op with
  | Write len =>
    intro hok
    have hs := ZmsFs.writeDecide_ok.mp hok
    have hr := h.room
    omega
  | Advance cycleCnt => trivial

section Mount

variable {sectorCount sectorSize ateSize cycleCnt : Nat} {fs : ZmsFs} {first : ZmsSector}

theorem mount_sound (hi : ZmsFs.init sectorCount sectorSize ateSize = some (.ok fs))
    (hf : ZmsSector.init sectorSize ateSize cycleCnt = some (.ok first))
    (os : Nat → ZmsSector) :
    Sound (mount fs sectorSize first os) ∧ (mount fs sectorSize first os).Tracked := by
  obtain ⟨hc, hs, hsz, rfl⟩ := ZmsFs.init_eq_ok.mp hi
  obtain ⟨-, -, rfl⟩ := ZmsSector.init_eq_ok.mp hf
  refine ⟨⟨hs, hsz, ?_, ?_, ?_⟩, ?_⟩
  · exact Nat.lt_of_lt_of_le Nat.zero_lt_two hc
  · simp only [mount, current, update_self]
    omega
  · simp only [mount, current, update_self]
    omega
  · simp only [mount, Tracked, ZmsFs.FreeSpaceConsistent, current, update_self]
    omega

end Mount

end State

section Mounted

variable {sectorCount sectorSize ateSize cycleCnt : Nat} {fs : ZmsFs} {first : ZmsSector}

theorem free_space_tracked_iff (hinit : ZmsFs.init sectorCount sectorSize ateSize = some (.ok fs))
    (hfirst : ZmsSector.init sectorSize ateSize cycleCnt = some (.ok first))
    (others : Nat → ZmsSector) (ops : List Op) :
    Throughout step State.Tracked (mount fs sectorSize first others) ops ∧
        Along step State.Fits (mount fs sectorSize first others) ops ↔
      Along step State.LeavesUnused (mount fs sectorSize first others) ops := by
  obtain ⟨hsn, htr⟩ := State.mount_sound hinit hfirst others
  have ht : Throughout step State.Sound (mount fs sectorSize first others) ops :=
    throughout_of_step (fun _ _ _ h hs => h.step hs) hsn ops
  have hf := ht.along fun _ op h => h.fits op
  rw [and_iff_left hf]
  refine throughout_iff_along (fun s : State => s.Sound ∧ s.Tracked) (fun _ h => h.2) ?_ ?_
    ⟨hsn, htr⟩ ops
  · intro s op next h hu hs
    exact ⟨h.1.step hs, (State.tracked_step_iff h.1 h.2 hs).mpr hu⟩
  · intro s op next h hus hs
    exact mt (State.tracked_step_iff h.1 h.2 hs).mp hus

theorem free_space_tracked_in_one_sector : Throughout step State.Tracked
      (mount ⟨2, 0, 4, 4⟩ 20 ⟨8, 0, 20, 0, true, false⟩ fun _ => ⟨8, 0, 20, 0, true, false⟩)
      [.Write 0, .Write 0] := by
  have hi : ZmsFs.init 2 20 4 = some (.ok ⟨2, 0, 4, 4⟩) :=
    ZmsFs.init_eq_ok.mpr ⟨by decide, by decide, by decide, rfl⟩
  have hf : ZmsSector.init 20 4 0 = some (.ok ⟨8, 0, 20, 0, true, false⟩) :=
    ZmsSector.init_eq_ok.mpr ⟨by decide, by decide, rfl⟩
  refine ((free_space_tracked_iff hi hf _ _).mpr (along_of_forall ?_)).1
  intro s op hop
  have hw : op = .Write 0 := by simpa using hop
  rw [hw]
  trivial

-- After a write and a change of sector the fresh sector counts as full.
theorem fresh_sector_counts_as_full : ∃ s, run step
        (mount ⟨2, 0, 4, 4⟩ 20 ⟨8, 0, 20, 0, true, false⟩ fun _ => ⟨8, 0, 20, 0, true, false⟩)
        [.Write 0, .Advance 1] = some s ∧
      s.fs.freeSpace = 0 ∧ s.current.ateWra = 8 ∧ s.current.dataWra = 0 ∧ s.fs.ateSize = 4 ∧
      ¬ s.Tracked := by
  refine ⟨_, rfl, rfl, rfl, rfl, rfl, ?_⟩
  show ¬ ((0 : Nat) : Int) = (8 : Nat) - (0 : Nat) - (4 : Nat)
  decide

end Mounted

end Gale.Zms
