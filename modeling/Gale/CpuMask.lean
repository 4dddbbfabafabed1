import Gale.Kernel
import Gale.Lib.Bits
import Gale.Lib.Run

namespace Gale.CpuMask

open Lib

-- From src/cpu_mask.rs.
structure CpuMaskResult where
  mask : UInt32
  error : Int

def cpuMaskMod (currentMask enable disable : UInt32) (isRunning pinOnly : Bool) : CpuMaskResult :=
  if isRunning then ⟨currentMask, EINVAL⟩
  else
    let newMask := (currentMask ||| enable) &&& ~~~disable
    if pinOnly ∧ (newMask = 0 ∨ newMask &&& (newMask - 1) ≠ 0) then ⟨currentMask, EINVAL⟩
    else ⟨newMask, OK⟩

theorem cpuMaskMod_cases (mask enable disable : UInt32) (isRunning pinOnly : Bool) :
    cpuMaskMod mask enable disable isRunning pinOnly = ⟨mask, EINVAL⟩ ∨
      cpuMaskMod mask enable disable isRunning pinOnly = ⟨(mask ||| enable) &&& ~~~disable, OK⟩ := by
  unfold cpuMaskMod
  dsimp only
  split_ifs
  · exact .inl rfl
  · exact .inl rfl
  · exact .inr rfl

theorem cpuMaskMod_unpinned (mask enable disable : UInt32) :
    cpuMaskMod mask enable disable false false = ⟨(mask ||| enable) &&& ~~~disable, OK⟩ := by
  simp [cpuMaskMod]

def cpuPinCompute (cpuId maxCpus : Nat) : Except Int UInt32 :=
  if maxCpus > 32 ∨ cpuId ≥ maxCpus then .error EINVAL
  else .ok ((1 : UInt32) <<< cpuId.toUInt32)

-- From ffi/src/lib.rs.
structure GaleCpuMaskResult where
  mask : UInt32
  err : Int

def galeCpuMaskMod (currentMask enable disable isRunning pinOnly : UInt32) : GaleCpuMaskResult :=
  let result := cpuMaskMod currentMask enable disable (isRunning ≠ 0) (pinOnly ≠ 0)
  ⟨result.mask, result.error⟩

def galeCpuPinCompute (cpuId maxCpus : Nat) : GaleCpuMaskResult :=
  match cpuPinCompute cpuId maxCpus with
  | .ok mask => ⟨mask, OK⟩
  | .error e => ⟨0, e⟩

-- From zephyr/gale_cpu_mask.c.

-- base.cpu_mask of a thread has a bit for every CPU of the build.
structure Config where
  maxCpus : Nat
  width : Nat
  pinOnly : Bool
  fits : maxCpus ≤ width
  two_le : 2 ≤ width
  width_le : width ≤ 32

structure Thread (width : Nat) where
  cpuMask : BitVec width
  prevented : Bool
  ret : Int

def bit (cpu : Nat) : UInt32 := (1 : UInt32) <<< cpu.toUInt32

namespace Thread

variable {width : Nat}

def store (t : Thread width) (r : GaleCpuMaskResult) : Thread width :=
  { t with
    cpuMask := if r.err = 0 then r.mask.toBitVec.setWidth width else t.cpuMask
    ret := r.err }

def galeCpuMaskModWrapper (t : Thread width) (enable disable pinOnly : UInt32) : Thread width :=
  let isRunning : UInt32 := if !t.prevented then 1 else 0
  t.store (galeCpuMaskMod (.ofBitVec (t.cpuMask.setWidth 32)) enable disable isRunning pinOnly)

def kThreadCpuMaskClear (t : Thread width) : Thread width :=
  t.galeCpuMaskModWrapper 0 0xFFFFFFFF 0

def kThreadCpuMaskEnableAll (t : Thread width) : Thread width :=
  t.galeCpuMaskModWrapper 0xFFFFFFFF 0 0

def kThreadCpuMaskEnable (t : Thread width) (cpu : Nat) : Thread width :=
  t.galeCpuMaskModWrapper (bit cpu) 0 0

def kThreadCpuMaskDisable (t : Thread width) (cpu : Nat) : Thread width :=
  t.galeCpuMaskModWrapper 0 (bit cpu) 0

def kThreadCpuPin (cfg : Config) (t : Thread width) (cpu : Nat) : Thread width :=
  if cfg.pinOnly then
    let pin := galeCpuPinCompute cpu cfg.maxCpus
    if pin.err ≠ 0 then { t with ret := pin.err }
    else t.galeCpuMaskModWrapper pin.mask (~~~pin.mask) 1
  else
    let mask := bit cpu
    t.galeCpuMaskModWrapper mask (~~~mask) 0

end Thread

inductive Op (maxCpus : Nat) where
  | Clear
  | EnableAll
  | Enable (cpu : Fin maxCpus)
  | Disable (cpu : Fin maxCpus)
  | Pin (cpu : Fin maxCpus)

def step (cfg : Config) (t : Thread cfg.width) : Op cfg.maxCpus → Option (Thread cfg.width)
  | .Clear => some t.kThreadCpuMaskClear
  | .EnableAll => some t.kThreadCpuMaskEnableAll
  | .Enable cpu => some (t.kThreadCpuMaskEnable cpu.val)
  | .Disable cpu => some (t.kThreadCpuMaskDisable cpu.val)
  | .Pin cpu => some (t.kThreadCpuPin cfg cpu.val)

def AtMostOne {width : Nat} (mask : BitVec width) : Prop :=
  ∀ i j, mask.getLsbD i = true → mask.getLsbD j = true → i = j

def Single {width : Nat} (mask : BitVec width) (cpu : Nat) : Prop :=
  ∀ i, mask.getLsbD i = true ↔ i = cpu

theorem AtMostOne.mono {width : Nat} {mask other : BitVec width} (h : AtMostOne mask)
    (ho : ∀ i, other.getLsbD i = true → mask.getLsbD i = true) : AtMostOne other :=
  fun i j hi hj => h i j (ho i hi) (ho j hj)

theorem Single.atMostOne {width cpu : Nat} {mask : BitVec width} (h : Single mask cpu) : AtMostOne mask :=
  fun i j hi hj => ((h i).mp hi).trans ((h j).mp hj).symm

theorem bit_getLsbD {cpu i : Nat} (hc : cpu < 32) (hi : i < 32) : (bit cpu).toBitVec.getLsbD i = decide (cpu = i) :=
  Bits.getLsbD_single hc hi

section Wrapper

variable {width : Nat} (t : Thread width) (enable disable pinOnly : UInt32)

def Modified (t next : Thread width) (enable disable : UInt32) : Prop :=
  ∀ i, next.cpuMask.getLsbD i = true ↔ i < width ∧
    (t.cpuMask.getLsbD i = true ∨ enable.toBitVec.getLsbD i = true) ∧ disable.toBitVec.getLsbD i = false

theorem modified_mask (hw : width ≤ 32) (i : Nat) :
    (((UInt32.ofBitVec (t.cpuMask.setWidth 32) ||| enable) &&& ~~~disable).toBitVec.setWidth
      width).getLsbD i = true ↔ i < width ∧ (t.cpuMask.getLsbD i = true ∨ enable.toBitVec.getLsbD i = true) ∧
          disable.toBitVec.getLsbD i = false := by
  simp only [BitVec.getLsbD_setWidth, UInt32.toBitVec_and, UInt32.toBitVec_or, UInt32.toBitVec_not,
    BitVec.getLsbD_and, BitVec.getLsbD_or, BitVec.getLsbD_not, Bool.and_eq_true, Bool.or_eq_true, Bool.not_eq_true', decide_eq_true_eq]
  constructor
  · rintro ⟨hi, hb, -, ho⟩
    exact ⟨hi, hb.imp_left And.right, ho⟩
  · rintro ⟨hi, hb, ho⟩
    exact ⟨hi, hb.imp_left fun h => ⟨by omega, h⟩, by omega, ho⟩

theorem store_modified (hw : width ≤ 32) :
    Modified t (t.store ⟨(.ofBitVec (t.cpuMask.setWidth 32) ||| enable) &&& ~~~disable, OK⟩)
      enable disable :=
  modified_mask t enable disable hw

theorem wrapper_cases (hw : width ≤ 32) : ((t.galeCpuMaskModWrapper enable disable pinOnly).cpuMask = t.cpuMask ∧
      (t.galeCpuMaskModWrapper enable disable pinOnly).ret = EINVAL) ∨
    Modified t (t.galeCpuMaskModWrapper enable disable pinOnly) enable disable := by
  simp only [Thread.galeCpuMaskModWrapper, galeCpuMaskMod]
  rcases cpuMaskMod_cases (.ofBitVec (t.cpuMask.setWidth 32)) enable disable
    ((if !t.prevented then 1 else 0 : UInt32) ≠ 0) (pinOnly ≠ 0) with hr | hm
  · rw [hr]
    exact .inl ⟨rfl, rfl⟩
  · rw [hm]
    exact .inr (store_modified t enable disable hw)

theorem wrapper_unpinned (hw : width ≤ 32) (hp : t.prevented = true) :
    (t.galeCpuMaskModWrapper enable disable 0).ret = OK ∧
      Modified t (t.galeCpuMaskModWrapper enable disable 0) enable disable := by
  have hm : t.galeCpuMaskModWrapper enable disable 0 =
      t.store ⟨(.ofBitVec (t.cpuMask.setWidth 32) ||| enable) &&& ~~~disable, OK⟩ := by
    have ha := cpuMaskMod_unpinned (.ofBitVec (t.cpuMask.setWidth 32)) enable disable
    simp only [Thread.galeCpuMaskModWrapper, galeCpuMaskMod, hp]
    exact congrArg (fun r : CpuMaskResult => t.store ⟨r.mask, r.error⟩) ha
  rw [hm]
  exact ⟨rfl, store_modified t enable disable hw⟩

end Wrapper

-- The calls that cannot leave a second bit: all but enable_all, and enable of a CPU that
-- would be the only one.
def Harmless {cfg : Config} (t : Thread cfg.width) : Op cfg.maxCpus → Prop
  | .EnableAll => False
  | .Enable cpu => ∀ i, t.cpuMask.getLsbD i = true → i = cpu.val
  | _ => True

section Step

variable {cfg : Config} {t next : Thread cfg.width} {op : Op cfg.maxCpus}

theorem step_prevented (hs : step cfg t op = some next) : next.prevented = t.prevented := by
  cases op with
  | Pin cpu =>
    cases hs
    unfold Thread.kThreadCpuPin
    dsimp only
    split_ifs <;> rfl
  | _ =>
    cases hs
    rfl

theorem cpu_lt_word (cfg : Config) (cpu : Fin cfg.maxCpus) : cpu.val < 32 :=
  Nat.lt_of_lt_of_le cpu.isLt (Nat.le_trans cfg.fits cfg.width_le)

theorem wrapper_pin (t : Thread cfg.width) (cpu : Fin cfg.maxCpus) (pinOnly : UInt32) (hon : AtMostOne t.cpuMask) :
    AtMostOne (t.galeCpuMaskModWrapper (bit cpu.val) (~~~bit cpu.val) pinOnly).cpuMask := by
  rcases wrapper_cases t (bit cpu.val) (~~~bit cpu.val) pinOnly cfg.width_le with ⟨hs, -⟩ | hmod
  · rwa [hs]
  · have ho : ∀ i, (t.galeCpuMaskModWrapper (bit cpu.val) (~~~bit cpu.val)
        pinOnly).cpuMask.getLsbD i = true → cpu.val = i := by
      intro i hi
      obtain ⟨hlt, -, hof⟩ := (hmod i).mp hi
      have hi32 : i < 32 := Nat.lt_of_lt_of_le hlt cfg.width_le
      rw [UInt32.toBitVec_not, BitVec.getLsbD_not, bit_getLsbD (cpu_lt_word cfg cpu) hi32] at hof
      simpa [hi32] using hof
    exact fun i j hi hj => (ho i hi).symm.trans (ho j hj)

theorem pin_atMostOne (t : Thread cfg.width) (cpu : Fin cfg.maxCpus) (ho : AtMostOne t.cpuMask) :
    AtMostOne (t.kThreadCpuPin cfg cpu.val).cpuMask := by
  unfold Thread.kThreadCpuPin galeCpuPinCompute cpuPinCompute
  have hc : ¬ (cfg.maxCpus > 32 ∨ cpu.val ≥ cfg.maxCpus) := by
    have := cfg.fits
    have := cfg.width_le
    omega
  split
  · exact wrapper_pin t cpu 1 ho
  · exact wrapper_pin t cpu 0 ho

theorem wrapper_disable (t : Thread cfg.width) (disable pinOnly : UInt32) (i : Nat)
    (hi : (t.galeCpuMaskModWrapper 0 disable pinOnly).cpuMask.getLsbD i = true) :
    t.cpuMask.getLsbD i = true := by
  rcases wrapper_cases t 0 disable pinOnly cfg.width_le with ⟨hs, -⟩ | hmod
  · rwa [hs] at hi
  · obtain ⟨-, hb, -⟩ := (hmod i).mp hi
    simpa using hb

theorem wrapper_enable (t : Thread cfg.width) (cpu : Fin cfg.maxCpus) (i : Nat)
    (hi : (t.galeCpuMaskModWrapper (bit cpu.val) 0 0).cpuMask.getLsbD i = true) :
    t.cpuMask.getLsbD i = true ∨ i = cpu.val := by
  rcases wrapper_cases t (bit cpu.val) 0 0 cfg.width_le with ⟨hs, -⟩ | hmod
  · rw [hs] at hi
    exact .inl hi
  · obtain ⟨hlt, hb, -⟩ := (hmod i).mp hi
    have hi32 : i < 32 := Nat.lt_of_lt_of_le hlt cfg.width_le
    rw [bit_getLsbD (cpu_lt_word cfg cpu) hi32, decide_eq_true_eq] at hb
    exact hb.imp_right Eq.symm

theorem step_keeps (hon : AtMostOne t.cpuMask) (hh : Harmless t op)
    (hs : step cfg t op = some next) : AtMostOne next.cpuMask := by
  cases op with
  | Clear | Disable cpu =>
    cases hs
    exact hon.mono (wrapper_disable t _ _)
  | EnableAll => exact hh.elim
  | Enable cpu =>
    cases hs
    have ho : ∀ i, (t.kThreadCpuMaskEnable cpu.val).cpuMask.getLsbD i = true → i = cpu.val := by
      intro i hi
      exact (wrapper_enable t cpu i hi).elim (hh i) id
    exact fun i j hi hj => (ho i hi).trans (ho j hj).symm
  | Pin cpu =>
    cases hs
    exact pin_atMostOne t cpu hon

theorem step_breaks (hp : t.prevented = true) (hh : ¬ Harmless t op)
    (hs : step cfg t op = some next) : next.ret = OK ∧ ¬ AtMostOne next.cpuMask := by
  cases op with
  | EnableAll =>
    cases hs
    obtain ⟨hr, hm⟩ := wrapper_unpinned t 0xFFFFFFFF 0 cfg.width_le hp
    refine ⟨hr, fun ho => ?_⟩
    have hst : ∀ i < 2, t.kThreadCpuMaskEnableAll.cpuMask.getLsbD i = true := by
      intro i hi
      refine (hm i).mpr ⟨Nat.lt_of_lt_of_le hi cfg.two_le, .inr ?_, by simp⟩
      have hc : i = 0 ∨ i = 1 := by omega
      rcases hc with rfl | rfl
      · rfl
      · rfl
    exact absurd (ho 0 1 (hst 0 (by decide)) (hst 1 (by decide))) (by decide)
  | Enable cpu =>
    cases hs
    obtain ⟨hr, hm⟩ := wrapper_unpinned t (bit cpu.val) 0 cfg.width_le hp
    refine ⟨hr, fun ho => hh fun i hi => ?_⟩
    have hcp := cpu_lt_word cfg cpu
    have hol : (t.kThreadCpuMaskEnable cpu.val).cpuMask.getLsbD i = true :=
      (hm i).mpr ⟨BitVec.lt_of_getLsbD hi, .inl hi, by simp⟩
    have hn : (t.kThreadCpuMaskEnable cpu.val).cpuMask.getLsbD cpu.val = true := by
      refine (hm cpu.val).mpr ⟨Nat.lt_of_lt_of_le cpu.isLt cfg.fits, .inr ?_, by simp⟩
      rw [bit_getLsbD hcp hcp, decide_eq_true rfl]
    exact ho i cpu.val hol hn
  | _ => exact absurd trivial hh

end Step

theorem pin_only_single_iff (cfg : Config) {mask : BitVec cfg.width} {cpu : Nat}
    (hmask : Single mask cpu) (ops : List (Op cfg.maxCpus)) :
    Throughout (step cfg) (fun t => t.ret = OK → AtMostOne t.cpuMask) ⟨mask, true, OK⟩ ops ↔
      Along (step cfg) Harmless ⟨mask, true, OK⟩ ops := by
  have hst : (⟨mask, true, OK⟩ : Thread cfg.width).prevented = true ∧ AtMostOne mask :=
    ⟨rfl, hmask.atMostOne⟩
  refine throughout_iff_along
    (fun t : Thread cfg.width => t.prevented = true ∧ AtMostOne t.cpuMask) ?_ ?_ ?_ hst ops
  · intro t hg _
    exact hg.2
  · rintro t op next ⟨hp, ho⟩ hh hs
    exact ⟨(step_prevented hs).trans hp, step_keeps ho hh hs⟩
  · rintro t op next ⟨hp, -⟩ hhr hs hpr
    obtain ⟨hr, ht⟩ := step_breaks hp hhr hs
    exact ht (hpr hr)

def fourCpus : Config := ⟨4, 8, true, by decide, by decide, by decide⟩

theorem pin_only_single_pinned :
    Throughout (step fourCpus) (fun t => t.ret = OK → AtMostOne t.cpuMask) ⟨1#8, true, OK⟩
      [.Pin ⟨2, by decide⟩, .Disable ⟨1, by decide⟩] := by
  have ho : Single (1#8) 0 := by
    intro i
    simp [BitVec.getLsbD_one]
  refine (pin_only_single_iff fourCpus ho [.Pin ⟨2, by decide⟩, .Disable ⟨1, by decide⟩]).mpr ?_
  exact fun _ _ => ⟨trivial, fun _ _ => ⟨trivial, trivial⟩⟩

theorem enable_adds_second_cpu :
    ∃ next, run (step fourCpus) ⟨1#8, true, OK⟩ [.Enable ⟨1, by decide⟩] = some next ∧ next.ret = OK ∧
      next.cpuMask = 3#8 :=
  ⟨_, rfl, rfl, rfl⟩

end Gale.CpuMask
