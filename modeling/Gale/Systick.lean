import Gale.Lib.Checked
import Gale.Lib.Run

namespace Gale.Systick

open Lib

def U32_MAX : Nat := 2 ^ 32 - 1

def U64_MAX : Nat := 2 ^ 64 - 1

structure AnnounceDecideResult where
  dticks : Nat
  newCycleCount : Nat
  newAnnouncedCycles : Nat

-- From src/systick.rs. The outer none is a panic: the crate is built with overflow checks.
def announceDecide (cycleCount announcedCycles overflowCyc cyclesPerTick : Nat) :
    Option (Option AnnounceDecideResult) := do
  let newCc ← checkedAdd U64_MAX cycleCount overflowCyc
  let dcycles ← checkedSub newCc announcedCycles
  guard (cyclesPerTick ≠ 0)
  let dticks := dcycles / cyclesPerTick
  let announcedAdd ← checkedMul U64_MAX dticks cyclesPerTick
  let newAnnounced ← checkedAdd U64_MAX announcedCycles announcedAdd
  return if U32_MAX < dticks then none else some ⟨dticks, newCc, newAnnounced⟩

structure Clock where
  cycleCount : Nat
  announcedCycles : Nat
  ticks : Nat
  deriving DecidableEq, Repr

def start : Clock := ⟨0, 0, 0⟩

def step (cyclesPerTick : Nat) (c : Clock) (overflowCyc : UInt32) : Option Clock := do
  let r ← (announceDecide c.cycleCount c.announcedCycles overflowCyc.toNat cyclesPerTick).join
  return ⟨r.newCycleCount, r.newAnnouncedCycles, c.ticks + r.dticks⟩

def upTo (cyclesPerTick cycles : Nat) : Clock :=
  ⟨cycles, cycles / cyclesPerTick * cyclesPerTick, cycles / cyclesPerTick⟩

theorem start_eq (cyclesPerTick : Nat) : start = upTo cyclesPerTick 0 := by simp [start, upTo]

section Positive

variable {cyclesPerTick : Nat} (hpos : 0 < cyclesPerTick)
include hpos

theorem dticks_le (cycles overflowCyc : Nat) :
    (cycles + overflowCyc) / cyclesPerTick - cycles / cyclesPerTick ≤ overflowCyc := by
  rw [Nat.sub_le_iff_le_add', Nat.div_le_iff_le_mul_add_pred hpos]
  have hs := Nat.div_add_mod cycles cyclesPerTick
  have hm := Nat.mod_lt cycles hpos
  have hml := Nat.le_mul_of_pos_left overflowCyc hpos
  rw [Nat.mul_add]
  omega

theorem step_upTo (cycles : Nat) (cyc : UInt32) : step cyclesPerTick (upTo cyclesPerTick cycles) cyc =
      if cycles + cyc.toNat ≤ U64_MAX then
        some (upTo cyclesPerTick (cycles + cyc.toNat))
      else none := by
  have hlt := cyc.toNat_lt
  simp only [step, announceDecide, upTo]
  generalize cyc.toNat = more at *
  have hm : cycles / cyclesPerTick ≤ (cycles + more) / cyclesPerTick :=
    Nat.div_le_div_right (Nat.le_add_right _ _)
  have ha : cycles / cyclesPerTick * cyclesPerTick ≤ cycles + more :=
    Nat.le_trans (Nat.div_mul_le_self _ _) (Nat.le_add_right _ _)
  have hd : (cycles + more - cycles / cyclesPerTick * cyclesPerTick) / cyclesPerTick =
      (cycles + more) / cyclesPerTick - cycles / cyclesPerTick := by
    rw [Nat.mul_comm, Nat.sub_mul_div]
  have hs : ¬ U32_MAX < (cycles + more) / cyclesPerTick - cycles / cyclesPerTick := by
    have hdf := dticks_le hpos cycles more
    unfold U32_MAX
    omega
  have had : cycles / cyclesPerTick * cyclesPerTick +
      ((cycles + more) / cyclesPerTick - cycles / cyclesPerTick) * cyclesPerTick =
        (cycles + more) / cyclesPerTick * cyclesPerTick := by
    rw [← Nat.add_mul, Nat.add_sub_cancel' hm]
  by_cases hf : cycles + more ≤ U64_MAX
  · have hle := Nat.div_mul_le_self (cycles + more) cyclesPerTick
    rw [← had] at hle
    have hn := Nat.le_trans hle hf
    simp [checkedAdd_of_le hf, checkedSub_of_le ha, hd, checkedAdd_of_le hn,
      checkedMul_of_le (Nat.le_trans (Nat.le_add_left _ _) hn), hs, had, Nat.ne_of_gt hpos,
      hf, Nat.add_sub_cancel' hm]
  · simp [checkedAdd_of_not_le hf, hf]

theorem run_upTo (cycles : Nat) (ov : List UInt32) : run (step cyclesPerTick) (upTo cyclesPerTick cycles) ov =
      if ov = [] ∨ cycles + (ov.map UInt32.toNat).sum ≤ U64_MAX then
        some (upTo cyclesPerTick (cycles + (ov.map UInt32.toNat).sum))
      else none := by
  induction ov generalizing cycles with
  | nil => simp
  | cons cyc rest ih =>
    simp only [run, step_upTo hpos, List.map_cons, List.sum_cons, reduceCtorEq, false_or, ← Nat.add_assoc]
    by_cases hf : cycles + cyc.toNat ≤ U64_MAX
    · rw [if_pos hf, Option.bind_some, ih]
      refine if_congr (or_iff_right_of_imp ?_) rfl rfl
      rintro rfl
      exact hf
    · rw [if_neg hf, Option.bind_none, if_neg (by omega)]

-- The ticks announced are those of all the cycles together, however the cycles are split, as
-- long as the count of cycles fits its 64 bits; no call returns None before that.
theorem announces_without_drift (overflows : List UInt32) :
    (∀ c, run (step cyclesPerTick) start overflows = some c →
      c.ticks = (overflows.map UInt32.toNat).sum / cyclesPerTick ∧
      cyclesPerTick ∣ c.announcedCycles ∧ c.announcedCycles ≤ c.cycleCount ∧
      c.cycleCount - c.announcedCycles < cyclesPerTick ∧
      ∀ others c', (others.map UInt32.toNat).sum = (overflows.map UInt32.toNat).sum →
        run (step cyclesPerTick) start others = some c' → c'.ticks = c.ticks) ∧
    ((overflows.map UInt32.toNat).sum ≤ U64_MAX →
      (run (step cyclesPerTick) start overflows).isSome) := by
  have hr {overflows : List UInt32} {c : Clock}
      (h : run (step cyclesPerTick) start overflows = some c) :
      c = upTo cyclesPerTick (overflows.map UInt32.toNat).sum := by
    rw [start_eq cyclesPerTick, run_upTo hpos, Nat.zero_add] at h
    exact (Option.some.inj (Option.ite_none_right_eq_some.mp h).2).symm
  refine ⟨fun c hc => ?_, fun hf => ?_⟩
  · rw [hr hc]
    refine ⟨rfl, Nat.dvd_mul_left _ _, Nat.div_mul_le_self _ _, ?_, fun others c' hs hc' => ?_⟩
    · simp only [upTo, Nat.mul_comm _ cyclesPerTick, ← Nat.mod_eq_sub]
      exact Nat.mod_lt _ hpos
    · rw [hr hc', hs]
  · rw [start_eq cyclesPerTick, run_upTo hpos, Nat.zero_add, if_pos (.inr hf)]
    rfl

end Positive

theorem three_ticks_of_a_hundred : run (step 100) start [250, 99] = some ⟨349, 300, 3⟩ ∧
    3 = ([250, 99].map UInt32.toNat).sum / 100 := by
  have hpos : 0 < 100 := by decide
  have hr : run (step 100) start [250, 99] = some ⟨349, 300, 3⟩ := by decide
  exact ⟨hr, ((announces_without_drift hpos [250, 99]).1 _ hr).1⟩

end Gale.Systick
