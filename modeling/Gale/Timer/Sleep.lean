import Gale.Executor.Round
import Gale.Timer

namespace Gale.Timer

open Lib Executor

-- After sleep at one count, slept and expire at the count e ticks later tell
-- exactly whether the ticks asked for have gone by.
def SleepExact (t : Tasks) (count handle ticks : UInt32) (e : Nat) : Prop :=
  let t' := (sleep t count handle ticks).1
  let count' := count + e.toUInt32
  (slept t' count' handle = 1 ↔ ticks.toNat ≤ e) ∧ ∀ i, slot? handle = some i →
      ((t'.expire (now count')).readyBit i = true ↔ t'.readyBit i = true ∨ ticks.toNat ≤ e)

variable (count : UInt32)

theorem now_toNat : (now count).toNat = count.toNat := by
  simp [now]

theorem deadline_toNat (tk : UInt32) : (now count + tk.toUInt64).toNat = count.toNat + tk.toNat := by
  have hc := count.toNat_lt
  have ht := tk.toNat_lt
  rw [UInt64.toNat_add, now_toNat, UInt32.toNat_toUInt64]
  exact Nat.mod_eq_of_lt (by omega)

theorem count_toNat (e : Nat) : (count + e.toUInt32).toNat = (count.toNat + e) % 2 ^ 32 := by
  simp [Nat.toUInt32]

theorem deadline_le_iff (tk : UInt32) {e : Nat} (he : e < 2 ^ 31) :
    now count + tk.toUInt64 ≤ now (count + e.toUInt32) ↔ tk.toNat ≤ e ∧ count.toNat + e < 2 ^ 32 := by
  rw [UInt64.le_iff_toNat_le, deadline_toNat, now_toNat, count_toNat]
  omega

theorem sleepExact_iff (t : Tasks) (count handle ticks : UInt32) (e : Nat)
    (hpending : execState t handle = TASK_PENDING) (hticks : ticks.toNat < 2 ^ 31)
    (he : e < 2 ^ 31) :
    SleepExact t count handle ticks e ↔ count.toNat + e < 2 ^ 32 ∨ e < ticks.toNat := by
  obtain ⟨i, hs, hst⟩ := execState_eq_pending.mp hpending
  have hsp : (sleep t count handle ticks).1 =
      { t with deadline := Function.update t.deadline i (now count + ticks.toUInt64) } := by
    rcases sleep_cases t count handle ticks with ⟨j, hj, _, _, h⟩ | ⟨hrf, _⟩
    · rw [hs] at hj
      cases hj
      rw [h]
    · rcases hrf with hl | hn
      · omega
      · exact absurd hst (hn i hs)
  have hr := deadline_le_iff count ticks he
  have hsl : slept (sleep t count handle ticks).1 (count + e.toUInt32) handle = 1 ↔
      ticks.toNat ≤ e ∧ count.toNat + e < 2 ^ 32 := by
    rw [hsp, slept_of_slot hs, ← hr]
    simp
  have hrd : ((sleep t count handle ticks).1.expire (now (count + e.toUInt32))).readyBit i = true ↔
      (sleep t count handle ticks).1.readyBit i = true ∨
        ticks.toNat ≤ e ∧ count.toNat + e < 2 ^ 32 := by
    rw [hsp, Tasks.readyBit_expire, Bool.or_eq_true, ← hr]
    simp [Tasks.isDue, hst]
  constructor
  · rintro ⟨hex, _⟩
    rw [hsl] at hex
    by_contra hwrapped
    omega
  · intro hw
    have hsm : ticks.toNat ≤ e ∧ count.toNat + e < 2 ^ 32 ↔ ticks.toNat ≤ e := by omega
    refine ⟨hsl.trans hsm, fun j hj => ?_⟩
    rw [hs] at hj
    cases hj
    rw [hrd, hsm]

theorem sleepExact_beforeWrap : SleepExact (Tasks.new.admitTask 0).1 4294967290 0 3 4 :=
  (sleepExact_iff (Tasks.new.admitTask 0).1 4294967290 0 3 4 (by decide) (by decide) (by decide)).mpr
    (.inl (by decide))

-- One tick asked for at the last count; one tick later the counter reads zero.
theorem sleepExact_fails :
    ¬ ∀ (t : Tasks) (count handle ticks : UInt32) (e : Nat), execState t handle = TASK_PENDING →
      1 ≤ ticks.toNat → ticks.toNat < 2 ^ 31 → e < 2 ^ 31 → SleepExact t count handle ticks e := by
  intro h
  have hs := (h (Tasks.new.admitTask 0).1 4294967295 0 1 1 (by decide) (by decide) (by decide)
    (by decide)).1.mpr (by decide)
  exact absurd hs (by decide)

end Gale.Timer
