import Gale.Executor

namespace Gale.Timer

open Lib Executor

-- time-provider: the 32-bit count, widened.
def now (count : UInt32) : UInt64 := count.toUInt64

-- os-time-math.
def deadline (now ticks : UInt64) : UInt64 := now + ticks

-- exec-provider. Times cross the component boundary as two words.

def execAdmit (t : Tasks) (prio deadlineLo deadlineHi : UInt32) : Tasks × UInt32 :=
  let (t, h) := t.admitTask prio
  match slot? h with
  | some i =>
    ({ t with deadline := Function.update t.deadline i (Bits.join deadlineLo deadlineHi) }, h)
  | none => (t, h)

def execPollRound (pollTask : PollTask) (t : Tasks) (calls : List Slot) (nowLo nowHi : UInt32) :
    Tasks × List Slot :=
  (t.expire (Bits.join nowLo nowHi)).pollRound pollTask calls

def execState (t : Tasks) (h : UInt32) : UInt32 :=
  match slot? h with
  | some i =>
    match t.state i with
    | .Free => 0
    | .Pending => 1
    | .Done => 2
  | none => INVALID

def setDeadline (t : Tasks) (h dLo dHi : UInt32) : Tasks := t.setDeadline h (Bits.join dLo dHi)

def sleptStatus (t : Tasks) (h nowLo nowHi : UInt32) : UInt32 :=
  t.sleptStatus h (Bits.join nowLo nowHi)

-- timer-provider. The count is what the counter reads during the call.

def TASK_PENDING : UInt32 := 1

def sleep (t : Tasks) (count handle ticks : UInt32) : Tasks × UInt32 :=
  if ticks ≥ (1 : UInt32) <<< 31 then (t, INVALID)
  else if execState t handle ≠ TASK_PENDING then (t, INVALID)
  else
    let d := deadline (now count) ticks.toUInt64
    (setDeadline t handle (Bits.lowWord d) (Bits.highWord d), 0)

def slept (t : Tasks) (count handle : UInt32) : UInt32 :=
  let now := now count
  sleptStatus t handle (Bits.lowWord now) (Bits.highWord now)

theorem execState_eq_pending {t : Tasks} {h : UInt32} :
    execState t h = TASK_PENDING ↔ ∃ i, slot? h = some i ∧ t.state i = .Pending := by
  cases hs : slot? h with
  | none => simp [execState, hs, TASK_PENDING, INVALID]
  | some i =>
    cases hst : t.state i with
    | Free | Pending | Done => simp [execState, hs, hst, TASK_PENDING]

theorem sleep_cases (t : Tasks) (count handle tk : UInt32) :
    (∃ i, slot? handle = some i ∧ t.state i = .Pending ∧ tk.toNat < 2 ^ 31 ∧ sleep t count handle tk =
        ({ t with deadline := Function.update t.deadline i (now count + tk.toUInt64) }, 0)) ∨
    ((2 ^ 31 ≤ tk.toNat ∨ ∀ i, slot? handle = some i → t.state i ≠ .Pending) ∧
      sleep t count handle tk = (t, INVALID)) := by
  have hr : tk ≥ (1 : UInt32) <<< 31 ↔ 2 ^ 31 ≤ tk.toNat := UInt32.le_iff_toNat_le
  by_cases ht : tk ≥ (1 : UInt32) <<< 31
  · exact .inr ⟨.inl (hr.mp ht), by rw [sleep, if_pos ht]⟩
  · by_cases hp : execState t handle = TASK_PENDING
    · obtain ⟨i, hsl, hs⟩ := execState_eq_pending.mp hp
      refine .inl ⟨i, hsl, hs, Nat.lt_of_not_le (mt hr.mpr ht), ?_⟩
      rw [sleep, if_neg ht, if_neg (not_not.mpr hp)]
      simp [setDeadline, Tasks.setDeadline, Bits.join_split, deadline, hsl, hs]
    · refine .inr ⟨.inr fun i hsl hs => ?_, ?_⟩
      · exact hp (execState_eq_pending.mpr ⟨i, hsl, hs⟩)
      · rw [sleep, if_neg ht, if_pos hp]

theorem slept_of_slot {t : Tasks} {handle : UInt32} {i : Slot} (hs : slot? handle = some i)
    (count : UInt32) : slept t count handle = if now count ≥ t.deadline i then 1 else 0 := by
  simp [slept, sleptStatus, Tasks.sleptStatus, Bits.join_split, hs]

end Gale.Timer
