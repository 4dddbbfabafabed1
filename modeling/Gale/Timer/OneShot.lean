import Gale.Executor.Round
import Gale.Lib.Run
import Gale.Timer

namespace Gale.Timer

open Function

open Lib Executor

theorem readyBit_of_execAdmit (t : Tasks) (prio lo hi : UInt32) (i : Slot)
    (h : (execAdmit t prio lo hi).1.readyBit i = true) : t.readyBit i = true := by
  have ha : (t.admitTask prio).1.readyBit i = true := by
    simp only [execAdmit] at h
    split at h
    · exact h
    · exact h
  exact t.readyBit_of_admitTask prio ha

theorem readyBit_of_sleep (t : Tasks) (count handle tk : UInt32) (i : Slot)
    (h : (sleep t count handle tk).1.readyBit i = true) : t.readyBit i = true := by
  rcases sleep_cases t count handle tk with ⟨_, _, _, _, hs⟩ | ⟨_, hs⟩
  · rwa [hs] at h
  · rwa [hs] at h

-- The executor node, with what a run has asked of each task so far: calls are
-- those of poll_task, and a task is live from the arming of a finite deadline
-- until a round at which that deadline is due.
structure Node where
  tasks : Tasks
  now : UInt64
  calls : List Slot
  wakes : Slot → Nat
  armed : Slot → Nat
  live : Slot → Bool

inductive Op where
  | Admit (prio deadlineLo deadlineHi : UInt32)
  | Sleep (count handle ticks : UInt32)
  | Wake (handle : UInt32)
  | PollRound (nowLo nowHi : UInt32)

namespace Node

def init : Node where
  tasks := Tasks.new
  now := 0
  calls := []
  wakes := fun _ => 0
  armed := fun _ => 0
  live := fun _ => false

def arm (s : Node) (i : Slot) : Node :=
  { s with
    armed := update s.armed i (s.armed i + 1)
    live := update s.live i true }

def admitTask (s : Node) (prio deadlineLo deadlineHi : UInt32) : Node :=
  let (tasks, h) := execAdmit s.tasks prio deadlineLo deadlineHi
  let s := { s with tasks := tasks }
  match slot? h with
  | some i => if Bits.join deadlineLo deadlineHi ≠ U64_MAX then s.arm i else s
  | none => s

def sleep (s : Node) (count handle ticks : UInt32) : Node :=
  let (tasks, ret) := Timer.sleep s.tasks count handle ticks
  let s := { s with tasks := tasks }
  match slot? handle with
  | some i => if ret = 0 then s.arm i else s
  | none => s

def wake (s : Node) (handle : UInt32) : Node :=
  let s := { s with tasks := s.tasks.wake handle }
  match slot? handle with
  | some i => { s with wakes := update s.wakes i (s.wakes i + 1) }
  | none => s

def pollRound (pollTask : PollTask) (s : Node) (nowLo nowHi : UInt32) : Node :=
  let (tasks, calls) := execPollRound pollTask s.tasks s.calls nowLo nowHi
  { s with
    tasks := tasks
    now := Bits.join nowLo nowHi
    calls := calls
    live := fun i => s.live i && !s.tasks.isDue (Bits.join nowLo nowHi) i }

-- Time does not go back from one round to the next.
def step (pollTask : PollTask) (s : Node) : Op → Option Node
  | .Admit prio deadlineLo deadlineHi => some (s.admitTask prio deadlineLo deadlineHi)
  | .Sleep count handle ticks => some (s.sleep count handle ticks)
  | .Wake handle => some (s.wake handle)
  | .PollRound nowLo nowHi =>
    if s.now ≤ Bits.join nowLo nowHi then some (s.pollRound pollTask nowLo nowHi) else none

def OneShot (s : Node) : Prop := ∀ i, s.calls.count i ≤ s.wakes i + s.armed i

-- Every deadline that is due at the round was armed after its task last came due.
def ArmedSinceDue (s : Node) : Op → Prop
  | .PollRound nowLo nowHi =>
    ∀ i, s.tasks.isDue (Bits.join nowLo nowHi) i = true → s.live i = true
  | _ => True

instance (s : Node) (op : Op) : Decidable (s.ArmedSinceDue op) :=
  match op with
  | .PollRound nowLo nowHi => inferInstanceAs (Decidable (∀ i : Slot,
      s.tasks.isDue (Bits.join nowLo nowHi) i = true → s.live i = true))
  | .Admit _ _ _ | .Sleep _ _ _ | .Wake _ => .isTrue trivial

def Inv (s : Node) : Prop :=
  ∀ i, s.calls.count i + (s.tasks.readyBit i).toNat + (s.live i).toNat ≤ s.wakes i + s.armed i

theorem Inv.oneShot {s : Node} (h : s.Inv) : s.OneShot := by
  intro i
  have hi := h i
  omega

theorem init_inv : init.Inv := by
  intro i
  simp [init, Tasks.readyBit_new]

section

variable {s : Node} (h : s.Inv)
include h

theorem Inv.tasks {tasks : Tasks} (hr : ∀ i, tasks.readyBit i = true → s.tasks.readyBit i = true) :
    ({ s with tasks := tasks } : Node).Inv := by
  intro i
  have hi := h i
  have hle : (tasks.readyBit i).toNat ≤ (s.tasks.readyBit i).toNat := Bool.toNat_le_toNat (hr i)
  show s.calls.count i + (tasks.readyBit i).toNat + (s.live i).toNat ≤ s.wakes i + s.armed i
  omega

theorem Inv.arm (i : Slot) : (s.arm i).Inv := by
  intro j
  have hj := h j
  by_cases heq : j = i
  · subst heq
    simp only [Node.arm, update_self, Bool.toNat_true]
    omega
  · simpa only [Node.arm, update_of_ne heq] using hj

theorem admitTask_inv (prio lo hi : UInt32) : (s.admitTask prio lo hi).Inv := by
  have ht := h.tasks (readyBit_of_execAdmit s.tasks prio lo hi)
  simp only [admitTask]
  split
  · split
    · exact ht.arm _
    · exact ht
  · exact ht

theorem sleep_inv (count handle tk : UInt32) : (s.sleep count handle tk).Inv := by
  have ht := h.tasks (readyBit_of_sleep s.tasks count handle tk)
  simp only [sleep]
  split
  · split
    · exact ht.arm _
    · exact ht
  · exact ht

theorem wake_inv (handle : UInt32) : (s.wake handle).Inv := by
  intro i
  have hi := h i
  simp only [wake]
  cases hs : slot? handle with
  | none => simpa [Tasks.readyBit_wake, hs] using hi
  | some j =>
    have hb : ((s.tasks.wake handle).readyBit i).toNat ≤ 1 := Bool.toNat_le _
    by_cases heq : i = j
    · subst heq
      simp only [update_self]
      omega
    · simpa [Tasks.readyBit_wake, hs, heq, Ne.symm heq] using hi

theorem pollRound_inv (pt : PollTask) {nowLo nowHi : UInt32} (ha : s.ArmedSinceDue (.PollRound nowLo nowHi)) :
    (s.pollRound pt nowLo nowHi).Inv := by
  intro i
  have hi := h i
  have hc := Tasks.pollLoop_count pt MAX_TASKS
    (s.tasks.expire (Bits.join nowLo nowHi)) s.calls i
  rw [Tasks.readyBit_expire] at hc
  show ((s.tasks.expire (Bits.join nowLo nowHi)).pollLoop pt MAX_TASKS s.calls).2.count i +
    (((s.tasks.expire (Bits.join nowLo nowHi)).pollLoop pt MAX_TASKS s.calls).1.readyBit i).toNat +
    (s.live i && !s.tasks.isDue (Bits.join nowLo nowHi) i).toNat ≤ s.wakes i + s.armed i
  rw [hc]
  by_cases hd : s.tasks.isDue (Bits.join nowLo nowHi) i
  · have hl := ha i hd
    simp only [hd, hl, Bool.or_true, Bool.toNat_true, Bool.not_true, Bool.and_false, Bool.toNat_false] at hi ⊢
    omega
  · simpa [hd] using hi

end

theorem step_inv {pt : PollTask} {s next : Node} {op : Op} (h : s.Inv)
    (ha : s.ArmedSinceDue op) (hs : s.step pt op = some next) : next.Inv := by
  cases op with
  | Admit prio lo hi =>
    cases hs
    exact admitTask_inv h prio lo hi
  | Sleep count handle tk =>
    cases hs
    exact sleep_inv h count handle tk
  | Wake handle =>
    cases hs
    exact wake_inv h handle
  | PollRound nowLo nowHi =>
    simp only [step, Option.ite_none_right_eq_some, Option.some.injEq] at hs
    obtain ⟨_, rfl⟩ := hs
    exact pollRound_inv h pt ha

theorem oneShot_of_armedSinceDue (pollTask : PollTask) (ops : List Op)
    (harmed : Along (step pollTask) ArmedSinceDue init ops) :
    Throughout (step pollTask) OneShot init ops :=
  (throughout_of_along (fun _ _ _ h hc hs => step_inv h hc hs) init_inv harmed).mono
    fun _ h => h.oneShot

theorem oneShot_of_armedSinceDue_rearmed : Throughout (step fun _ _ => 0) OneShot init
      [.Admit 0 5 0, .PollRound 5 0, .Sleep 5 0 3, .PollRound 8 0] :=
  oneShot_of_armedSinceDue (fun _ _ => 0)
    [.Admit 0 5 0, .PollRound 5 0, .Sleep 5 0 3, .PollRound 8 0]
    (along_cons rfl trivial (along_cons rfl (by decide) (along_cons rfl trivial
      (along_cons rfl (by decide) trivial))))

-- A deadline stays in the table after it came due: the next round polls again.
theorem oneShot_fails :
    ¬ ∀ (pollTask : PollTask) (ops : List Op), Throughout (step pollTask) OneShot init ops := by
  intro h
  have hl := (h (fun _ _ => 0) [.Admit 0 0 0, .PollRound 0 0, .PollRound 1 0]).last rfl
    ⟨0, by decide⟩
  exact absurd hl (by decide)

end Node

end Gale.Timer
