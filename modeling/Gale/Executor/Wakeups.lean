import Gale.Executor.Round

namespace Gale.Executor

open Function Lib

namespace Tasks

theorem slot?_slot (i : Slot) : slot? i.val.toUInt32 = some i := by
  have hi : i.val < 8 := i.isLt
  have hw : i.val.toUInt32.toNat = i.val := by
    simp only [Nat.toUInt32, UInt32.toNat_ofNat']
    omega
  simp [slot?, hw]

variable (t : Tasks)

theorem admitTask_cases (prio : UInt32) : (∃ i, t.state i = .Free ∧ t.admitTask prio = ({ t with
        state := update t.state i .Pending
        prio := update t.prio i prio
        ready := Bits.clear t.ready i.val }, i.val.toUInt32)) ∨
    t.admitTask prio = (t, INVALID) := by
  unfold admitTask
  cases hf : (List.finRange MAX_TASKS).find? fun i => t.state i = .Free with
  | none => exact .inr rfl
  | some i =>
    have hi : t.state i = .Free := by simpa using List.find?_some hf
    exact .inl ⟨i, hi, rfl⟩

theorem expireSlot_state (now : UInt64) (t : Tasks) (i : Slot) : (expireSlot now t i).state = t.state := by
  unfold expireSlot
  split
  · rfl
  · rfl

@[simp] theorem expire_state (now : UInt64) : (t.expire now).state = t.state := by
  exact List.foldlRecOn (motive := fun t' => t'.state = t.state) _ _ rfl
    fun t' h i _ => (expireSlot_state now t' i).trans h

@[simp] theorem wake_state (h : UInt32) : (t.wake h).state = t.state := by
  unfold wake
  split
  · split
    · rfl
    · rfl
  · rfl

theorem setDeadline_frame (h : UInt32) (d : UInt64) :
    (t.setDeadline h d).state = t.state ∧ (t.setDeadline h d).ready = t.ready := by
  unfold setDeadline
  split
  · split
    · exact ⟨rfl, rfl⟩
    · exact ⟨rfl, rfl⟩
  · exact ⟨rfl, rfl⟩

variable (pt : PollTask)

theorem pollLoop_calls (fuel : Nat) (t : Tasks) (calls : List Slot) :
    ∃ dispatched, (t.pollLoop pt fuel calls).2 = calls ++ dispatched := by
  induction fuel generalizing t calls with
  | zero => exact ⟨[], by simp [pollLoop]⟩
  | succ fuel ih =>
    unfold pollLoop
    split
    · exact ⟨[], by simp⟩
    · next i hp =>
        obtain ⟨dispatched, hc⟩ :=
          ih ((t.consume i).dispatchOne i (pt calls i)) (calls ++ [i])
        exact ⟨i :: dispatched, by rw [hc, List.append_assoc, List.singleton_append]⟩

theorem pollLoop_pending (fuel : Nat) (t : Tasks) (calls : List Slot) {i : Slot}
    (h : (t.pollLoop pt fuel calls).1.state i = .Pending) :
    t.state i = .Pending := by
  induction fuel generalizing t calls with
  | zero => exact h
  | succ fuel ih =>
    unfold pollLoop at h
    split at h
    · exact h
    · next j hp =>
        have hr := ih _ _ h
        unfold dispatchOne at hr
        split at hr
        · by_cases heq : i = j
          · subst heq
            simp at hr
          · simpa [consume, heq] using hr
        · exact hr

theorem pollRound_dispatched (calls : List Slot) : ∃ d, (t.pollRound pt calls).2 = calls ++ d ∧
      ∀ i, d.count i = (t.readyBit i).toNat := by
  obtain ⟨d, hc⟩ := t.pollLoop_calls pt MAX_TASKS calls
  refine ⟨d, hc, fun i => ?_⟩
  have hcn := pollLoop_count pt MAX_TASKS t calls i
  have hd := pollRound_drained pt t calls i
  unfold pollRound at hd
  rw [hd, hc, List.count_append, Bool.toNat_false] at hcn
  omega

end Tasks

-- The table after a sequence of calls, with the calls of poll_task so far and
-- which slots were woken since their last dispatch or admission. A wake is a call
-- of wake for the slot, or an expire at which its deadline has passed.
structure History where
  tasks : Tasks
  calls : List Slot
  woken : Slot → Bool

inductive Op where
  | Admit (prio : UInt32)
  | Wake (h : UInt32)
  | SetDeadline (h : UInt32) (d : UInt64)
  | Expire (now : UInt64)
  | PollRound

namespace History

def init : History := ⟨Tasks.new, [], fun _ => false⟩

def mark (s : History) (h : UInt32) (woken : Bool) : Slot → Bool :=
  match slot? h with
  | some i => Function.update s.woken i woken
  | none => s.woken

def step (pollTask : PollTask) (s : History) : Op → History
  | .Admit prio =>
    let (tasks, h) := s.tasks.admitTask prio
    { s with tasks := tasks, woken := s.mark h false }
  | .Wake h => { s with tasks := s.tasks.wake h, woken := s.mark h true }
  | .SetDeadline h d => { s with tasks := s.tasks.setDeadline h d }
  | .Expire now =>
    { s with
      tasks := s.tasks.expire now
      woken := fun i => s.woken i || s.tasks.deadline i ≤ now }
  | .PollRound =>
    let (tasks, calls) := s.tasks.pollRound pollTask s.calls
    { tasks := tasks
      calls := calls
      woken := fun i => s.woken i && i ∉ calls.drop s.calls.length }

def after (pollTask : PollTask) (ops : List Op) : History := ops.foldl (step pollTask) init

def Inv (s : History) : Prop :=
  ∀ i, s.tasks.readyBit i = (decide (s.tasks.state i = .Pending) && s.woken i)

theorem init_inv : init.Inv := by
  intro i
  simp [init, Tasks.readyBit_new]

variable {s : History}

section

variable (h : s.Inv) (pt : PollTask)
include h pt

theorem Inv.admitTask (prio : UInt32) : (s.step pt (.Admit prio)).Inv := by
  intro i
  rcases s.tasks.admitTask_cases prio with ⟨j, hf, ha⟩ | ha
  · have hb := Tasks.readyBit_consume s.tasks j i
    have hi := h i
    simp only [step, ha, mark, Tasks.slot?_slot]
    have hr : Tasks.readyBit { s.tasks with
        state := update s.tasks.state j .Pending
        prio := update s.tasks.prio j prio
        ready := Bits.clear s.tasks.ready j.val } i = (s.tasks.readyBit i && !decide (j = i)) := hb
    rw [hr]
    by_cases heq : i = j
    · subst heq
      simp
    · simp [heq, Ne.symm heq, hi]
  · simpa [step, ha, mark, slot?, INVALID, MAX_TASKS] using h i

theorem Inv.wake (handle : UInt32) : (s.step pt (.Wake handle)).Inv := by
  intro i
  have hi := h i
  simp only [step, Tasks.readyBit_wake, Tasks.wake_state, mark, hi]
  cases hs : slot? handle with
  | none => simp
  | some j =>
    by_cases heq : i = j
    · subst heq
      by_cases hp : s.tasks.state i = .Pending
      · simp [hp]
      · simp [hp]
    · simp [heq, Ne.symm heq]

theorem Inv.setDeadline (handle : UInt32) (d : UInt64) : (s.step pt (.SetDeadline handle d)).Inv := by
  intro i
  have hf := s.tasks.setDeadline_frame handle d
  have hi := h i
  simp only [step, Tasks.readyBit, hf.1, hf.2]
  exact hi

theorem Inv.expire (now : UInt64) : (s.step pt (.Expire now)).Inv := by
  intro i
  have hi := h i
  simp only [step, Tasks.readyBit_expire, Tasks.expire_state, Tasks.isDue, hi, Bool.and_or_distrib_left]

theorem pollRound_woken (i : Slot) (hp : s.tasks.state i = .Pending) : (s.step pt .PollRound).woken i = false := by
  obtain ⟨dispatched, hc, hcn⟩ := s.tasks.pollRound_dispatched pt s.calls
  simp only [step, hc, List.drop_left]
  by_cases hw : s.woken i
  · have hr : s.tasks.readyBit i = true := by rw [h i, hw]; simp [hp]
    have hm : i ∈ dispatched := by
      have ho := hcn i
      rw [hr, Bool.toNat_true] at ho
      exact List.count_pos_iff.mp (by omega)
    simp [hm]
  · simp [hw]

theorem Inv.pollRound : (s.step pt .PollRound).Inv := by
  intro i
  have hd : (s.step pt .PollRound).tasks.readyBit i = false :=
    Tasks.pollRound_drained pt s.tasks s.calls i
  rw [hd]
  by_cases hp : (s.step pt .PollRound).tasks.state i = .Pending
  · have hb := Tasks.pollLoop_pending pt MAX_TASKS s.tasks s.calls hp
    rw [pollRound_woken h pt i hb, Bool.and_false]
  · simp [hp]

theorem Inv.step (op : Op) : (s.step pt op).Inv := by
  cases op with
  | Admit prio => exact h.admitTask pt prio
  | Wake handle => exact h.wake pt handle
  | SetDeadline handle d => exact h.setDeadline pt handle d
  | Expire now => exact h.expire pt now
  | PollRound => exact h.pollRound pt

end

theorem after_inv (pollTask : PollTask) (ops : List Op) : (after pollTask ops).Inv :=
  List.foldlRecOn ops (History.step pollTask) init_inv fun _ h op _ => h.step pollTask op

theorem after_pollRound (pollTask : PollTask) (ops : List Op) :
    after pollTask (ops ++ [.PollRound]) = (after pollTask ops).step pollTask .PollRound := by
  simp [after]

theorem dispatched_iff_woken (pollTask : PollTask) (ops : List Op) : ∃ dispatched,
      (after pollTask (ops ++ [.PollRound])).calls = (after pollTask ops).calls ++ dispatched ∧
      ∀ i, dispatched.count i =
          (if (after pollTask ops).tasks.state i = .Pending ∧ (after pollTask ops).woken i = true
            then 1 else 0) ∧
        ((after pollTask (ops ++ [.PollRound])).tasks.state i = .Pending →
          (after pollTask (ops ++ [.PollRound])).woken i = false) := by
  have hi := after_inv pollTask ops
  rw [after_pollRound]
  generalize after pollTask ops = s at hi
  obtain ⟨dispatched, hc, hcn⟩ := s.tasks.pollRound_dispatched pollTask s.calls
  refine ⟨dispatched, hc, fun i => ⟨?_, fun hp => ?_⟩⟩
  · rw [hcn i, hi i]
    by_cases hp : s.tasks.state i = .Pending
    · cases hw : s.woken i with
      | true => simp [hp]
      | false => simp
    · simp [hp]
  · exact pollRound_woken hi pollTask i
      (Tasks.pollLoop_pending pollTask MAX_TASKS s.tasks s.calls hp)

end History

end Gale.Executor
