import Gale.Executor.Order
import Gale.Executor.Wakeups
import Gale.Timer

namespace Gale.Spawn

open Function Executor Lib Timer

def ST_FREE : UInt32 := 0
def ST_DONE : UInt32 := 2

-- The table behind the providers, the calls of poll_task so far and the handles that were
-- given for an admitted task.
structure Node where
  tasks : Tasks
  calls : List Slot
  admitted : List UInt32

inductive Call where
  | Start (entry : UInt32)
  | Poll (handle : UInt32)
  | Admit (prio deadlineLo deadlineHi : UInt32)
  | PollRound (nowLo nowHi : UInt32)
  | Sleep (count handle ticks : UInt32)
  | Wake (handle : UInt32)

def Call.handle? : Call → Option UInt32
  | .Poll handle | .Sleep _ handle _ | .Wake handle => some handle
  | _ => none

namespace Node

def init : Node := ⟨Tasks.new, [], []⟩

def given (s : Node) (h : UInt32) : List UInt32 := if h = INVALID then s.admitted else s.admitted ++ [h]

def start (s : Node) : UInt32 × Node :=
  let (tasks, h) := s.tasks.admitTask 0
  (h, { s with tasks := tasks.wake h, admitted := s.given h })

def pollRound (pollTask : PollTask) (s : Node) : Node :=
  let (tasks, calls) := s.tasks.pollRound pollTask s.calls
  { s with tasks := tasks, calls := calls }

def poll (pollTask : PollTask) (s : Node) (handle : UInt32) : UInt32 × Node :=
  let state := execState s.tasks handle
  if state = ST_FREE ∨ state = INVALID then (INVALID, s)
  else
    let s := s.pollRound pollTask
    let state := execState s.tasks handle
    (if state = ST_DONE then 1 else if state = ST_FREE ∨ state = INVALID then INVALID else 0, s)

-- A call that returns nothing is given the answer 0.
def call (pollTask : PollTask) (s : Node) : Call → UInt32 × Node
  | .Start _ => s.start
  | .Poll handle => s.poll pollTask handle
  | .Admit prio deadlineLo deadlineHi =>
    let (tasks, h) := execAdmit s.tasks prio deadlineLo deadlineHi
    (h, { s with tasks := tasks, admitted := s.given h })
  | .PollRound nowLo nowHi =>
    let (tasks, calls) := execPollRound pollTask s.tasks s.calls nowLo nowHi
    (0, { s with tasks := tasks, calls := calls })
  | .Sleep count handle ticks =>
    let (tasks, ret) := sleep s.tasks count handle ticks
    (ret, { s with tasks := tasks })
  | .Wake handle => (0, { s with tasks := s.tasks.wake handle })

def after (pollTask : PollTask) (calls : List Call) : Node :=
  calls.foldl (fun s c => (s.call pollTask c).2) init

def Completed (pollTask : PollTask) (s : Node) (h : UInt32) : Prop :=
  ∃ i, slot? h = some i ∧ Finished pollTask [] s.calls i

structure Inv (pollTask : PollTask) (s : Node) : Prop where
  pending : ∀ i, s.tasks.readyBit i = true → s.tasks.state i = .Pending
  done : ∀ i, s.tasks.state i = .Done ↔ Finished pollTask [] s.calls i
  once : ∀ before rest, s.calls = before ++ rest → ∀ i ∈ rest, ¬ Finished pollTask [] before i
  admitted : ∀ h, h ∈ s.admitted ↔ ∃ i, slot? h = some i ∧ s.tasks.state i ≠ .Free
  nodup : s.admitted.Nodup

end Node

variable {i : Slot}

theorem finished_append {pollTask : PollTask} {calls first b : List Slot} : Finished pollTask calls (first ++ b) i ↔
      Finished pollTask calls first i ∨ Finished pollTask (calls ++ first) b i := by
  induction first generalizing calls with
  | nil =>
    have hn : ¬ Finished pollTask calls [] i := fun h => by simpa using finished_mem h
    simp [hn]
  | cons j first ih => simp [finished_cons, ih, or_assoc]

theorem slot?_eq_some {h : UInt32} : slot? h = some i ↔ h = i.val.toUInt32 := by
  constructor
  · intro hs
    obtain ⟨hlt, heq⟩ := Option.dite_none_right_eq_some.mp hs
    cases heq
    exact UInt32.ofNat_toNat.symm
  · rintro rfl
    exact Tasks.slot?_slot i

theorem handle_ne_invalid (i : Slot) : i.val.toUInt32 ≠ INVALID := by
  intro heq
  cases (Tasks.slot?_slot i).symm.trans (congrArg slot? heq)

namespace Node

variable {pollTask : PollTask} {s : Node}

theorem init_inv : init.Inv pollTask where
  pending := by simp [init, Tasks.readyBit_new]
  done := by
    intro i
    have hn : ¬ Finished pollTask [] [] i := fun h => by simpa using finished_mem h
    simp [init, Tasks.new, hn]
  once := by simp [init]
  admitted := by simp [init, Tasks.new]
  nodup := List.nodup_nil

theorem Inv.tasks (h : s.Inv pollTask) {tasks : Tasks} (hs : tasks.state = s.tasks.state)
    (hp : ∀ i, tasks.readyBit i = true → s.tasks.state i = .Pending) :
    Inv pollTask { s with tasks := tasks } where
  pending := by simpa only [hs] using hp
  done := by simpa only [hs] using h.done
  once := h.once
  admitted := by simpa only [hs] using h.admitted
  nodup := h.nodup

theorem Inv.admitTask (h : s.Inv pollTask) (prio : UInt32) : Inv pollTask { s with
      tasks := (s.tasks.admitTask prio).1
      admitted := s.given (s.tasks.admitTask prio).2 } := by
  rcases s.tasks.admitTask_cases prio with ⟨i, hf, ha⟩ | ha
  · rw [ha, given, if_neg (handle_ne_invalid i)]
    have hrd (j : Slot) := Tasks.readyBit_consume s.tasks i j
    refine ⟨fun j hr => ?_, fun j => ?_, h.once, fun handle => ?_, ?_⟩
    · have hb := (hrd j).symm.trans hr
      rw [Bool.and_eq_true] at hb
      have hne : j ≠ i := fun heq => by simp [heq] at hb
      exact (update_of_ne hne _ _).trans (h.pending j hb.1)
    · rw [← h.done]
      by_cases heq : j = i
      · simp [heq, hf]
      · simp [update_of_ne heq]
    · rw [List.mem_append, List.mem_singleton, h.admitted, ← slot?_eq_some]
      constructor
      · rintro (⟨j, hj, hne⟩ | hi)
        · have hji : j ≠ i := fun heq => hne (heq ▸ hf)
          exact ⟨j, hj, by simpa [update_of_ne hji] using hne⟩
        · exact ⟨i, hi, by simp⟩
      · rintro ⟨j, hj, hne⟩
        by_cases heq : j = i
        · exact .inr (heq ▸ hj)
        · exact .inl ⟨j, hj, by simpa [update_of_ne heq] using hne⟩
    · rw [← List.concat_eq_append]
      refine h.nodup.concat fun hm => ?_
      obtain ⟨j, hj, hne⟩ := (h.admitted _).mp hm
      cases (Tasks.slot?_slot i).symm.trans hj
      exact hne hf
  · rw [ha]
    exact h

theorem Inv.round (h : s.Inv pollTask) : (s.pollRound pollTask).Inv pollTask := by
  obtain ⟨order, hc, ht⟩ := pollLoop_turns pollTask MAX_TASKS s.tasks s.calls s.tasks.readySlots_card_le
  have hn : order.Nodup := ht.sorted.imp fun hlt => by
    rintro rfl
    exact lt_irrefl _ hlt
  have hp {i : Slot} (hi : i ∈ order) : s.tasks.state i = .Pending :=
    h.pending i ((ht.mem_iff i).mp hi)
  have hfr {i : Slot} (hi : i ∈ order) : ¬ Finished pollTask [] s.calls i := by
    rw [← h.done, hp hi]
    simp
  have hcl : (s.pollRound pollTask).calls = s.calls ++ order := hc
  refine ⟨fun i hr => ?_, fun i => ?_, fun before rest heq i hi hf => ?_, fun handle => ?_, h.nodup⟩
  · cases (Tasks.pollRound_drained pollTask s.tasks s.calls i).symm.trans hr
  · rw [hcl, finished_append, List.nil_append, ← h.done]
    constructor
    · intro hd
      by_cases hf : Finished pollTask s.calls order i
      · exact .inr hf
      · exact .inl ((ht.state_of_not_finished hf).symm.trans hd)
    · rintro (hd | hf)
      · exact ht.state_of_finished (.inr hd)
      · exact ht.state_of_finished (.inl hf)
  · rcases List.append_eq_append_iff.mp (hcl.symm.trans heq) with ⟨mid, rfl, rfl⟩ | ⟨mid, hm, rfl⟩
    · rcases finished_append.mp hf with hol | hnw
      · exact hfr (List.mem_append_right _ hi) hol
      · exact List.disjoint_of_nodup_append hn (finished_mem hnw) hi
    · rcases List.mem_append.mp hi with hmd | ho
      · exact h.once before mid hm i hmd hf
      · exact hfr ho (by rw [hm, finished_append]; exact .inl hf)
  · refine (h.admitted handle).trans (exists_congr fun i => and_congr_right fun _ => not_congr ?_)
    by_cases hf : Finished pollTask s.calls order i
    · have hdn := ht.state_of_finished (.inl hf)
      rw [hp (finished_mem hf)]
      exact ⟨nofun, fun hfre => nomatch hdn.symm.trans hfre⟩
    · exact Eq.congr_left (ht.state_of_not_finished hf).symm

theorem Inv.wake (h : s.Inv pollTask) (handle : UInt32) : Inv pollTask { s with tasks := s.tasks.wake handle } := by
  refine h.tasks (s.tasks.wake_state handle) fun i hr => ?_
  rw [Tasks.readyBit_wake, Bool.or_eq_true, decide_eq_true_iff] at hr
  exact hr.elim (h.pending i) And.right

theorem Inv.call (h : s.Inv pollTask) (c : Call) : (s.call pollTask c).2.Inv pollTask := by
  cases c with
  | Start entry => exact (h.admitTask 0).wake _
  | Poll handle =>
    simp only [Node.call, poll]
    split
    · exact h
    · exact h.round
  | Admit prio lo hi =>
    have ha := h.admitTask prio
    simp only [Node.call, execAdmit]
    split
    · exact ha.tasks rfl ha.pending
    · exact ha
  | PollRound nowLo nowHi =>
    have he := h.tasks (s.tasks.expire_state (Bits.join nowLo nowHi)) fun i hr => by
      rw [Tasks.readyBit_expire, Bool.or_eq_true, Tasks.isDue, Bool.and_eq_true, decide_eq_true_iff] at hr
      exact hr.elim (h.pending i) And.left
    have hrn := he.round
    simp only [pollRound] at hrn
    simp only [Node.call, execPollRound]
    exact hrn
  | Sleep count handle tk =>
    rcases sleep_cases s.tasks count handle tk with ⟨i, -, -, -, hs⟩ | ⟨-, hs⟩
    · simp only [Node.call, hs]
      exact h.tasks rfl h.pending
    · simp only [Node.call, hs]
      exact h
  | Wake handle => exact h.wake handle

theorem after_inv (pollTask : PollTask) (calls : List Call) : (after pollTask calls).Inv pollTask :=
  List.foldlRecOn calls _ init_inv fun _ h c _ => h.call c

variable {handle : UInt32} {i : Slot}

theorem Inv.not_admitted (h : s.Inv pollTask) (hn : handle ∉ s.admitted)
    (hi : slot? handle = some i) : s.tasks.state i = .Free := by
  by_contra hne
  exact hn ((h.admitted handle).mpr ⟨i, hi, hne⟩)

theorem execState_of_slot {t : Tasks} (hi : slot? handle = some i) :
    (execState t handle = ST_FREE ∨ execState t handle = INVALID ↔ t.state i = .Free) ∧
      (execState t handle = ST_DONE ↔ t.state i = .Done) := by
  cases hs : t.state i <;> simp [execState, hi, hs, ST_FREE, ST_DONE, INVALID]

theorem Inv.poll_of_not_admitted (h : s.Inv pollTask) (hn : handle ∉ s.admitted) :
    s.poll pollTask handle = (INVALID, s) := by
  rw [poll]
  refine if_pos ?_
  cases hs : slot? handle with
  | none => simp [execState, hs]
  | some i => exact (execState_of_slot hs).1.mpr (h.not_admitted hn hs)

theorem Inv.untouched (h : s.Inv pollTask) {c : Call} (hc : c.handle? = some handle)
    (hn : handle ∉ s.admitted) : (s.call pollTask c).2.tasks = s.tasks := by
  cases c with
  | Start _ | Admit _ _ _ | PollRound _ _ => cases hc
  | Poll _ =>
    cases hc
    rw [Node.call, h.poll_of_not_admitted hn]
  | Sleep count _ tk =>
    cases hc
    rcases sleep_cases s.tasks count handle tk with ⟨i, hi, hp, -⟩ | ⟨-, hs⟩
    · cases hp.symm.trans (h.not_admitted hn hi)
    · simp only [Node.call, hs]
  | Wake _ =>
    cases hc
    simp only [Node.call, Tasks.wake]
    cases hs : slot? handle with
    | none => rfl
    | some i => simp [h.not_admitted hn hs]

theorem Inv.poll_reply (h : s.Inv pollTask) (handle : UInt32) :
    ((s.poll pollTask handle).1 = 1 ↔ (s.poll pollTask handle).2.Completed pollTask handle) ∧
    ((s.poll pollTask handle).1 = 0 ↔ handle ∈ s.admitted ∧ ¬ (s.poll pollTask handle).2.Completed pollTask handle) ∧
    ((s.poll pollTask handle).1 = INVALID ↔ handle ∉ s.admitted) := by
  by_cases hn : handle ∈ s.admitted
  · obtain ⟨i, hi, hne⟩ := (h.admitted handle).mp hn
    have hr := h.round
    obtain ⟨j, hj, hk⟩ := (hr.admitted handle).mp hn
    cases hi.symm.trans hj
    have hc : (s.pollRound pollTask).Completed pollTask handle ↔
        execState (s.pollRound pollTask).tasks handle = ST_DONE := by
      rw [(execState_of_slot hi).2, hr.done]
      simp [Completed, hi]
    rw [poll, if_neg (mt (execState_of_slot hi).1.mp hne)]
    simp only [hc, mt (execState_of_slot hi).1.mp hk, if_false, hn, true_and, not_true]
    by_cases hd : execState (s.pollRound pollTask).tasks handle = ST_DONE
    · simp [hd, INVALID]
    · simp [hd, INVALID]
  · have hc : ¬ s.Completed pollTask handle := by
      rintro ⟨i, hi, hf⟩
      cases ((h.done i).mpr hf).symm.trans (h.not_admitted hn hi)
    rw [h.poll_of_not_admitted hn]
    simp [hn, hc, INVALID]

theorem call_calls (s : Node) (c : Call) : ∃ more, (s.call pollTask c).2.calls = s.calls ++ more := by
  cases c with
  | Start _ | Admit _ _ _ | Sleep _ _ _ | Wake _ => exact ⟨[], (List.append_nil _).symm⟩
  | Poll handle =>
    simp only [Node.call, poll]
    split
    · exact ⟨[], (List.append_nil _).symm⟩
    · exact s.tasks.pollLoop_calls pollTask MAX_TASKS s.calls
  | PollRound nowLo nowHi =>
    exact (s.tasks.expire (Bits.join nowLo nowHi)).pollLoop_calls pollTask MAX_TASKS s.calls

theorem Inv.stays_done (h : s.Inv pollTask) (c : Call) (hd : s.tasks.state i = .Done) :
    (s.call pollTask c).2.tasks.state i = .Done := by
  obtain ⟨more, hm⟩ := s.call_calls c
  rw [(h.call c).done, hm, finished_append]
  exact .inl ((h.done i).mp hd)

theorem handles_name_one_task (pollTask : PollTask) (calls : List Call) :
    (after pollTask calls).admitted.Nodup ∧
    (∀ i, (after pollTask calls).tasks.state i = .Done ↔
      Finished pollTask [] (after pollTask calls).calls i) ∧
    (∀ before rest, (after pollTask calls).calls = before ++ rest →
      ∀ i ∈ rest, ¬ Finished pollTask [] before i) ∧
    (∀ c i, (after pollTask calls).tasks.state i = .Done →
      ((after pollTask calls).call pollTask c).2.tasks.state i = .Done) ∧
    (∀ c handle, c.handle? = some handle → handle ∉ (after pollTask calls).admitted →
      ((after pollTask calls).call pollTask c).2.tasks = (after pollTask calls).tasks) ∧
    ∀ handle reply next, (after pollTask calls).call pollTask (.Poll handle) = (reply, next) →
      (reply = 1 ↔ next.Completed pollTask handle) ∧
      (reply = 0 ↔ handle ∈ (after pollTask calls).admitted ∧ ¬ next.Completed pollTask handle) ∧
      (reply = INVALID ↔ handle ∉ (after pollTask calls).admitted) := by
  have h := after_inv pollTask calls
  refine ⟨h.nodup, h.done, h.once, fun c _ => h.stays_done c, fun _ _ => h.untouched, ?_⟩
  intro handle reply next hp
  obtain ⟨rfl, rfl⟩ := Prod.mk.inj hp
  exact h.poll_reply handle

end Node

end Gale.Spawn
