import Gale.Work
import Gale.Lib.Run

namespace Gale.Work

open Function

open Lib Lib.Bits

variable (flags : UInt8)

theorem queued_set : hasFlag FLAG_QUEUED (flags ||| FLAG_QUEUED) = true := by
  rw [hasFlag_or, Bool.or_eq_true]
  exact .inr rfl

theorem queued_clear : hasFlag FLAG_QUEUED (flags &&& ~~~FLAG_QUEUED) = false := by
  rw [hasFlag_and_not]
  have hm : ~~~FLAG_QUEUED &&& FLAG_QUEUED = 0 := rfl
  simp [hm, hasFlag]

theorem running_clear : hasFlag FLAG_RUNNING (flags &&& ~~~FLAG_QUEUED) = hasFlag FLAG_RUNNING flags := by
  rw [hasFlag_and_not]
  rfl

theorem canceling_clear : hasFlag FLAG_CANCELING (flags &&& ~~~FLAG_QUEUED) = hasFlag FLAG_CANCELING flags := by
  rw [hasFlag_and_not]
  rfl

theorem queued_or_of_ne {o : UInt8} (h : hasFlag FLAG_QUEUED o = false) (flags : UInt8) :
    hasFlag FLAG_QUEUED (flags ||| o) = hasFlag FLAG_QUEUED flags := by
  rw [hasFlag_or, h, Bool.or_false]

theorem busy_iff : flags &&& BUSY_MASK ≠ 0 ↔ hasFlag FLAG_RUNNING flags = true ∨ hasFlag FLAG_CANCELING flags = true ∨
        hasFlag FLAG_QUEUED flags = true := by
  have hm : BUSY_MASK = FLAG_RUNNING ||| (FLAG_CANCELING ||| FLAG_QUEUED) := rfl
  have hb : flags &&& BUSY_MASK ≠ 0 ↔ hasFlag BUSY_MASK flags = true := by simp [hasFlag]
  rw [hb, hm, hasFlag_union, hasFlag_union, Bool.or_eq_true, Bool.or_eq_true]

theorem submitDecide_cases : ((submitDecide flags = (.Reject, flags) ∨ submitDecide flags = (.AlreadyQueued, flags))) ∨
    (hasFlag FLAG_QUEUED flags = false ∧ (submitDecide flags = (.Queue, flags ||| FLAG_QUEUED) ∨
        submitDecide flags = (.Requeue, flags ||| FLAG_QUEUED))) := by
  simp only [submitDecide]
  split
  · exact .inl (.inl rfl)
  · split
    · exact .inl (.inr rfl)
    · next hq =>
      refine .inr ⟨by simpa using hq, ?_⟩
      split
      · exact .inr rfl
      · exact .inl rfl

theorem cancelDecide_queued : hasFlag FLAG_QUEUED (cancelDecide flags).2.1 =
      (hasFlag FLAG_CANCELING flags && hasFlag FLAG_QUEUED flags) := by
  have hcn : hasFlag FLAG_QUEUED FLAG_CANCELING = false := rfl
  cases hc : hasFlag FLAG_CANCELING flags <;> cases hq : hasFlag FLAG_QUEUED flags <;>
    simp only [cancelDecide, hc, hq, Bool.not_true, Bool.not_false, Bool.and_true, Bool.and_false,
      Bool.false_eq_true, if_true, if_false] <;>
    split <;> simp [queued_or_of_ne hcn, queued_clear, hq]

theorem cancelDecide_busy : (cancelDecide flags).2.2 ≠ 0 ↔
      hasFlag FLAG_RUNNING flags = true ∨ hasFlag FLAG_CANCELING flags = true := by
  cases hc : hasFlag FLAG_CANCELING flags <;> cases hq : hasFlag FLAG_QUEUED flags <;>
    simp only [cancelDecide, hc, hq, Bool.not_true, Bool.not_false, Bool.and_true, Bool.and_false,
      Bool.false_eq_true, if_true, if_false, busy_iff] <;>
    simp [running_clear, canceling_clear, queued_clear, hc]

theorem cancelDecide_dequeue_iff : (cancelDecide flags).1 = .Dequeue ↔
      hasFlag FLAG_RUNNING flags = true ∧ hasFlag FLAG_CANCELING flags = false ∧ hasFlag FLAG_QUEUED flags = true := by
  have hb := cancelDecide_busy flags
  cases hc : hasFlag FLAG_CANCELING flags <;> cases hq : hasFlag FLAG_QUEUED flags <;>
    simp only [cancelDecide, hc, hq, Bool.not_true, Bool.not_false, Bool.and_true, Bool.and_false,
      Bool.false_eq_true, if_true, if_false] at hb ⊢ <;>
    split <;> simp_all

namespace WorkQ

def queued (q : WorkQ) (work : Item) : Bool := hasFlag FLAG_QUEUED (q.flags work)

def running (q : WorkQ) (work : Item) : Bool := hasFlag FLAG_RUNNING (q.flags work)

def canceling (q : WorkQ) (work : Item) : Bool := hasFlag FLAG_CANCELING (q.flags work)

theorem ne_of_queueRefuses {given : Bool} {env : QueueEnv} {code : Int}
    (h : queueRefuses given env = some code) : code ≠ 1 ∧ code ≠ 2 := by
  have hc : code = EINVAL ∨ code = ENODEV ∨ code = EBUSY := by
    unfold queueRefuses at h
    split at h
    · exact .inl (Option.some.inj h).symm
    · split at h
      · exact .inr (.inl (Option.some.inj h).symm)
      · split at h
        · exact .inr (.inr (Option.some.inj h).symm)
        · split at h
          · exact .inr (.inr (Option.some.inj h).symm)
          · cases h
  rcases hc with rfl | rfl | rfl <;> decide

theorem submit_cases (q : WorkQ) (work : Item) (given : Bool) (env : QueueEnv) :
    (∃ code, (code ≠ 1 ∧ code ≠ 2) ∧ q.galeSubmitToQueueLocked work given env = (q, code)) ∨
    (∃ code, (code = 1 ∨ code = 2) ∧ q.queued work = false ∧ q.galeSubmitToQueueLocked work given env = ({ q with
          pending := q.pending ++ [work]
          flags := update q.flags work (q.flags work ||| FLAG_QUEUED)
          hasQueue := update q.hasQueue work true }, code)) := by
  rcases submitDecide_cases (q.flags work) with (heq | heq) | ⟨hq, heq | heq⟩
  · exact .inl ⟨EBUSY, by decide, by simp [galeSubmitToQueueLocked, heq, SubmitDecision.ret]⟩
  · exact .inl ⟨0, by decide, by simp [galeSubmitToQueueLocked, heq, SubmitDecision.ret]⟩
  · cases hr : queueRefuses (given || q.hasQueue work) env with
    | some code =>
      exact .inl ⟨code, ne_of_queueRefuses hr, by simp [galeSubmitToQueueLocked, heq, hr]⟩
    | none =>
      exact .inr ⟨1, .inl rfl, hq, by simp [galeSubmitToQueueLocked, heq, hr, SubmitDecision.ret]⟩
  · cases hr : queueRefuses (q.hasQueue work) env with
    | some code =>
      exact .inl ⟨code, ne_of_queueRefuses hr, by simp [galeSubmitToQueueLocked, heq, hr]⟩
    | none =>
      exact .inr ⟨2, .inr rfl, hq, by simp [galeSubmitToQueueLocked, heq, hr, SubmitDecision.ret]⟩

def Agrees (q : WorkQ) : Prop :=
  ∀ work, q.pending.count work = if q.queued work then 1 else 0

end WorkQ

inductive Op where
  | Submit (work : Item) (given : Bool) (env : QueueEnv)
  | Cancel (work : Item)
  | Start
  | Finish
  | CancelDone (work : Item)

-- The queue with what the statement counts: the items a cancel answered 0 for
-- since the last submit that queued them, and the handlers run on such items.
structure History where
  q : WorkQ
  canceled : Item → Bool
  strays : List Item

namespace History

def init : History where
  q := WorkQ.init
  canceled := fun _ => false
  strays := []

def step (h : History) : Op → Option History
  | .Submit work given env =>
    let result := h.q.galeSubmitToQueueLocked work given env
    some { h with
      q := result.1
      canceled :=
        if result.2 = 1 ∨ result.2 = 2 then update h.canceled work false
        else h.canceled }
  | .Cancel work =>
    let result := h.q.galeCancelAsyncLocked work
    some { h with
      q := result.1
      canceled := if result.2 = 0 then update h.canceled work true else h.canceled }
  | .Start =>
    h.q.startRunning.map fun (q, work) =>
      { h with q, strays := if h.canceled work then h.strays ++ [work] else h.strays }
  | .Finish => h.q.finishRunning.map fun q => { h with q }
  | .CancelDone work => (h.q.finishCancel work).map fun q => { h with q }

def Consistent (h : History) : Prop := h.q.Agrees ∧ h.strays = []

def CancelsBusy (h : History) : Op → Prop
  | .Cancel work =>
    h.q.queued work = true → h.q.running work = true ∨ h.q.canceling work = true
  | _ => True

structure Inv (h : History) : Prop where
  agrees : h.q.Agrees
  hasQueue : ∀ work, h.q.queued work = true → h.q.hasQueue work = true
  canceled : ∀ work, h.canceled work = true → h.q.queued work = false
  strays : h.strays = []

theorem init_queued (work : Item) : init.q.queued work = false := by
  simp [init, WorkQ.init, WorkQ.queued, hasFlag]

theorem init_inv : init.Inv where
  agrees := by
    intro work
    rw [init_queued]
    rfl
  hasQueue := by
    intro work hq
    rw [init_queued] at hq
    cases hq
  canceled := fun work _ => init_queued work
  strays := rfl

variable {work : Item} {next : History}

theorem queued_update {before after : WorkQ} {flags : UInt8}
    (h : after.flags = update before.flags work flags) (other : Item) :
    after.queued other = if other = work then hasFlag FLAG_QUEUED flags else before.queued other := by
  rw [WorkQ.queued, h, update_apply]
  split <;> rfl

variable {h : History} {op : Op}

theorem Inv.clearFlag (hi : h.Inv) {q : WorkQ} {mask : UInt8} (hm : ~~~mask &&& FLAG_QUEUED = FLAG_QUEUED)
    (hf : q.flags = update h.q.flags work (h.q.flags work &&& ~~~mask))
    (hp : q.pending = h.q.pending) (hh : q.hasQueue = h.q.hasQueue) : Inv { h with q } := by
  have hq : ∀ other, q.queued other = h.q.queued other := by
    intro other
    rw [queued_update hf, hasFlag_and_not, hm]
    split
    · next heq =>
      subst heq
      rfl
    · rfl
  refine ⟨?_, ?_, ?_, hi.strays⟩
  · intro other
    rw [hp, hq]
    exact hi.agrees other
  · intro other ho
    rw [hq] at ho
    rw [hh]
    exact hi.hasQueue other ho
  · intro other ho
    exact (hq other).trans (hi.canceled other ho)

theorem Inv.submit (hi : h.Inv) (hq : h.q.queued work = false) : Inv { h with
      q := { h.q with
        pending := h.q.pending ++ [work]
        flags := update h.q.flags work (h.q.flags work ||| FLAG_QUEUED)
        hasQueue := update h.q.hasQueue work true }
      canceled := update h.canceled work false } where
  agrees := by
    intro o
    have hc := hi.agrees o
    rw [queued_update rfl o, queued_set, List.count_append, List.count_singleton]
    by_cases heq : o = work
    · subst heq
      rw [hq] at hc
      simp [hc]
    · simp [heq, Ne.symm heq, hc]
  hasQueue := by
    intro o ho
    rw [queued_update rfl o] at ho
    by_cases heq : o = work
    · subst heq
      simp
    · rw [if_neg heq] at ho
      simpa only [update_of_ne heq] using hi.hasQueue o ho
  canceled := by
    intro o ho
    by_cases heq : o = work
    · subst heq
      simp at ho
    · simp only [update_of_ne heq] at ho
      rw [queued_update rfl o, if_neg heq]
      exact hi.canceled o ho
  strays := hi.strays

theorem cancel_queued (q : WorkQ) (work other : Item) : (q.galeCancelAsyncLocked work).1.queued other =
      if other = work then q.canceling work && q.queued work else q.queued other := by
  have hf : (q.galeCancelAsyncLocked work).1.flags = update q.flags work (cancelDecide (q.flags work)).2.1 := rfl
  rw [queued_update hf, cancelDecide_queued]
  rfl

theorem cancel_pending (q : WorkQ) (work : Item) : (q.galeCancelAsyncLocked work).1.pending =
      if (q.running work && !q.canceling work && q.queued work) && q.hasQueue work then
        q.pending.erase work
      else q.pending := by
  have ha : decide ((cancelDecide (q.flags work)).1 = .Dequeue) =
      (q.running work && !q.canceling work && q.queued work) := by
    rw [Bool.eq_iff_iff, decide_eq_true_iff, cancelDecide_dequeue_iff]
    simp [WorkQ.running, WorkQ.canceling, WorkQ.queued, and_assoc]
  simp [WorkQ.galeCancelAsyncLocked, ha]

theorem Inv.cancel_agrees (hi : h.Inv) (hcd : h.CancelsBusy (.Cancel work)) :
    (h.q.galeCancelAsyncLocked work).1.Agrees := by
  intro o
  have hct := hi.agrees o
  rw [cancel_queued, cancel_pending]
  by_cases heq : o = work
  · subst heq
    cases hq : h.q.queued o with
    | false =>
      rw [hq] at hct
      simp [hct]
    | true =>
      have hh := hi.hasQueue o hq
      rw [hq] at hct
      cases hcn : h.q.canceling o with
      | true => simp [hct]
      | false =>
        have hrn : h.q.running o = true := by
          rcases hcd hq with hr | hc
          · exact hr
          · rw [hcn] at hc
            cases hc
        simp [hrn, hh, hct]
  · rw [if_neg heq]
    split
    · rw [List.count_erase_of_ne heq, hct]
    · exact hct

theorem Inv.cancel (hin : h.Inv) (hc : h.CancelsBusy (.Cancel work)) (hs : h.step (.Cancel work) = some next) :
    next.Inv := by
  simp only [History.step, Option.some.injEq] at hs
  subst hs
  refine ⟨hin.cancel_agrees hc, ?_, ?_, hin.strays⟩
  · intro o ho
    rw [cancel_queued] at ho
    split at ho
    · next heq =>
      subst heq
      exact hin.hasQueue o (Bool.and_eq_true_iff.mp ho).2
    · exact hin.hasQueue o ho
  · intro o ho
    rw [cancel_queued]
    by_cases heq : o = work
    · subst heq
      rw [if_pos rfl]
      by_cases hb : (h.q.galeCancelAsyncLocked o).2 = 0
      · -- Answered 0: neither running nor being canceled.
        have hi := mt (cancelDecide_busy (h.q.flags o)).mpr (not_not.mpr hb)
        have hcn : h.q.canceling o = false := Bool.eq_false_iff.mpr (not_or.mp hi).2
        rw [hcn, Bool.false_and]
      · simp only [if_neg hb] at ho
        rw [hin.canceled o ho, Bool.and_false]
    · rw [if_neg heq]
      apply hin.canceled
      split at ho
      · simpa only [update_of_ne heq] using ho
      · exact ho

theorem Inv.queued_of_mem (hi : h.Inv) (hm : work ∈ h.q.pending) : h.q.queued work = true := by
  have hc := hi.agrees work
  have hp := List.count_pos_iff.mpr hm
  by_contra hqueued
  rw [if_neg hqueued] at hc
  omega

theorem queued_start {before after : WorkQ} (h : after.flags = update before.flags work
      ((before.flags work &&& ~~~FLAG_QUEUED) ||| FLAG_RUNNING)) (other : Item) :
    after.queued other = if other = work then false else before.queued other := by
  have hr : hasFlag FLAG_QUEUED FLAG_RUNNING = false := rfl
  rw [queued_update h, queued_or_of_ne hr, queued_clear]

theorem Inv.dequeue (hi : h.Inv) {rest : List Item} (hp : h.q.pending = work :: rest) (current : Option Item) :
    Inv { h with
      q := { h.q with
        pending := rest
        flags := update h.q.flags work
          ((h.q.flags work &&& ~~~FLAG_QUEUED) ||| FLAG_RUNNING)
        current } } where
  agrees := by
    intro o
    have hc := hi.agrees o
    rw [queued_start rfl o]
    rw [hp, List.count_cons] at hc
    by_cases heq : o = work
    · subst heq
      have hq := hi.queued_of_mem (hp ▸ List.mem_cons_self)
      simp only [beq_self_eq_true, if_true, hq] at hc
      simp only [if_true, Bool.false_eq_true, if_false]
      omega
    · simpa [heq, Ne.symm heq] using hc
  hasQueue := by
    intro o ho
    rw [queued_start rfl o] at ho
    split at ho
    · cases ho
    · exact hi.hasQueue o ho
  canceled := by
    intro o ho
    rw [queued_start rfl o]
    split
    · rfl
    · exact hi.canceled o ho
  strays := hi.strays

theorem Inv.start (hi : h.Inv) (hs : h.step .Start = some next) : next.Inv := by
  simp only [History.step, Option.map_eq_some_iff] at hs
  obtain ⟨⟨q, work⟩, hstart, rfl⟩ := hs
  simp only [WorkQ.startRunning] at hstart
  split at hstart
  · next first rest _ hp =>
    cases hstart
    have hq := hi.queued_of_mem (hp ▸ List.mem_cons_self)
    have hcn : ¬ h.canceled work = true := by
      intro hc
      rw [hi.canceled work hc] at hq
      cases hq
    simp only [if_neg hcn]
    exact hi.dequeue hp (some work)
  · cases hstart

theorem Inv.step (hi : h.Inv) (hcn : h.CancelsBusy op) (hs : h.step op = some next) : next.Inv := by
  cases op with
  | Submit work given env =>
    rcases h.q.submit_cases work given env with ⟨code, hc, heq⟩ | ⟨code, hc, hq, heq⟩
    · have hr : ¬ (code = 1 ∨ code = 2) := not_or.mpr hc
      simp only [History.step, heq, if_neg hr, Option.some.injEq] at hs
      subst hs
      exact hi
    · simp only [History.step, heq, if_pos hc, Option.some.injEq] at hs
      subst hs
      exact hi.submit hq
  | Cancel work => exact hi.cancel hcn hs
  | Start => exact hi.start hs
  | Finish =>
    simp only [History.step, Option.map_eq_some_iff] at hs
    obtain ⟨q, hf, rfl⟩ := hs
    simp only [WorkQ.finishRunning] at hf
    split at hf
    · cases hf
      exact hi.clearFlag rfl rfl rfl rfl
    · cases hf
  | CancelDone work =>
    simp only [History.step, Option.map_eq_some_iff] at hs
    obtain ⟨q, hd, rfl⟩ := hs
    simp only [WorkQ.finishCancel] at hd
    split at hd
    · cases hd
      exact hi.clearFlag rfl rfl rfl rfl
    · cases hd

theorem Inv.cancel_breaks (hin : h.Inv) (hcd : ¬ h.CancelsBusy op)
    (hs : h.step op = some next) : ¬ next.Consistent := by
  cases op with
  | Cancel work =>
    obtain ⟨hq, hi⟩ := Classical.not_imp.mp hcd
    obtain ⟨hr, hc⟩ := not_or.mp hi
    simp only [Bool.not_eq_true] at hr hc
    simp only [History.step, Option.some.injEq] at hs
    subst hs
    intro hcn
    have ha := hcn.1 work
    have hb := hin.agrees work
    rw [cancel_queued, cancel_pending, if_pos rfl, hc, hr] at ha
    rw [hq] at hb
    simp only [Bool.false_and, Bool.false_eq_true, if_false] at ha
    rw [hb] at ha
    cases ha
  | _ => exact absurd trivial hcd

-- Submitted, then canceled before it ran: the cancel answers 0, the node stays
-- in the list and the queue thread runs the handler.
theorem consistent_fails : ¬ ∀ ops : List Op, Throughout History.step Consistent init ops := by
  intro h
  have hs := (h [.Submit 0 true ⟨true, false, false, false⟩, .Cancel 0, .Start]).2 _ rfl
  have hc := hs.2 _ rfl
  have hst := hc.2 _ rfl
  cases hst.2

theorem consistent_iff_cancelsBusy (ops : List Op) :
    Throughout History.step Consistent init ops ↔ Along History.step CancelsBusy init ops :=
  throughout_iff_along Inv (fun _ hi => ⟨hi.agrees, hi.strays⟩)
    (fun _ _ _ hi hc hs => hi.step hc hs)
    (fun _ _ _ hi hc hs => hi.cancel_breaks hc hs) init_inv ops

end History

end Gale.Work
