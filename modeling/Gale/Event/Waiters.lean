import Gale.Event
import Gale.Lib.Run
import Gale.Lib.Bits

namespace Gale.Event

open Lib

def Thread.Met (events : UInt32) (thread : Thread) : Prop :=
  if thread.eventOptions &&& K_EVENT_WAIT_MASK = K_EVENT_WAIT_ALL then
    events &&& thread.events = thread.events
  else events &&& thread.events ≠ 0

instance (events : UInt32) : DecidablePred (Thread.Met events) := fun thread => by
  unfold Thread.Met
  infer_instance

def Thread.clears (thread : Thread) : Bool := thread.eventOptions &&& K_EVENT_OPTION_CLEAR ≠ 0

def Call.asked (call : Call) : Thread := ⟨call.events, call.options⟩

theorem Thread.Met.of_and {events kept : UInt32} {thread : Thread}
    (h : thread.Met (events &&& kept)) : thread.Met events := by
  unfold Thread.Met at h ⊢
  split
  · next hal =>
      rw [if_pos hal] at h
      exact Bits.and_mask_eq_mask h
  · next ha =>
      rw [if_neg ha] at h
      exact fun hz => h (Bits.and_mask_eq_zero hz kept)

theorem waitCondition_eq_all (options : UInt32) : (options &&& K_EVENT_WAIT_MASK).toUInt8 = WAIT_ALL ↔
      options &&& K_EVENT_WAIT_MASK = K_EVENT_WAIT_ALL := by
  apply Bits.toUInt8_eq_one
  rw [UInt32.toNat_and]
  have := @Nat.and_le_right options.toNat K_EVENT_WAIT_MASK.toNat
  have : K_EVENT_WAIT_MASK.toNat = 1 := rfl
  omega

theorem waitDecide_eq (es : UInt32) (thread : Thread) (isNoWait : Bool) :
    waitDecide es thread.events (thread.eventOptions &&& K_EVENT_WAIT_MASK).toUInt8 isNoWait =
      if thread.Met es then ⟨.Matched, es &&& thread.events⟩
      else if isNoWait then ⟨.Timeout, 0⟩ else ⟨.Pend, 0⟩ := by
  simp only [waitDecide, waitCondition_eq_all, Thread.Met]
  split <;> simp only [decide_eq_true_eq]

namespace State

def matched (s : State) (events : UInt32) : List Tid :=
  s.waitQ.filter fun thread => (s.thread thread).Met events

def taken (s : State) (events : UInt32) (threads : List Tid) (bits : UInt32) : UInt32 :=
  threads.foldl (fun bits thread =>
    if (s.thread thread).clears then bits ||| (events &&& (s.thread thread).events) else bits) bits

def deliver (events : UInt32) (s : State) (thread : Tid) : State :=
  s.setMatched thread (events &&& (s.thread thread).events)

variable {s : State} {thread : Tid} {newEvents : UInt32} (cfg : Config)

theorem eventWalkOp_met {data : EventWalkData} (h : (s.thread thread).Met data.events) :
    eventWalkOp cfg (s, data) thread = (if cfg.waitqScalable then s.deliver data.events thread
        else (s.deliver data.events thread).wakeThread 0 thread,
      { head := if cfg.waitqScalable then thread :: data.head else data.head
        events := data.events
        clearEvents := s.taken data.events [thread] data.clearEvents }) := by
  simp only [eventWalkOp, waitDecide_eq, if_pos h, if_true, deliver, taken, List.foldl_cons,
    List.foldl_nil, Thread.clears, decide_eq_true_eq]
  split <;> split <;> rfl

theorem eventWalkOp_not_met {data : EventWalkData} (h : ¬ (s.thread thread).Met data.events) :
    eventWalkOp cfg (s, data) thread = (s, data) := by
  simp only [eventWalkOp, waitDecide_eq, if_neg h, Bool.false_eq_true, if_false, reduceCtorEq]

theorem deliver_thread_ne (es : UInt32) (s : State) {other : Tid} (h : other ≠ thread) :
    (s.deliver es thread).thread other = s.thread other := Function.update_of_ne h _ _

@[simp] theorem wakeThread_thread (ret : Int) (s : State) (thread : Tid) :
    (s.wakeThread ret thread).thread = s.thread := rfl

@[simp] theorem wakeThread_taken (ret : Int) (s : State) (thread : Tid) :
    (s.wakeThread ret thread).taken = s.taken := rfl

theorem foldl_deliver_wakeThread (es : UInt32) (ret : Int) (s : State) (threads : List Tid) (thread : Tid) :
    threads.foldl (deliver es) (s.wakeThread ret thread) = (threads.foldl (deliver es) s).wakeThread ret thread :=
  List.foldl_hom (fun s => wakeThread ret s thread) fun _ _ => rfl

theorem taken_congr {o : State} {threads : List Tid}
    (h : ∀ thread ∈ threads, o.thread thread = s.thread thread) (es bits : UInt32) :
    o.taken es threads bits = s.taken es threads bits :=
  List.foldl_ext _ _ _ fun _ thread hm => by rw [h thread hm]

-- The walk over a queue, one thread at a time, does the same as to find the
-- threads that the value satisfies first: a delivery changes what only the
-- thread itself is asked for.
theorem foldl_eventWalkOp {queue : List Tid} (hn : queue.Nodup) (s : State) (data : EventWalkData) :
    queue.foldl (eventWalkOp cfg) (s, data) =
      let met := queue.filter fun thread => (s.thread thread).Met data.events
      (if cfg.waitqScalable then met.foldl (deliver data.events) s
        else met.foldl (wakeThread 0) (met.foldl (deliver data.events) s),
      { head := if cfg.waitqScalable then met.reverse ++ data.head else data.head
        events := data.events
        clearEvents := s.taken data.events met data.clearEvents }) := by
  induction queue generalizing s data with
  | nil => cases hs : cfg.waitqScalable <;> simp [taken]
  | cons first rest ih =>
    obtain ⟨hf, hr⟩ := List.nodup_cons.mp hn
    rw [List.foldl_cons]
    by_cases hm : (s.thread first).Met data.events
    · have ho : ∀ thread ∈ rest, (s.deliver data.events first).thread thread = s.thread thread := by
        intro thread ht
        exact deliver_thread_ne _ _ fun h => hf (h ▸ ht)
      have hfl : (rest.filter fun thread =>
            ((s.deliver data.events first).thread thread).Met data.events) =
          rest.filter fun thread => (s.thread thread).Met data.events :=
        List.filter_congr fun thread ht => by rw [ho thread ht]
      have htk := @taken_congr s (s.deliver data.events first)
        (rest.filter fun thread => (s.thread thread).Met data.events)
        fun thread ht => ho thread (List.mem_of_mem_filter ht)
      rw [eventWalkOp_met cfg hm, ih hr, List.filter_cons_of_pos (by simpa using hm)]
      cases hs : cfg.waitqScalable with
      | false =>
        simp only [Bool.false_eq_true, if_false, wakeThread_thread, hfl, List.foldl_cons,
          foldl_deliver_wakeThread, wakeThread_taken, htk]
        rfl
      | true =>
        simp only [if_true, hfl, List.foldl_cons, htk, List.reverse_cons, List.append_assoc, List.singleton_append]
        rfl
    · rw [eventWalkOp_not_met cfg hm, ih hr, List.filter_cons_of_neg (by simpa using hm)]

theorem foldl_deliver (es : UInt32) {threads : List Tid} (hn : threads.Nodup) (s : State) :
    threads.foldl (deliver es) s = { s with
        thread := fun thread =>
          if thread ∈ threads then
            ⟨es &&& (s.thread thread).events, (s.thread thread).eventOptions⟩
          else s.thread thread } := by
  induction threads generalizing s with
  | nil => simp
  | cons first rest ih =>
    obtain ⟨hf, hr⟩ := List.nodup_cons.mp hn
    rw [List.foldl_cons, ih hr]
    simp only [deliver, setMatched, mk.injEq, true_and, and_true]
    funext thread
    by_cases h : thread = first
    · subst h
      simp [hf]
    · simp [h]

theorem foldl_wakeThread (hn : s.waitQ.Nodup) (ret : Int) (threads : List Tid) :
    threads.foldl (wakeThread ret) s = { s with
        waitQ := s.waitQ.filter (· ∉ threads)
        pc := fun thread => if thread ∈ threads then (s.pc thread).woken ret else s.pc thread } := by
  induction threads generalizing s with
  | nil => simp
  | cons first rest ih =>
    have hr : (s.wakeThread ret first).waitQ.Nodup := hn.erase first
    rw [List.foldl_cons, ih hr]
    simp only [wakeThread, mk.injEq, true_and]
    refine ⟨?_, ?_⟩
    · rw [hn.erase_eq_filter, List.filter_filter]
      exact List.filter_congr fun thread _ => by
        rw [Bool.eq_iff_iff]
        simp [and_comm]
    · funext thread
      by_cases h : thread = first
      · subst h
        cases hpc : s.pc thread <;> simp [Pc.woken]
      · simp [h]

def release (s : State) (newEvents : UInt32) : State :=
  { s with
    waitQ := s.waitQ.filter (· ∉ s.matched newEvents)
    thread := fun thread =>
      if thread ∈ s.matched newEvents then
        ⟨newEvents &&& (s.thread thread).events, (s.thread thread).eventOptions⟩
      else s.thread thread
    pc := fun thread =>
      if thread ∈ s.matched newEvents then (s.pc thread).woken 0 else s.pc thread }

theorem mem_matched {events : UInt32} :
    thread ∈ s.matched events ↔ thread ∈ s.waitQ ∧ (s.thread thread).Met events := by
  simp [matched]

theorem mem_release_waitQ : thread ∈ (s.release newEvents).waitQ ↔
      thread ∈ s.waitQ ∧ ¬ (s.thread thread).Met newEvents := by
  simp only [release, List.mem_filter, mem_matched, decide_eq_true_eq]
  tauto

theorem filter_not_mem_release (s : State) (newEvents : UInt32) :
    s.waitQ.filter (· ∉ (s.release newEvents).waitQ) = s.matched newEvents :=
  List.filter_congr fun thread hm => by simp [mem_release_waitQ, hm]

theorem release_of_mem (h : thread ∈ s.matched newEvents) :
    (s.release newEvents).pc thread = (s.pc thread).woken 0 ∧ (s.release newEvents).thread thread =
        ⟨newEvents &&& (s.thread thread).events, (s.thread thread).eventOptions⟩ :=
  ⟨if_pos h, if_pos h⟩

theorem release_of_not_mem (h : thread ∉ s.matched newEvents) : (s.release newEvents).pc thread = s.pc thread ∧
      (s.release newEvents).thread thread = s.thread thread :=
  ⟨if_neg h, if_neg h⟩

theorem foldl_wakeThread_deliver (hn : s.waitQ.Nodup) (newEvents : UInt32) {threads : List Tid}
    (hmm : ∀ thread, thread ∈ threads ↔ thread ∈ s.matched newEvents) :
    threads.foldl (wakeThread 0) ((s.matched newEvents).foldl (deliver newEvents) s) = s.release newEvents := by
  have hm : (s.matched newEvents).Nodup := hn.filter _
  rw [foldl_deliver _ hm, foldl_wakeThread]
  · simp [release, hmm]
  · exact hn

theorem waitqWalk_eq (hn : s.waitQ.Nodup) (newEvents : UInt32) :
    s.waitqWalk cfg ⟨[], newEvents, 0⟩ = (s.release newEvents,
      { head := if cfg.waitqScalable then (s.matched newEvents).reverse else []
        events := newEvents
        clearEvents := s.taken newEvents (s.matched newEvents) 0 }) := by
  have hm : (s.waitQ.filter fun thread => (s.thread thread).Met newEvents) = s.matched newEvents := rfl
  simp only [waitqWalk, eventPostWalkOp, foldl_eventWalkOp cfg hn, hm]
  cases cfg.waitqScalable with
  | false =>
    simp only [Bool.false_eq_true, if_false, List.foldl_nil]
    rw [foldl_wakeThread_deliver hn newEvents fun _ => Iff.rfl]
  | true =>
    simp only [if_true, List.append_nil]
    rw [foldl_wakeThread_deliver hn newEvents fun _ => List.mem_reverse]

theorem kEventPostInternal_eq (hn : s.waitQ.Nodup) (events mask : UInt32)
    (hnw : postDecide s.events events mask = newEvents) :
    (s.kEventPostInternal cfg events mask).1 = { s.release newEvents with
        events := newEvents &&& ~~~s.taken newEvents (s.matched newEvents) 0 } := by
  simp [kEventPostInternal, hnw, waitqWalk_eq cfg hn]

theorem reset_eq (s : State) (options : UInt32) :
    ∃ kept, (if options &&& K_EVENT_OPTION_RESET ≠ 0 then { s with events := 0 } else s) =
      { s with events := s.events &&& kept } := by
  split
  · exact ⟨0, by rw [UInt32.and_zero]⟩
  · exact ⟨-1, by rw [UInt32.and_neg_one]⟩

theorem kEventWaitInternal_cases (s : State) (current : Tid) (call : Call) :
    (∃ kept rv, s.kEventWaitInternal current call = ({ s with events := s.events &&& kept }, some rv)) ∨
    ∃ kept, call.events ≠ 0 ∧ ¬ call.asked.Met (s.events &&& kept) ∧ s.kEventWaitInternal current call =
        ({ s with events := s.events &&& kept }.pendCurr current call, none) := by
  by_cases hz : call.events = 0
  · exact .inl ⟨-1, 0, by simp [kEventWaitInternal, hz]⟩
  · obtain ⟨kept, hr⟩ := s.reset_eq call.options
    have hd : waitDecide (s.events &&& kept) call.events
        (call.options &&& K_EVENT_WAIT_MASK).toUInt8 call.timeout.isNoWait = _ :=
      waitDecide_eq (s.events &&& kept) call.asked call.timeout.isNoWait
    simp only [kEventWaitInternal, hz, if_false, hr]
    by_cases hm : call.asked.Met (s.events &&& kept)
    · rw [if_pos hm] at hd
      simp only [hd]
      left
      split
      · exact ⟨_, _, by rw [UInt32.and_assoc]⟩
      · exact ⟨kept, _, rfl⟩
    · rw [if_neg hm] at hd
      cases hw : call.timeout.isNoWait with
      | true =>
        simp only [hw, if_true] at hd
        simp only [hd]
        exact .inl ⟨kept, 0, rfl⟩
      | false =>
        simp only [hw, Bool.false_eq_true, if_false] at hd
        simp only [hd]
        exact .inr ⟨kept, hz, hm, rfl⟩

end State

end Gale.Event
