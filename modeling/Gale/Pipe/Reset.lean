import Gale.Lib.Memory
import Gale.Pipe.Calls

namespace Gale.Pipe

open Function Lib

-- A pipe together with the calls that were inside wait_for when k_pipe_reset
-- ran, until they leave it; a k_pipe_close takes the reset back.
structure Resets where
  pipe : State
  caught : Tid → Bool

def Resets.init : Resets := ⟨Pipe.init, fun _ => false⟩

def Resets.step (cfg : Config) (policy : Policy Tid) (h : Resets) (op : Op) : Option Resets :=
  (Pipe.step cfg policy h.pipe op).map fun pipe =>
    { pipe
      caught :=
        match op with
        | .Reset => fun thread => (h.pipe.calls thread).isSome
        | .Close => fun _ => false
        | .Relock thread _ => Function.update h.caught thread false
        | _ => h.caught }

def Entry.isCanceled : Entry → Bool
  | .WaitFor _ => false
  | .Return _ rc _ => rc = ECANCELED

def logged (s next : State) : List Entry := next.log.drop s.log.length

namespace State

def NoCancel (log : List Entry) (next : State) : Prop :=
  ∃ entries, next.log = log ++ entries ∧ ∀ entry ∈ entries, entry.isCanceled = false

variable {s next : State}

theorem NoCancel.logged (h : NoCancel s.log next) : ∀ entry ∈ logged s next, entry.isCanceled = false := by
  obtain ⟨es, hl, he⟩ := h
  simpa [Pipe.logged, hl] using he

theorem noCancel_of_log_eq (hl : next.log = s.log) : NoCancel s.log next :=
  ⟨[], by simp [hl], by simp⟩

structure Quiet (s next : State) : Prop where
  flags : next.flags = s.flags
  noCancel : NoCancel s.log next

theorem Quiet.after {mid : State} (h : Quiet mid next) (hf : mid.flags = s.flags)
    (hl : mid.log = s.log) : Quiet s next :=
  ⟨h.flags.trans hf, hl ▸ h.noCancel⟩

variable {rc : Int} {fl : Flags}

theorem returns_quiet (thread : Tid) (bs : List UInt8) (hrc : rc ≠ ECANCELED) : Quiet s (s.returns thread rc bs) :=
  ⟨rfl, [.Return thread rc bs], rfl, by simp [Entry.isCanceled, hrc]⟩

theorem natCast_ne_canceled (n : Nat) : (n : Int) ≠ ECANCELED := by
  unfold ECANCELED
  omega

theorem count_or_again_ne_canceled {p : Prop} [Decidable p] (n : Nat) :
    (if p then (n : Int) else EAGAIN) ≠ ECANCELED := by
  split
  · exact natCast_ne_canceled n
  · decide

theorem expired_quiet (thread : Tid) (bs : List UInt8) (hrc : rc ≠ ECANCELED) :
    Quiet s ({ s with log := s.log ++ [Entry.WaitFor thread] }.returns thread rc bs) :=
  ⟨rfl, [.WaitFor thread, .Return thread rc bs], List.append_assoc _ _ _, by simp [Entry.isCanceled, hrc]⟩

theorem waitForData_quiet (thread : Tid) (c : ReadCall) (expired : Bool) :
    Quiet s (s.waitForData thread c expired) := by
  simp only [waitForData]
  split
  · refine expired_quiet _ _ ?_
    exact count_or_again_ne_canceled _
  · exact ⟨rfl, [.WaitFor thread], rfl, by simp [Entry.isCanceled]⟩

theorem waitForSpace_quiet (thread : Tid) (c : WriteCall) (expired : Bool) :
    Quiet s (s.waitForSpace thread c expired) := by
  simp only [waitForSpace]
  split
  · refine expired_quiet _ _ ?_
    exact count_or_again_ne_canceled _
  · exact ⟨rfl, [.WaitFor thread], rfl, by simp [Entry.isCanceled]⟩

variable (cfg : Config) (pol : Policy Tid)

theorem storeRest_quiet (thread : Tid) (c : WriteCall) (expired : Bool) :
    Quiet s (s.storeRest cfg thread c expired) := by
  simp only [storeRest]
  split
  · exact (returns_quiet _ _ (natCast_ne_canceled _)).after rfl rfl
  · exact (waitForSpace_quiet _ _ _).after rfl rfl

theorem takeBytes_quiet (thread : Tid) (c : ReadCall) (expired : Bool) : Quiet s (s.takeBytes thread c expired) := by
  simp only [takeBytes]
  split
  · exact (returns_quiet _ _ (natCast_ne_canceled _)).after rfl rfl
  · exact (waitForData_quiet _ _ _).after rfl rfl

theorem writeDecide_ret {used size len : Nat} {hasReader : Bool} (hr : fl.reset = false) :
    (writeDecide used size fl len hasReader).ret ≠ ECANCELED := by
  unfold writeDecide
  simp only [hr, Bool.false_eq_true, if_false]
  split_ifs <;> simp [EPIPE, ECANCELED, OK]

theorem readDecide_ret {used size len : Nat} {hasWriter : Bool} (hr : fl.reset = false)
    (he : (readDecide used size fl len hasWriter).decision = .ReadError) :
    (readDecide used size fl len hasWriter).ret = EPIPE := by
  unfold readDecide at he ⊢
  simp only [hr, Bool.false_eq_true, if_false] at he ⊢
  split_ifs at he ⊢
  rfl

theorem writeTurn_quiet (h : s.Inv) (hr : s.flags.reset = false) (thread : Tid)
    (c : WriteCall) (expired : Bool) : Quiet s (s.writeTurn cfg pol thread c expired) := by
  unfold writeTurn
  dsimp only
  split
  · exact returns_quiet _ _ (writeDecide_ret hr)
  · have hc := copyToPendingReaders_copying pol h (Nat.lt_succ_self _)
      (c.data.drop c.written)
    obtain ⟨-, hf, -, hl⟩ := hc.frame
    split_ifs
    · exact (storeRest_quiet cfg _ _ _).after rfl rfl
    · exact (returns_quiet _ _ (natCast_ne_canceled _)).after hf hl
    · exact (storeRest_quiet cfg _ _ _).after hf hl
    · exact storeRest_quiet cfg _ _ _
  · exact storeRest_quiet cfg _ _ _
  · exact waitForSpace_quiet _ _ _

theorem readTurn_quiet (hr : s.flags.reset = false) (thread : Tid) (c : ReadCall)
    (expired : Bool) : Quiet s (s.readTurn cfg thread c expired) := by
  unfold readTurn
  split
  · exact returns_quiet _ _ (natCast_ne_canceled _)
  · dsimp only
    split
    · next he =>
        rw [if_pos (readDecide_ret hr he)]
        refine returns_quiet _ _ ?_
        split
        · exact natCast_ne_canceled _
        · decide
    · exact (takeBytes_quiet _ _ _).after rfl rfl
    · exact takeBytes_quiet _ _ _
    · exact waitForData_quiet _ _ _

theorem relock_quiet (h : s.Inv) (hr : s.flags.reset = false) {thread : Tid} {call : Call}
    (hc : s.calls thread = some (call, .Woken rc)) (expired : Bool) :
    Quiet s (s.relock cfg pol thread call rc expired) := by
  have hl := h.leaveWait hc
  have hf : (s.leaveWait thread rc).1.flags = s.flags := by simp [leaveWait, hr]
  have hrc : (s.leaveWait thread rc).2 = rc := by simp [leaveWait, hr]
  have hne : rc ≠ ECANCELED := by
    rcases h.result thread call rc hc with rfl | rfl <;> decide
  refine Quiet.after ?_ hf (s.leaveWait_frame thread rc).1
  rw [← hf] at hr
  unfold relock
  dsimp only
  rw [hrc]
  cases call with
  | Read c =>
    dsimp only
    split_ifs
    · exact readTurn_quiet cfg hr _ _ _
    · exact returns_quiet _ _ (natCast_ne_canceled _)
    · exact returns_quiet _ _ (by decide)
    · exact returns_quiet _ _ hne
  | Write c =>
    dsimp only
    split_ifs
    · exact writeTurn_quiet cfg pol hl hr _ _ _
    · exact returns_quiet _ _ (natCast_ne_canceled _)
    · exact returns_quiet _ _ (by decide)
    · exact returns_quiet _ _ hne

theorem readTurn_of_reset (hr : s.flags.reset = true) (thread : Tid) (c : ReadCall)
    (expired : Bool) : ∃ rc, s.readTurn cfg thread c expired = s.returns thread rc c.got := by
  unfold readTurn
  split
  · exact ⟨_, rfl⟩
  · exact ⟨ECANCELED, by simp [readDecide, hr, EPIPE, ECANCELED]⟩

theorem writeTurn_of_reset (hr : s.flags.reset = true) (thread : Tid) (c : WriteCall) (expired : Bool) :
    s.writeTurn cfg pol thread c expired = s.returns thread ECANCELED [] := by
  simp [writeTurn, writeDecide, hr]

theorem relock_of_reset (hr : s.flags.reset = true) (thread : Tid) (call : Call) (rc : Int) (expired : Bool) :
    ∃ bytes, s.relock cfg pol thread call rc expired = (s.leaveWait thread rc).1.returns thread ECANCELED bytes := by
  have hrc : (s.leaveWait thread rc).2 = ECANCELED := by simp [leaveWait, hr]
  unfold relock
  dsimp only
  rw [hrc]
  cases call with
  | Read c => exact ⟨c.got, rfl⟩
  | Write c => exact ⟨[], rfl⟩

end State

theorem step_noCancel {cfg : Config} {policy : Policy Tid} {s next : State} {op : Op} (h : s.Inv)
    (hr : s.flags.reset = false) (hs : step cfg policy s op = some next) :
    State.NoCancel s.log next := by
  cases op with
  | Read thread len timeout expired =>
    rw [step_read hs]
    exact (State.readTurn_quiet cfg hr _ _ _).noCancel
  | Write thread data timeout expired =>
    rw [step_write hs]
    exact (State.writeTurn_quiet cfg policy h hr _ _ _).noCancel
  | Relock thread expired =>
    obtain ⟨call, rc, hc, rfl⟩ := step_relock hs
    exact (State.relock_quiet cfg policy h hr hc expired).noCancel
  | TimeOut thread =>
    rw [step_timeOut hs]
    exact State.noCancel_of_log_eq (State.timeOut_log _ _)
  | Reset =>
    cases hs
    exact State.noCancel_of_log_eq (State.reset_log _)
  | Close =>
    cases hs
    exact State.noCancel_of_log_eq (State.close_log _)

namespace Resets

-- The reset flag is up exactly while calls that were caught are still leaving,
-- and then every call inside wait_for is one of them.
structure Inv (h : Resets) : Prop where
  pipe : h.pipe.Inv
  woken : ∀ thread, h.caught thread = true →
    h.pipe.flags.reset = true ∧ ∃ call rc, h.pipe.calls thread = some (call, .Woken rc)
  caught : h.pipe.flags.reset = true → ∀ thread, h.pipe.calls thread ≠ none → h.caught thread = true

variable {h next : Resets}

theorem init_inv : init.Inv where
  pipe := State.init_inv
  woken := by simp [init]
  caught := by simp [init, Pipe.init]

theorem Inv.reset_eq_false (hi : h.Inv) (hc : ∀ thread, h.caught thread = false) : h.pipe.flags.reset = false := by
  refine Bool.eq_false_iff.mpr fun hr => ?_
  obtain ⟨ins, hm, hcr⟩ := hi.pipe.inside
  have hp := hi.pipe.resetting hr
  rw [hcr] at hp
  obtain ⟨thread, ht⟩ := Finset.card_pos.mp hp
  have hs := hi.caught hr thread ((hm thread).mp ht)
  rw [hc thread] at hs
  cases hs

variable {pipe : State}

theorem Inv.of_quiet (hi : h.Inv) (hp : pipe.Inv)
    (hd : h.pipe.flags.reset = false) (hq : State.Quiet h.pipe pipe) {caught : Tid → Bool}
    (hs : ∀ thread, caught thread = true → h.caught thread = true) : Inv ⟨pipe, caught⟩ where
  pipe := hp
  woken := by
    intro thread hst
    have hr := (hi.woken thread (hs thread hst)).1
    rw [hd] at hr
    cases hr
  caught := by
    intro hr
    simp only [hq.flags, hd] at hr
    cases hr

theorem Inv.congr (hi : h.Inv) (hp : pipe.Inv) (hf : pipe.flags = h.pipe.flags) (hc : pipe.calls = h.pipe.calls) :
    Inv ⟨pipe, h.caught⟩ where
  pipe := hp
  woken := by
    simp only [hf, hc]
    exact hi.woken
  caught := by
    simp only [hf, hc]
    exact hi.caught

variable {cfg : Config} {policy : Policy Tid} {thread : Tid} {s : State}

theorem Inv.readTurn (hi : h.Inv) (hn : h.pipe.calls thread = none) (c : ReadCall) (expired : Bool) :
    Inv ⟨h.pipe.readTurn cfg thread c expired, h.caught⟩ := by
  have hp := hi.pipe.readTurn cfg c expired hn
  by_cases hr : h.pipe.flags.reset = true
  · obtain ⟨rc, ht⟩ := State.readTurn_of_reset cfg hr thread c expired
    rw [ht] at hp ⊢
    exact hi.congr hp rfl rfl
  · have hd := Bool.eq_false_iff.mpr hr
    exact hi.of_quiet hp hd (State.readTurn_quiet cfg hd _ _ _) fun _ => id

theorem Inv.writeTurn (hi : h.Inv) (hn : h.pipe.calls thread = none) (c : WriteCall) (expired : Bool) :
    Inv ⟨h.pipe.writeTurn cfg policy thread c expired, h.caught⟩ := by
  have hp := hi.pipe.writeTurn cfg policy c expired hn
  by_cases hr : h.pipe.flags.reset = true
  · rw [State.writeTurn_of_reset cfg policy hr] at hp ⊢
    exact hi.congr hp rfl rfl
  · have hd := Bool.eq_false_iff.mpr hr
    exact hi.of_quiet hp hd (State.writeTurn_quiet cfg policy hi.pipe hd _ _ _) fun _ => id

theorem Inv.relock (hin : h.Inv) {call : Call} {rc : Int}
    (hc : h.pipe.calls thread = some (call, .Woken rc)) (expired : Bool) :
    Inv ⟨h.pipe.relock cfg policy thread call rc expired, update h.caught thread false⟩ := by
  have hp := hin.pipe.relock cfg policy expired hc
  by_cases hr : h.pipe.flags.reset = true
  · obtain ⟨bs, ht⟩ := State.relock_of_reset cfg policy hr thread call rc expired
    rw [ht] at hp ⊢
    have hcl := h.pipe.leaveWait_calls thread rc
    refine ⟨hp, fun o hs => ?_, fun _ o hi => ?_⟩
    · obtain ⟨hne, hcg⟩ := of_update_ne hs Bool.false_ne_true
      obtain ⟨_, c', rc', hw⟩ := hin.woken o hcg
      have hca : (h.pipe.leaveWait thread rc).1.calls o = some (c', .Woken rc') := by
        rw [hcl, update_of_ne hne]
        exact hw
      refine ⟨?_, c', rc', hca⟩
      -- the other call is still inside, so this was not the last to leave
      have hps : 0 < (h.pipe.leaveWait thread rc).1.waiting :=
        (hin.pipe.leaveWait hc).waiting_pos (by rw [hca]; exact Option.some_ne_none _)
      simp only [State.leaveWait, hr, if_true] at hps
      split at hps
      · next hl =>
          simp only at hl hps
          omega
      · next hl =>
          simp [State.returns, State.leaveWait, hr, if_neg hl]
    · have hne : o ≠ thread := by
        rintro rfl
        exact hi (by simp [State.returns, hcl])
      have hb : h.pipe.calls o ≠ none := by
        simpa [State.returns, hcl, update_of_ne hne] using hi
      simpa only [update_of_ne hne] using hin.caught hr o hb
  · have hd := Bool.eq_false_iff.mpr hr
    exact hin.of_quiet hp hd (State.relock_quiet cfg policy hin.pipe hd hc expired)
      fun o hs => (of_update_ne hs Bool.false_ne_true).2

theorem Inv.timeOut (hin : h.Inv) (thread : Tid) : Inv ⟨h.pipe.timeOut thread, h.caught⟩ := by
  refine ⟨hin.pipe.timeOut thread, fun o hs => ?_, fun hr o hi => ?_⟩
  · obtain ⟨hr, call, rc, hw⟩ := hin.woken o hs
    refine ⟨hr, call, ?_⟩
    simp only [State.timeOut, State.wake, hw]
    split
    · exact ⟨EAGAIN, rfl⟩
    · exact ⟨rc, rfl⟩
  · exact hin.caught hr o fun hn => hi (State.wake_eq_none.mpr hn)

theorem reset_of_waiting (hw : s.waiting ≠ 0) : s.reset.flags.reset = true ∧
      s.reset.calls = State.wake (State.wake s.calls 0 s.data) 0 s.space := by
  simp only [State.reset, if_pos hw]
  exact ⟨rfl, rfl⟩

theorem reset_calls_eq_none (hn : s.calls thread = none) : s.reset.calls thread = none := by
  unfold State.reset
  dsimp only
  split
  · exact State.wake_eq_none.mpr (State.wake_eq_none.mpr hn)
  · exact hn

theorem woken_of_reset (hin : s.Inv) (hi : s.calls thread ≠ none) :
    s.reset.flags.reset = true ∧ ∃ call rc, s.reset.calls thread = some (call, .Woken rc) := by
  have hp := hin.waiting_pos hi
  obtain ⟨hr, hc⟩ := reset_of_waiting (Nat.pos_iff_ne_zero.mp hp)
  refine ⟨hr, ?_⟩
  have ha : s.reset.calls thread ≠ none := by
    rw [hc]
    exact fun hn => hi (State.wake_eq_none.mp (State.wake_eq_none.mp hn))
  obtain ⟨⟨call, st⟩, hcall⟩ := Option.ne_none_iff_exists'.mp ha
  cases st with
  | Woken rc => exact ⟨call, rc, hcall⟩
  | Pended =>
    rw [hc] at hcall
    obtain ⟨hs, hrd⟩ := State.wake_eq_pended.mp hcall
    obtain ⟨hd, hb⟩ := State.wake_eq_pended.mp hrd
    cases call with
    | Read c => exact absurd ((hin.mem_data thread).mpr ⟨c, hb⟩) hd
    | Write c => exact absurd ((hin.mem_space thread).mpr ⟨c, hb⟩) hs

theorem Inv.reset (hin : h.Inv) : Inv ⟨h.pipe.reset, fun thread => (h.pipe.calls thread).isSome⟩ := by
  refine ⟨hin.pipe.reset, fun thread hs => ?_, fun _ thread hi => ?_⟩
  · exact woken_of_reset hin.pipe (Option.isSome_iff_ne_none.mp hs)
  · exact Option.isSome_iff_ne_none.mpr fun hn => hi (reset_calls_eq_none hn)

theorem Inv.close (hi : h.Inv) : Inv ⟨h.pipe.close, fun _ => false⟩ where
  pipe := hi.pipe.close
  woken := fun _ hs => by cases hs
  caught := fun hr => by cases hr

theorem Inv.step {op : Op} (hi : h.Inv) (hs : h.step cfg policy op = some next) : next.Inv := by
  obtain ⟨pipe, hp, rfl⟩ := Option.map_eq_some_iff.mp hs
  cases op with
  | Read thread len timeout expired =>
    rw [step_read hp]
    exact hi.readTurn (calls_of_step_read hp) _ expired
  | Write thread data timeout expired =>
    rw [step_write hp]
    exact hi.writeTurn (calls_of_step_write hp) _ expired
  | Relock thread expired =>
    obtain ⟨call, rc, hc, rfl⟩ := step_relock hp
    exact hi.relock hc expired
  | TimeOut thread =>
    rw [step_timeOut hp]
    exact hi.timeOut thread
  | Reset =>
    cases hp
    exact hi.reset
  | Close =>
    cases hp
    exact hi.close

-- The flag is up only while somebody waits, waiting counts the calls inside
-- wait_for, those who were caught come back with -ECANCELED as soon as they have
-- the lock, and when they are gone nobody does.
structure ReachesWaiters (cfg : Config) (policy : Policy Tid) (h : Resets) : Prop where
  waiting_pos : h.pipe.flags.reset = true → 0 < h.pipe.waiting
  waiting_eq : ∃ inside : Finset Tid,
    (∀ thread, thread ∈ inside ↔ h.pipe.calls thread ≠ none) ∧ h.pipe.waiting = inside.card
  canceled : ∀ thread, h.caught thread = true → ∀ expired, ∃ next bytes,
    Pipe.step cfg policy h.pipe (.Relock thread expired) = some next ∧
      logged h.pipe next = [.Return thread ECANCELED bytes]
  nobodyElse : (∀ thread, h.caught thread = false) → ∀ op next,
    Pipe.step cfg policy h.pipe op = some next → ∀ entry ∈ logged h.pipe next, entry.isCanceled = false

theorem Inv.reachesWaiters (hi : h.Inv) : h.ReachesWaiters cfg policy where
  waiting_pos := hi.pipe.resetting
  waiting_eq := hi.pipe.inside
  canceled := by
    intro thread hc expired
    obtain ⟨hr, call, rc, hcl⟩ := hi.woken thread hc
    obtain ⟨bs, ht⟩ := State.relock_of_reset cfg policy hr thread call rc expired
    refine ⟨h.pipe.relock cfg policy thread call rc expired, bs, ?_, ?_⟩
    · simp [Pipe.step, hcl]
    · rw [ht, logged, State.returns_log, (h.pipe.leaveWait_frame thread rc).1]
      simp
  nobodyElse := fun hc _ _ hs =>
    (step_noCancel hi.pipe (hi.reset_eq_false hc) hs).logged

theorem reset_reaches_waiters (cfg : Config) (policy : Policy Tid) (ops : List Op) :
    Throughout (step cfg policy) (ReachesWaiters cfg policy) init ops := by
  have hi : Throughout (step cfg policy) Inv init ops :=
    throughout_of_step (fun _ _ _ hi hs => hi.step hs) init_inv ops
  exact hi.mono fun _ hi => hi.reachesWaiters

end Resets

end Gale.Pipe
