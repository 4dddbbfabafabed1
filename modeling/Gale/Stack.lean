import Gale.Kernel

namespace Gale.Stack

open Lib

-- From src/stack.rs.
inductive PushDecision where
  | Store
  | WakeWaiter
  | Full

structure PushDecideResult where
  decision : PushDecision
  newCount : Nat

inductive PopDecision where
  | Pop
  | Pend
  | Busy

structure PopDecideResult where
  decision : PopDecision
  newCount : Nat

def pushDecide (count capacity : Nat) (hasWaiter : Bool) : PushDecideResult :=
  if hasWaiter then ⟨.WakeWaiter, count⟩
  else if count < capacity then ⟨.Store, count + 1⟩
  else ⟨.Full, count⟩

def popDecide (count : Nat) (isNoWait : Bool) : PopDecideResult :=
  if count > 0 then ⟨.Pop, count - 1⟩ else if isNoWait then ⟨.Busy, 0⟩ else ⟨.Pend, 0⟩

-- From ffi/src/lib.rs.
inductive PushAction where
  | Store
  | Wake
  | Full

structure GaleStackPushDecision where
  ret : Int
  newCount : Nat
  action : PushAction

inductive PopAction where
  | PopOk
  | Pend

structure GaleStackPopDecision where
  ret : Int
  newCount : Nat
  action : PopAction

def galeKStackPushDecide (count capacity : Nat) (hasWaiter : Bool) : GaleStackPushDecision :=
  let r := pushDecide count capacity hasWaiter
  match r.decision with
  | .Store => ⟨OK, r.newCount, .Store⟩
  | .WakeWaiter => ⟨OK, r.newCount, .Wake⟩
  | .Full => ⟨ENOMEM, r.newCount, .Full⟩

def galeKStackPopDecide (count : Nat) (isNoWait : Bool) : GaleStackPopDecision :=
  let r := popDecide count isNoWait
  match r.decision with
  | .Pop => ⟨OK, r.newCount, .PopOk⟩
  | .Busy => ⟨EBUSY, r.newCount, .PopOk⟩
  | .Pend => ⟨0, r.newCount, .Pend⟩

-- From zephyr/gale_stack.c.
variable {α : Type*}

-- Where a thread stands in k_stack_pop: a woken one has the result of z_pend_curr and
-- its swap_data.
inductive Pc (α : Type*) where
  | Running
  | Pended (timeout : Timeout)
  | Woken (ret : Int) (swapData : Option α)

-- What happens to values: a push stores one, gives it to a waiting pop or refuses it; a
-- pop takes one from the array, and returns.
inductive Entry (α : Type*) where
  | Store (data : α)
  | Hand (thread : Tid) (data : α)
  | Refuse (data : α)
  | Take (thread : Tid) (data : α)
  | Return (thread : Tid) (ret : Int) (data : Option α)

-- The pointers next and top as their distance from base.
structure State (α : Type*) where
  base : Nat → α
  next : Nat
  top : Nat
  waitQ : List Tid
  pc : Tid → Pc α
  log : List (Entry α)

def kStackInit (buffer : Nat → α) (numEntries : Nat) : State α where
  base := buffer
  next := 0
  top := numEntries
  waitQ := []
  pc := fun _ => .Running
  log := []

namespace State

variable (policy : Policy Tid)

-- z_unpend_first_thread, z_thread_return_value_set_with_data and z_ready_thread
def wakeFirst (s : State α) (data : α) : State α :=
  match policy.take s.waitQ with
  | (none, _) => s
  | (some thread, waitQ) =>
    { s with
      waitQ := waitQ
      pc := Function.update s.pc thread (.Woken 0 (some data))
      log := s.log ++ [.Hand thread data] }

def kStackPush (s : State α) (data : α) : Int × State α :=
  let d := galeKStackPushDecide s.next s.top (s.waitQ ≠ [])
  match d.action with
  | .Wake => (d.ret, s.wakeFirst policy data)
  | .Store =>
    (d.ret, { s with
      base := Function.update s.base s.next data
      next := s.next + 1
      log := s.log ++ [.Store data] })
  | .Full => (d.ret, { s with log := s.log ++ [.Refuse data] })

def kStackPop (s : State α) (thread : Tid) (timeout : Timeout) : State α :=
  let d := galeKStackPopDecide s.next timeout.isNoWait
  match d.action with
  | .PopOk =>
    if d.ret = 0 then
      let data := s.base (s.next - 1)
      { s with
        next := s.next - 1
        log := s.log ++ [.Take thread data, .Return thread d.ret (some data)] }
    else { s with log := s.log ++ [.Return thread d.ret none] }
  | .Pend =>
    { s with
      waitQ := s.waitQ ++ [thread]
      pc := Function.update s.pc thread (.Pended timeout) }

def resume (s : State α) (thread : Tid) (ret : Int) (swapData : Option α) : State α :=
  let entry := if ret = EAGAIN then Entry.Return thread EAGAIN none else .Return thread 0 swapData
  { s with
    pc := Function.update s.pc thread .Running
    log := s.log ++ [entry] }

def timeOut (s : State α) (thread : Tid) : State α :=
  { s with
    waitQ := s.waitQ.erase thread
    pc := Function.update s.pc thread (.Woken EAGAIN none) }

end State

inductive Op (α : Type*) where
  | Push (data : α)
  | Pop (thread : Tid) (timeout : Timeout)
  | TimeOut (thread : Tid)
  | Resume (thread : Tid)

-- Every step is one critical section of the stack's lock, or the end of a pop.
def step (policy : Policy Tid) (s : State α) : Op α → Option (State α)
  | .Push data => some (s.kStackPush policy data).2
  | .Pop thread timeout =>
    match s.pc thread with
    | .Running => some (s.kStackPop thread timeout)
    | _ => none
  | .TimeOut thread =>
    match s.pc thread with
    | .Pended timeout => if timeout ≠ K_FOREVER then some (s.timeOut thread) else none
    | _ => none
  | .Resume thread =>
    match s.pc thread with
    | .Woken ret swapData => some (s.resume thread ret swapData)
    | _ => none

theorem galeKStackPushDecide_eq (count cap : Nat) (hasWaiter : Bool) : galeKStackPushDecide count cap hasWaiter =
      if hasWaiter then ⟨OK, count, .Wake⟩
      else if count < cap then ⟨OK, count + 1, .Store⟩
      else ⟨ENOMEM, count, .Full⟩ := by
  cases hasWaiter <;> by_cases hl : count < cap <;>
    simp [galeKStackPushDecide, pushDecide, hl]

theorem galeKStackPopDecide_eq (count : Nat) (isNoWait : Bool) : galeKStackPopDecide count isNoWait =
      if count > 0 then ⟨OK, count - 1, .PopOk⟩
      else if isNoWait then ⟨EBUSY, 0, .PopOk⟩
      else ⟨0, 0, .Pend⟩ := by
  cases isNoWait <;> by_cases hp : count > 0 <;> simp [galeKStackPopDecide, popDecide, hp]

end Gale.Stack
