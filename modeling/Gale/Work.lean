import Gale.Kernel
import Gale.Lib.Bits

namespace Gale.Work

open Function

open Lib.Bits

def FLAG_RUNNING : UInt8 := 1
def FLAG_CANCELING : UInt8 := 2
def FLAG_QUEUED : UInt8 := 4

def BUSY_MASK : UInt8 := 7

inductive SubmitDecision where
  | Queue
  | Requeue
  | AlreadyQueued
  | Reject
  deriving DecidableEq, Repr

def submitDecide (flags : UInt8) : SubmitDecision × UInt8 :=
  if hasFlag FLAG_CANCELING flags then (.Reject, flags)
  else if hasFlag FLAG_QUEUED flags then (.AlreadyQueued, flags)
  else
    let newFlags := flags ||| FLAG_QUEUED
    if hasFlag FLAG_RUNNING flags then (.Requeue, newFlags) else (.Queue, newFlags)

inductive CancelDecisionAction where
  | Idle
  | Dequeue
  | SetCanceling
  deriving DecidableEq, Repr

def cancelDecide (flags : UInt8) : CancelDecisionAction × UInt8 × UInt8 :=
  let dequeued := !hasFlag FLAG_CANCELING flags && hasFlag FLAG_QUEUED flags
  let f := if dequeued then flags &&& ~~~FLAG_QUEUED else flags
  let busy := f &&& BUSY_MASK
  let f := if busy ≠ 0 then f ||| FLAG_CANCELING else f
  let action : CancelDecisionAction :=
    if busy = 0 then .Idle else if dequeued then .Dequeue else .SetCanceling
  (action, f, busy)

def SubmitDecision.ret : SubmitDecision → Int
  | .Queue => 1
  | .Requeue => 2
  | .AlreadyQueued => 0
  | .Reject => EBUSY

-- A work item is named by the address of its k_work.
abbrev Item := Nat

-- What a submit reads of the queue besides its list: its flags, and whether
-- the caller is the thread of the queue.
structure QueueEnv where
  started : Bool
  draining : Bool
  plugged : Bool
  chained : Bool

-- The checks of the queue before the item is appended: the code of the first
-- that fails.
def queueRefuses (given : Bool) (env : QueueEnv) : Option Int :=
  if !given then some EINVAL
  else if !env.started then some ENODEV
  else if env.draining && !env.chained then some EBUSY
  else if env.plugged && !env.draining then some EBUSY
  else none

-- One queue and the work items that use it. Of an item, its flag byte and
-- whether its queue pointer is set.
structure WorkQ where
  flags : Item → UInt8
  hasQueue : Item → Bool
  pending : List Item
  current : Option Item

namespace WorkQ

def init : WorkQ where
  flags := fun _ => 0
  hasQueue := fun _ => false
  pending := []
  current := none

-- given: the caller passes the queue and not NULL.
def galeSubmitToQueueLocked (q : WorkQ) (work : Item) (given : Bool) (env : QueueEnv) : WorkQ × Int :=
  let (action, newFlags) := submitDecide (q.flags work)
  match action with
  | .AlreadyQueued | .Reject => (q, action.ret)
  | .Queue | .Requeue =>
    let given := if action = .Requeue then q.hasQueue work else given || q.hasQueue work
    match queueRefuses given env with
    | some code => (q, code)
    | none =>
      ({ q with
        pending := q.pending ++ [work]
        flags := update q.flags work newFlags
        hasQueue := update q.hasQueue work true }, action.ret)

def galeCancelAsyncLocked (q : WorkQ) (work : Item) : WorkQ × UInt8 :=
  let (action, newFlags, busy) := cancelDecide (q.flags work)
  let pending :=
    if action = .Dequeue && q.hasQueue work then q.pending.erase work else q.pending
  ({ q with pending, flags := update q.flags work newFlags }, busy)

def startRunning (q : WorkQ) : Option (WorkQ × Item) :=
  match q.current, q.pending with
  | none, work :: rest =>
    some ({ q with
      pending := rest
      flags := update q.flags work ((q.flags work &&& ~~~FLAG_QUEUED) ||| FLAG_RUNNING)
      current := some work }, work)
  | _, _ => none

def finishRunning (q : WorkQ) : Option WorkQ :=
  match q.current with
  | some work =>
    some { q with
      flags := update q.flags work (q.flags work &&& ~~~FLAG_RUNNING)
      current := none }
  | none => none

def finishCancel (q : WorkQ) (work : Item) : Option WorkQ :=
  if hasFlag FLAG_CANCELING (q.flags work) then
    some { q with flags := update q.flags work (q.flags work &&& ~~~FLAG_CANCELING) }
  else none

end WorkQ

end Gale.Work
