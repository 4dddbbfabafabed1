import Gale.Kernel

namespace Gale.Queue

open Lib

-- From src/queue.rs.

inductive InsertDecision where
  | Insert
  | WakeThread
  | Overflow

inductive GetDecision where
  | Dequeued
  | Empty

def insertDecide (count : Nat) (hasWaiter : Bool) : InsertDecision :=
  if hasWaiter then .WakeThread else if count < 2 ^ 32 - 1 - 1 then .Insert else .Overflow

def getDecide (count : Nat) : GetDecision :=
  if count > 0 then .Dequeued else .Empty

-- From ffi/src/lib.rs.

inductive InsertAction where
  | Insert
  | Wake

def galeKQueueInsertDecide (hasWaiter : Bool) : InsertAction :=
  match insertDecide 0 hasWaiter with
  | .WakeThread => .Wake
  | .Insert => .Insert
  | .Overflow => .Insert

inductive GetAction where
  | Dequeue
  | ReturnNull
  | Pend

def galeKQueueGetDecide (hasData isNoWait : Bool) : GetAction :=
  match getDecide (if hasData then 1 else 0) with
  | .Dequeued => .Dequeue
  | .Empty => if isNoWait then .ReturnNull else .Pend

-- From zephyr/gale_queue.c. An item is the address given to the queue.
variable {α : Type*}

-- A node of data_q by its flag: the item itself, or an alloc_node for it.
inductive Node (α : Type*) where
  | Item (data : α)
  | Alloc (data : α)

def zQueueNodePeek : Node α → α
  | .Item data => data
  | .Alloc data => data

def peekTail (list : List (Node α)) : Option Nat :=
  if list = [] then none else some (list.length - 1)

def sflistInsert (list : List (Node α)) (prev : Option Nat) (node : Node α) : List (Node α) :=
  match prev with
  | none => node :: list
  | some place => list.insertIdx (place + 1) node

-- Where a thread stands in k_queue_get. An unpended thread is off the wait queue
-- and not made ready; a woken one has the result of z_pend_curr and swap_data.
inductive Pc (α : Type*) where
  | Running
  | Pended (timeout : Timeout)
  | Unpended
  | Woken (ret : Int) (swapData : Option α)

-- What happens to items: a call puts one in, at the back or at the front, a get
-- is given one, a get returns.
inductive Entry (α : Type*) where
  | Append (data : α)
  | Prepend (data : α)
  | Hand (thread : Tid) (data : α)
  | Return (thread : Tid) (data : Option α)

structure State (α : Type*) where
  dataQ : List (Node α)
  waitQ : List Tid
  pc : Tid → Pc α
  log : List (Entry α)

def kQueueInit : State α where
  dataQ := []
  waitQ := []
  pc := fun _ => .Running
  log := []

namespace State

def record (s : State α) (entries : List (Entry α)) : State α := { s with log := s.log ++ entries }

variable (policy : Policy Tid)

def zUnpendFirstThread (s : State α) : Option Tid × State α :=
  match policy.take s.waitQ with
  | (none, _) => (none, s)
  | (some thread, waitQ) =>
    (some thread, { s with waitQ, pc := Function.update s.pc thread .Unpended })

def prepareThreadToRun (s : State α) (thread : Tid) (data : Option α) : State α :=
  { s with
    pc := Function.update s.pc thread (.Woken 0 data)
    log := s.log ++ (data.map (Entry.Hand thread)).toList }

def queueInsert (s : State α) (prev : Option Nat) (data : α) (alloc isAppend allocOk : Bool) :
    State α × Int :=
  let prev := if isAppend then peekTail s.dataQ else prev
  let inserted := if isAppend then Entry.Append data else Entry.Prepend data
  let (firstPendingThread, s) := s.zUnpendFirstThread policy
  match galeKQueueInsertDecide firstPendingThread.isSome, firstPendingThread with
  | .Wake, some thread => ((s.record [inserted]).prepareThreadToRun thread (some data), 0)
  | _, _ =>
    if alloc ∧ ¬ allocOk then (s, ENOMEM)
    else
      let node := if alloc then Node.Alloc data else .Item data
      ({ s.record [inserted] with dataQ := sflistInsert s.dataQ prev node }, 0)

def kQueueAppend (s : State α) (data : α) : State α :=
  (s.queueInsert policy none data false true true).1

def kQueuePrepend (s : State α) (data : α) : State α :=
  (s.queueInsert policy none data false false true).1

def kQueueAllocAppend (s : State α) (data : α) (allocOk : Bool) : State α × Int :=
  s.queueInsert policy none data true true allocOk

def kQueueAllocPrepend (s : State α) (data : α) (allocOk : Bool) : State α × Int :=
  s.queueInsert policy none data true false allocOk

-- The loop of k_queue_append_list from a thread just unpended, over the items
-- from head on; the next thread is unpended before head is looked at again.
def handLoop : State α → Option Tid → List α → State α × List α
  | s, some thread, head :: rest =>
    let (next, s) := (s.prepareThreadToRun thread (some head)).zUnpendFirstThread policy
    handLoop s next rest
  | s, _, items => (s, items)

-- The items of the list from head to tail; no item is a null head.
def kQueueAppendList (s : State α) (items : List α) : State α × Int :=
  if items = [] then (s, EINVAL)
  else
    let (thread, s) := (s.record (items.map .Append)).zUnpendFirstThread policy
    let (s, rest) := handLoop policy s thread items
    ({ s with dataQ := s.dataQ ++ rest.map .Item }, 0)

def kQueueGet (s : State α) (thread : Tid) (timeout : Timeout) : State α :=
  match galeKQueueGetDecide (s.dataQ ≠ []) timeout.isNoWait, s.dataQ with
  | .Dequeue, node :: rest =>
    let data := zQueueNodePeek node
    { s.record [.Hand thread data, .Return thread (some data)] with dataQ := rest }
  | .Pend, _ =>
    { s with
      waitQ := s.waitQ ++ [thread]
      pc := Function.update s.pc thread (.Pended timeout) }
  | _, _ => s.record [.Return thread none]

def resume (s : State α) (thread : Tid) (ret : Int) (swapData : Option α) : State α :=
  { s.record [.Return thread (if ret ≠ 0 then none else swapData)] with
    pc := Function.update s.pc thread .Running }

def kQueueCancelWait (s : State α) : State α :=
  match s.zUnpendFirstThread policy with
  | (some thread, s) => s.prepareThreadToRun thread none
  | (none, s) => s

def timeOut (s : State α) (thread : Tid) : State α :=
  { s with
    waitQ := s.waitQ.erase thread
    pc := Function.update s.pc thread (.Woken EAGAIN none) }

end State

inductive Op (α : Type*) where
  | Append (data : α)
  | Prepend (data : α)
  | AllocAppend (data : α) (allocOk : Bool)
  | AllocPrepend (data : α) (allocOk : Bool)
  | AppendList (items : List α)
  | Get (thread : Tid) (timeout : Timeout)
  | CancelWait
  | TimeOut (thread : Tid)
  | Resume (thread : Tid)

-- Every step is one critical section of the queue's lock, or the end of a get.
def step (policy : Policy Tid) (s : State α) : Op α → Option (State α)
  | .Append data => some (s.kQueueAppend policy data)
  | .Prepend data => some (s.kQueuePrepend policy data)
  | .AllocAppend data allocOk => some (s.kQueueAllocAppend policy data allocOk).1
  | .AllocPrepend data allocOk => some (s.kQueueAllocPrepend policy data allocOk).1
  | .AppendList items => some (s.kQueueAppendList policy items).1
  | .Get thread timeout =>
    match s.pc thread with
    | .Running => some (s.kQueueGet thread timeout)
    | _ => none
  | .CancelWait => some (s.kQueueCancelWait policy)
  | .TimeOut thread =>
    match s.pc thread with
    | .Pended timeout => if timeout ≠ K_FOREVER then some (s.timeOut thread) else none
    | _ => none
  | .Resume thread =>
    match s.pc thread with
    | .Woken ret swapData => some (s.resume thread ret swapData)
    | _ => none

end Gale.Queue
