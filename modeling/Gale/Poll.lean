import Gale.Msgq
import Gale.Pipe
import Gale.Queue
import Gale.Sem

namespace Gale.Poll

open Function

-- From src/poll.rs and ffi/src/lib.rs.

structure GalePollSignalRaiseDecision where
  newSignaled : Nat
  newResult : Int
  hasEvent : Bool

def signalRaiseDecide (resultVal : Int) (hasPollEvent : Bool) : GalePollSignalRaiseDecision :=
  ⟨1, resultVal, hasPollEvent⟩

-- From zephyr/gale_poll.c. The objects that can be polled, by kind and address.
inductive Obj where
  | Sem (address : Nat)
  | Queue (address : Nat)
  | Signal (address : Nat)
  | Msgq (address : Nat)
  | Pipe (address : Nat)
  deriving DecidableEq, Repr

structure Semaphore where
  count : Nat
  limit : Nat

structure PollSignal where
  signaled : Nat
  result : Int

structure MessageQueue where
  writeIdx : Nat
  usedMsgs : Nat
  maxMsgs : Nat

structure PipeBuffer where
  used : Nat
  size : Nat
  flags : Pipe.Flags

-- What the check and the producers read of an object; of a queue, how many nodes
-- are in data_q.
@[reducible] def Obj.State : Obj → Type
  | .Sem _ => Semaphore
  | .Queue _ => Nat
  | .Signal _ => PollSignal
  | .Msgq _ => MessageQueue
  | .Pipe _ => PipeBuffer

inductive PollState where
  | SemAvailable
  | DataAvailable
  | Signaled
  | MsgqDataAvailable
  | PipeDataAvailable
  | Cancelled
  deriving DecidableEq, Repr

def isAvailable : (obj : Obj) → obj.State → Option PollState
  | .Sem _, (sem : Semaphore) => if sem.count > 0 then some .SemAvailable else none
  | .Queue _, (nodes : Nat) => if nodes ≠ 0 then some .DataAvailable else none
  | .Signal _, (signal : PollSignal) => if signal.signaled ≠ 0 then some .Signaled else none
  | .Msgq _, (msgq : MessageQueue) => if msgq.usedMsgs > 0 then some .MsgqDataAvailable else none
  | .Pipe _, (pipe : PipeBuffer) => if pipe.used ≠ 0 then some .PipeDataAvailable else none

inductive Event where
  | Ignore
  | On (obj : Obj)
  deriving DecidableEq, Repr

def isConditionMet (objects : (obj : Obj) → obj.State) : Event → Option PollState
  | .Ignore => none
  | .On obj => isAvailable obj (objects obj)

-- Where the thread stands in k_poll: in the loop of register_events, on the wait
-- queue, or in the loop of clear_event_registrations with the value to return.
inductive Pc where
  | Outside
  | Registering (index registered : Nat) (timeout : Timeout)
  | Pended (registered : Nat) (timeout : Timeout)
  | Clearing (left : Nat) (ret : Int)

-- All semaphores have one lock; a signal is changed under the lock of poll.
inductive Lock where
  | Sem
  | Queue (address : Nat)
  | Msgq (address : Nat)
  | Pipe (address : Nat)
  deriving DecidableEq, Repr

-- Where a producer stands: holding the lock of its object, about to call
-- z_handle_obj_poll_events as its last act, or to call it and then ring_buf_put, or
-- about to call ring_buf_put; or waiting for room.
inductive Phase where
  | Notify (obj : Obj) (lock : Lock) (state : PollState)
  | Announce (pipe left : Nat) (timeout : Timeout)
  | Store (pipe left : Nat) (timeout : Timeout)
  | Blocked (timeout : Timeout)

-- The events are named by their index in the array given to k_poll.
structure State where
  objects : (obj : Obj) → obj.State
  pollEvents : Obj → List Nat
  eventPoller : Nat → Bool
  eventState : Nat → List PollState
  isPolling : Bool
  pc : Pc
  held : Lock → Bool
  calls : Tid → Option Phase

def start (objects : (obj : Obj) → obj.State) : State where
  objects
  pollEvents := fun _ => []
  eventPoller := fun _ => false
  eventState := fun _ => []
  isPolling := false
  pc := .Outside
  held := fun _ => false
  calls := fun _ => none

namespace State

def setEventReady (s : State) (event : Nat) (state : PollState) : State :=
  { s with
    eventPoller := update s.eventPoller event false
    eventState := update s.eventState event (s.eventState event ++ [state]) }

-- With one poller add_event appends.
def registerEvent (s : State) (event : Nat) : Event → State
  | .Ignore => { s with eventPoller := update s.eventPoller event true }
  | .On obj =>
    { s with
      pollEvents := update s.pollEvents obj (s.pollEvents obj ++ [event])
      eventPoller := update s.eventPoller event true }

def clearEventRegistration (s : State) (event : Nat) : Event → State
  | .Ignore => { s with eventPoller := update s.eventPoller event false }
  | .On obj =>
    { s with
      pollEvents := update s.pollEvents obj ((s.pollEvents obj).erase event)
      eventPoller := update s.eventPoller event false }

def registerTurn (s : State) (event : Event) (index registered : Nat) (timeout : Timeout) : State :=
  match isConditionMet s.objects event with
  | some state =>
    { s.setEventReady index state with
      isPolling := false
      pc := .Registering (index + 1) registered timeout }
  | none =>
    if ¬ timeout.isNoWait ∧ s.isPolling then
      { s.registerEvent index event with pc := .Registering (index + 1) (registered + 1) timeout }
    else { s with pc := .Registering (index + 1) registered timeout }

variable (events : List Event)

def clearTurn (s : State) (left : Nat) (ret : Int) : State :=
  match left with
  | 0 => { s with pc := .Outside }
  | left + 1 =>
    match events[left]? with
    | some event => { s.clearEventRegistration left event with pc := .Clearing left ret }
    | none => { s with pc := .Clearing left ret } -- not reached: the index is in the array

def pendTurn (s : State) (registered : Nat) (timeout : Timeout) : State :=
  if ¬ s.isPolling then s.clearTurn events registered 0
  else
    let s := { s with isPolling := false }
    if timeout.isNoWait then { s with pc := .Outside }
    else { s with pc := .Pended registered timeout }

def signalPoller (s : State) (state : PollState) : State :=
  match s.pc with
  | .Pended registered _ =>
    { s with pc := .Clearing registered (if state = .Cancelled then EINTR else 0) }
  | _ => s

def signalPollEvent (s : State) (event : Nat) (state : PollState) : State :=
  let s := if s.eventPoller event then { s.signalPoller state with isPolling := false } else s
  s.setEventReady event state

def zHandleObjPollEvents (s : State) (obj : Obj) (state : PollState) : State :=
  match s.pollEvents obj with
  | [] => s
  | event :: rest =>
    { s with pollEvents := update s.pollEvents obj rest }.signalPollEvent event state

def setObject (s : State) (obj : Obj) (next : obj.State) : State :=
  { s with objects := update s.objects obj next }

-- The object changes under its lock; its producer has still to notify.
def change (s : State) (thread : Tid) (obj : Obj) (lock : Lock) (state : PollState)
    (next : obj.State) : State :=
  { s.setObject obj next with
    held := update s.held lock true
    calls := update s.calls thread (some (.Notify obj lock state)) }

-- The producers have no consumer to hand anything to.
def kSemGive (s : State) (thread : Tid) (address : Nat) : State :=
  let sem : Semaphore := s.objects (.Sem address)
  s.change thread (.Sem address) .Sem .SemAvailable
    { sem with count := (Sem.galeKSemGiveDecide sem.count sem.limit false).newCount }

-- queue_insert; a node that cannot be allocated is not inserted.
def queueInsert (s : State) (thread : Tid) (address : Nat) (allocFails : Bool) : State :=
  let nodes : Nat := s.objects (.Queue address)
  if allocFails then s
  else s.change thread (.Queue address) (.Queue address) .DataAvailable (nodes + 1 : Nat)

def kQueueAppendList (s : State) (thread : Tid) (address count : Nat) : State :=
  let nodes : Nat := s.objects (.Queue address)
  if count = 0 then s
  else s.change thread (.Queue address) (.Queue address) .DataAvailable (nodes + count : Nat)

def kMsgqPut (s : State) (thread : Tid) (address : Nat) (timeout : Timeout) : State :=
  let msgq : MessageQueue := s.objects (.Msgq address)
  let d := Msgq.galeKMsgqPutDecide msgq.writeIdx msgq.usedMsgs msgq.maxMsgs false timeout.isNoWait
  match d.action with
  | .Store =>
    s.change thread (.Msgq address) (.Msgq address) .MsgqDataAvailable
      { msgq with writeIdx := d.newWriteIdx, usedMsgs := d.newUsed }
  | .Pend => { s with calls := update s.calls thread (some (.Blocked timeout)) }
  | .WakeReader => s -- not reached: nobody waits to get
  | .Full => s

def kPollSignalRaise (s : State) (address : Nat) (result : Int) : State :=
  let d := signalRaiseDecide result (s.pollEvents (.Signal address) ≠ [])
  let signal : PollSignal := ⟨d.newSignaled, d.newResult⟩
  let s := s.setObject (.Signal address) signal
  if d.hasEvent then s.zHandleObjPollEvents (.Signal address) .Signaled else s

-- The end of a turn of z_impl_k_pipe_write: wait_for.
def waitForSpace (s : State) (thread : Tid) (address : Nat) (timeout : Timeout) : State :=
  { s with
    held := update s.held (.Pipe address) false
    calls := update s.calls thread (if timeout.isNoWait then none else some (.Blocked timeout)) }

-- z_impl_k_pipe_write up to z_handle_obj_poll_events, wait_for or the return.
def kPipeWrite (s : State) (thread : Tid) (address len : Nat) (timeout : Timeout) : State :=
  let pipe : PipeBuffer := s.objects (.Pipe address)
  let d := Pipe.writeDecide pipe.used pipe.size pipe.flags len false
  match d.decision with
  | .WriteOk =>
    { s with
      held := update s.held (.Pipe address) true
      calls := update s.calls thread (some (.Announce address len timeout)) }
  | .WritePend => s.waitForSpace thread address timeout
  | .WakeReader => s -- not reached: nobody waits to read
  | .WriteError => s

-- From ring_buf_put on.
def pipeStore (s : State) (thread : Tid) (address left : Nat) (timeout : Timeout) : State :=
  let pipe : PipeBuffer := s.objects (.Pipe address)
  let wrote := min left (pipe.size - pipe.used)
  let stored : PipeBuffer := { pipe with used := pipe.used + wrote }
  let s := s.setObject (.Pipe address) stored
  if wrote = left then
    { s with
      held := update s.held (.Pipe address) false
      calls := update s.calls thread none }
  else s.waitForSpace thread address timeout

end State

inductive Op where
  | Enter (timeout : Timeout)
  | PollTurn
  | PollTimeOut
  | SemGive (thread : Tid) (address : Nat)
  | QueueInsert (thread : Tid) (address : Nat) (allocFails : Bool)
  | QueueAppendList (thread : Tid) (address count : Nat)
  | SignalRaise (address : Nat) (result : Int)
  | MsgqPut (thread : Tid) (address : Nat) (timeout : Timeout)
  | PipeWrite (thread : Tid) (address len : Nat) (timeout : Timeout)
  -- the next part of a producer's call: z_handle_obj_poll_events or ring_buf_put
  | Continue (thread : Tid)
  | GiveUp (thread : Tid)

-- A producer's call begins when its thread is in no other and the lock is free.
def State.mayCall (s : State) (thread : Tid) (lock : Lock) : Bool :=
  s.calls thread = none && !s.held lock

def step (events : List Event) (s : State) : Op → Option State
  | .Enter timeout =>
    match s.pc with
    | .Outside => some { s with isPolling := true, pc := .Registering 0 0 timeout }
    | _ => none
  | .PollTurn =>
    match s.pc with
    | .Registering index registered timeout =>
      match events[index]? with
      | some event => some (s.registerTurn event index registered timeout)
      | none => some (s.pendTurn events registered timeout)
    | .Clearing left ret => some (s.clearTurn events left ret)
    | _ => none
  | .PollTimeOut =>
    match s.pc with
    | .Pended registered timeout =>
      if timeout ≠ K_FOREVER then some { s with pc := .Clearing registered EAGAIN } else none
    | _ => none
  | .SemGive thread address =>
    if s.mayCall thread .Sem then some (s.kSemGive thread address) else none
  | .QueueInsert thread address allocFails =>
    if s.mayCall thread (.Queue address) then some (s.queueInsert thread address allocFails)
    else none
  | .QueueAppendList thread address count =>
    if s.mayCall thread (.Queue address) then some (s.kQueueAppendList thread address count)
    else none
  | .SignalRaise address result => some (s.kPollSignalRaise address result)
  | .MsgqPut thread address timeout =>
    if s.mayCall thread (.Msgq address) then some (s.kMsgqPut thread address timeout) else none
  | .PipeWrite thread address len timeout =>
    if s.mayCall thread (.Pipe address) then some (s.kPipeWrite thread address len timeout)
    else none
  | .Continue thread =>
    match s.calls thread with
    | some (.Notify obj lock state) =>
      some { s.zHandleObjPollEvents obj state with
        held := update s.held lock false
        calls := update s.calls thread none }
    | some (.Announce address left timeout) =>
      some { s.zHandleObjPollEvents (.Pipe address) .PipeDataAvailable with
        calls := update s.calls thread (some (.Store address left timeout)) }
    | some (.Store address left timeout) => some (s.pipeStore thread address left timeout)
    | _ => none
  | .GiveUp thread =>
    match s.calls thread with
    | some (.Blocked timeout) =>
      if timeout ≠ K_FOREVER then
        some { s with calls := update s.calls thread none }
      else none
    | _ => none

end Gale.Poll
