import Gale.Kernel

namespace Gale.Mbox

open Function Lib

-- From src/mbox.rs.

def dataExchangeDecide (txSize rxBufSize : Nat) : Nat :=
  if txSize < rxBufSize then txSize else rxBufSize

inductive MboxPutAction where
  | Matched
  | ReturnEnomsg
  | PendTx

def putActionDecide (matched isNoWait : Bool) : MboxPutAction :=
  if matched then .Matched else if isNoWait then .ReturnEnomsg else .PendTx

inductive MboxGetAction where
  | Consume
  | ReturnEnomsg
  | PendRx

def getActionDecide (matched isNoWait : Bool) : MboxGetAction :=
  if matched then .Consume else if isNoWait then .ReturnEnomsg else .PendRx

-- From ffi/src/lib.rs: the sizes are uint32_t.
def galeMboxDataExchange (txSize rxBufSize : Nat) : Nat :=
  dataExchangeDecide (txSize % 2 ^ 32) (rxBufSize % 2 ^ 32)

-- From zephyr/gale_mbox.c.

def K_ANY : Option Tid := none

-- A sending thread: the caller, or the dummy thread of a k_mbox_async.
inductive Thread where
  | Actual (tid : Tid)
  | Dummy (slot : Nat)
  deriving DecidableEq, Repr

structure Msg where
  size : Nat
  info : Nat
  txData : Nat
  rxSourceThread : Option Tid
  txTargetThread : Option Tid
  syncingThread : Option Thread
  asyncSem : Option Nat

def mboxMessageMatch (txMsg rxMsg : Msg) : Option (Msg × Msg) :=
  if (txMsg.txTargetThread = K_ANY ∨ txMsg.txTargetThread = rxMsg.txTargetThread) ∧
      (rxMsg.rxSourceThread = K_ANY ∨ rxMsg.rxSourceThread = txMsg.rxSourceThread) then
    some ({ txMsg with
        txTargetThread := rxMsg.txTargetThread
        info := rxMsg.info },
      { rxMsg with
        rxSourceThread := txMsg.rxSourceThread
        info := txMsg.info
        size := galeMboxDataExchange txMsg.size rxMsg.size
        txData := txMsg.txData
        syncingThread := txMsg.syncingThread })
  else none

-- Where a thread stands. A dummy thread that is Running is not in use. A receiver
-- has its descriptor and whether it gave a buffer; swap_data of a pended one is
-- that descriptor.
inductive Pc where
  | Running
  | Sending (timeout : Timeout)
  -- matched, on no queue, until the receiver is done with the message
  | Suspended
  | Receiving (rx : Nat) (buffer : Bool) (timeout : Timeout)
  -- matched, before mbox_message_data_check
  | Matched (rx : Nat) (buffer : Bool)

inductive RxUse where
  | Free
  | InCall (receiver : Tid)
  | Holding (receiver : Tid)

structure Receipt where
  message : Option Nat
  receiver : Tid
  rx : Nat
  wanted : Nat
  msg : Msg

structure Release where
  message : Option Nat
  receiver : Tid
  rx : Nat
  discarded : Bool
  size : Nat
  sem : Option Nat

-- Of a sending thread the descriptor its swap_data points at, and of a receiver
-- the descriptors it owns, by address. The last four fields are the history: the
-- messages with who sent them, which of them a thread sent last, what was matched
-- and what was disposed of.
structure State where
  txMsgQueue : List Thread
  rxMsgQueue : List Tid
  asyncMsgFree : List Nat
  txMsg : Thread → Msg
  rxMsg : Nat → Msg
  rxUse : Nat → RxUse
  pc : Thread → Pc
  sent : List (Tid × Msg)
  number : Thread → Option Nat
  receipts : List Receipt
  releases : List Release

def initMboxModule (numAsyncMsgs : Nat) (txMsg : Thread → Msg) (rxMsg : Nat → Msg) : State where
  txMsgQueue := []
  rxMsgQueue := []
  asyncMsgFree := (List.range numAsyncMsgs).reverse
  txMsg
  rxMsg
  rxUse := fun _ => .Free
  pc := fun _ => .Running
  sent := []
  number := fun _ => none
  receipts := []
  releases := []

namespace State

def post (s : State) (sendingThread : Thread) (current : Tid) (txMsg : Msg) : State :=
  { s with
    txMsg := update s.txMsg sendingThread { txMsg with rxSourceThread := some current }
    sent := s.sent ++ [(current, txMsg)]
    number := update s.number sendingThread (some s.sent.length) }

def matchReceiver (s : State) (txMsg : Msg) (receiver : Tid) : Option (Nat × Bool × Msg × Msg) :=
  match s.pc (.Actual receiver) with
  | .Receiving rx buffer _ =>
    (mboxMessageMatch txMsg (s.rxMsg rx)).map fun matched => (rx, buffer, matched)
  | _ => none

def matchSender (s : State) (rxMsg : Msg) (sendingThread : Thread) : Option (Msg × Msg) :=
  mboxMessageMatch (s.txMsg sendingThread) rxMsg

-- A match in effect: both descriptors as mbox_message_match leaves them, the sender
-- pended on no queue, the receiver to go on with the message. The size wanted is
-- that of the receive descriptor before.
def deliver (s : State) (sendingThread : Thread) (receiver : Tid) (rx : Nat) (buffer : Bool)
    (wanted : Nat) (matched : Msg × Msg) : State :=
  { s with
    txMsg := update s.txMsg sendingThread matched.1
    rxMsg := update s.rxMsg rx matched.2
    rxUse := update s.rxUse rx (.InCall receiver)
    pc := update (update s.pc sendingThread .Suspended) (.Actual receiver)
      (.Matched rx buffer)
    receipts := s.receipts ++ [⟨s.number sendingThread, receiver, rx, wanted, matched.2⟩] }

def mboxMessagePut (receivers : Policy Tid) (s : State) (sendingThread : Thread) (current : Tid)
    (txMsg : Msg) (timeout : Timeout) : State :=
  let s := s.post sendingThread current txMsg
  let found := receivers.search (s.matchReceiver (s.txMsg sendingThread)) s.rxMsgQueue
  match putActionDecide found.isSome timeout.isNoWait, found with
  | .Matched, some (receiver, rx, buffer, matched) =>
    { s with rxMsgQueue := s.rxMsgQueue.erase receiver }.deliver sendingThread receiver rx buffer
      (s.rxMsg rx).size matched
  | .ReturnEnomsg, _ => s
  | _, _ =>
    { s with
      txMsgQueue := s.txMsgQueue ++ [sendingThread]
      pc := update s.pc sendingThread (.Sending timeout) }

def kMboxPut (receivers : Policy Tid) (s : State) (current : Tid) (txMsg : Msg)
    (timeout : Timeout) : State :=
  s.mboxMessagePut receivers (.Actual current) current
    { txMsg with syncingThread := some (.Actual current) } timeout

-- mbox_async_alloc waits until there is a descriptor.
def kMboxAsyncPut (receivers : Policy Tid) (s : State) (current : Tid) (txMsg : Msg)
    (sem : Option Nat) : Option State :=
  match s.asyncMsgFree with
  | [] => none
  | slot :: rest =>
    some ({ s with asyncMsgFree := rest }.mboxMessagePut receivers (.Dummy slot) current
      { txMsg with syncingThread := some (.Dummy slot), asyncSem := sem } K_FOREVER)

def kMboxGet (senders : Policy Thread) (s : State) (current : Tid) (rx : Nat) (rxMsg : Msg)
    (buffer : Bool) (timeout : Timeout) : State :=
  let rxMsg := { rxMsg with txTargetThread := some current }
  let found := senders.search (s.matchSender rxMsg) s.txMsgQueue
  match getActionDecide found.isSome timeout.isNoWait, found with
  | .Consume, some (sendingThread, matched) =>
    { s with txMsgQueue := s.txMsgQueue.erase sendingThread }.deliver sendingThread current rx
      buffer rxMsg.size matched
  | .ReturnEnomsg, _ =>
    { s with
      rxMsg := update s.rxMsg rx rxMsg
      rxUse := update s.rxUse rx .Free }
  | _, _ =>
    { s with
      rxMsg := update s.rxMsg rx rxMsg
      rxUse := update s.rxUse rx (.InCall current)
      rxMsgQueue := s.rxMsgQueue ++ [current]
      pc := update s.pc (.Actual current) (.Receiving rx buffer timeout) }

def release (s : State) (sendingThread : Thread) (receiver : Tid) (rx : Nat) (discarded : Bool)
    (sem : Option Nat) : State :=
  let txMsg := { s.txMsg sendingThread with size := (s.rxMsg rx).size }
  { s with
    txMsg := update s.txMsg sendingThread txMsg
    pc := update s.pc sendingThread .Running
    releases := s.releases ++ [⟨s.number sendingThread, receiver, rx, discarded, txMsg.size, sem⟩] }

-- The dummy thread of an asynchronous message goes back to async_msg_free and its
-- semaphore is given; any other sender is made ready.
def mboxMessageDispose (s : State) (receiver : Tid) (rx : Nat) (discarded : Bool) : State :=
  match (s.rxMsg rx).syncingThread with
  | none => s
  | some sendingThread =>
    let s :=
      { s with
        rxMsg := update s.rxMsg rx { s.rxMsg rx with syncingThread := none } }
    match sendingThread with
    | .Dummy slot =>
      let sem := (s.txMsg sendingThread).asyncSem
      { s.release sendingThread receiver rx discarded sem with
        asyncMsgFree := slot :: s.asyncMsgFree }
    | .Actual _ => s.release sendingThread receiver rx discarded none

-- The bytes copied to the buffer are left out.
def kMboxDataGet (s : State) (receiver : Tid) (rx : Nat) (buffer : Bool) : State :=
  if buffer then s.mboxMessageDispose receiver rx false
  else
    { s with
      rxMsg := update s.rxMsg rx { s.rxMsg rx with size := 0 }
      }.mboxMessageDispose receiver rx true

def mboxMessageDataCheck (s : State) (receiver : Tid) (rx : Nat) (buffer : Bool) : State :=
  if buffer then s.kMboxDataGet receiver rx true
  else if (s.rxMsg rx).size = 0 then s.mboxMessageDispose receiver rx false
  else s

def finishGet (s : State) (receiver : Tid) (rx : Nat) (buffer : Bool) : State :=
  let s := s.mboxMessageDataCheck receiver rx buffer
  { s with
    rxUse := update s.rxUse rx (.Holding receiver)
    pc := update s.pc (.Actual receiver) .Running }

end State

inductive Op where
  | Put (thread : Tid) (txMsg : Msg) (timeout : Timeout)
  | AsyncPut (thread : Tid) (txMsg : Msg) (sem : Option Nat)
  | Get (thread : Tid) (rx : Nat) (rxMsg : Msg) (buffer : Bool) (timeout : Timeout)
  | FinishGet (thread : Tid)
  | DataGet (thread : Tid) (rx : Nat) (buffer : Bool)
  | TimeOut (thread : Tid)

-- A descriptor may be given to k_mbox_get unless one is going on with it, and to
-- k_mbox_data_get by whoever has received into it.
def step (senders : Policy Thread) (receivers : Policy Tid) (s : State) : Op → Option State
  | .Put thread txMsg timeout =>
    match s.pc (.Actual thread) with
    | .Running => some (s.kMboxPut receivers thread txMsg timeout)
    | _ => none
  | .AsyncPut thread txMsg sem =>
    match s.pc (.Actual thread) with
    | .Running => s.kMboxAsyncPut receivers thread txMsg sem
    | _ => none
  | .Get thread rx rxMsg buffer timeout =>
    match s.pc (.Actual thread), s.rxUse rx with
    | .Running, .InCall _ => none
    | .Running, _ => some (s.kMboxGet senders thread rx rxMsg buffer timeout)
    | _, _ => none
  | .FinishGet thread =>
    match s.pc (.Actual thread) with
    | .Matched rx buffer => some (s.finishGet thread rx buffer)
    | _ => none
  | .DataGet thread rx buffer =>
    match s.pc (.Actual thread), s.rxUse rx with
    | .Running, .Holding receiver =>
      if receiver = thread then some (s.kMboxDataGet thread rx buffer) else none
    | _, _ => none
  | .TimeOut thread =>
    match s.pc (.Actual thread) with
    | .Sending timeout =>
      if timeout ≠ K_FOREVER then
        some { s with
          txMsgQueue := s.txMsgQueue.erase (.Actual thread)
          pc := update s.pc (.Actual thread) .Running }
      else none
    | .Receiving rx _ timeout =>
      if timeout ≠ K_FOREVER then
        some { s with
          rxMsgQueue := s.rxMsgQueue.erase thread
          rxUse := update s.rxUse rx .Free
          pc := update s.pc (.Actual thread) .Running }
      else none
    | _ => none

end Gale.Mbox
