import Gale.Kernel
import Gale.Lib.Memory
import Gale.Lib.Ring
import Gale.Lib.Run

namespace Gale.Msgq

open Lib

-- Index arithmetic of src/msgq.rs. All values are u32 in the source; under
-- the preconditions stated there none of the additions leaves that range.

inductive PutDecision where
  | Store
  | WakeReader
  | Pend
  | Full

structure PutDecideResult where
  decision : PutDecision
  newWriteIdx : Nat
  newUsed : Nat

def putDecide (writeIdx usedMsgs maxMsgs : Nat) (hasWaiter isNoWait : Bool) : PutDecideResult :=
  if usedMsgs < maxMsgs then
    if hasWaiter then
      ⟨.WakeReader, writeIdx, usedMsgs⟩
    else
      ⟨.Store, if writeIdx + 1 < maxMsgs then writeIdx + 1 else 0, usedMsgs + 1⟩
  else if isNoWait then
    ⟨.Full, writeIdx, usedMsgs⟩
  else
    ⟨.Pend, writeIdx, usedMsgs⟩

inductive GetDecision where
  | Read
  | WakeWriter
  | Pend
  | Empty

structure GetDecideResult where
  decision : GetDecision
  newReadIdx : Nat
  newUsed : Nat

def getDecide (readIdx usedMsgs maxMsgs : Nat) (hasWaiter isNoWait : Bool) : GetDecideResult :=
  if usedMsgs > 0 then
    let next := if readIdx + 1 < maxMsgs then readIdx + 1 else 0
    if hasWaiter then
      ⟨.WakeWriter, next, usedMsgs - 1⟩
    else
      ⟨.Read, next, usedMsgs - 1⟩
  else if isNoWait then
    ⟨.Empty, readIdx, 0⟩
  else
    ⟨.Pend, readIdx, 0⟩

structure PutFrontDecideResult where
  ok : Bool
  newReadIdx : Nat
  newUsed : Nat

def putFrontDecide (readIdx usedMsgs maxMsgs : Nat) : PutFrontDecideResult :=
  if usedMsgs < maxMsgs then
    ⟨true, if readIdx = 0 then maxMsgs - 1 else readIdx - 1, usedMsgs + 1⟩
  else
    ⟨false, readIdx, usedMsgs⟩

-- The exported wrappers of ffi/src/lib.rs.

def initValidate (msgSize maxMsgs : Nat) : Except Int Nat :=
  if msgSize = 0 ∨ maxMsgs = 0 then .error EINVAL
  else if msgSize * maxMsgs < 2 ^ 32 then .ok (msgSize * maxMsgs)
  else .error EINVAL

def galeMsgqPut (writeIdx usedMsgs maxMsgs : Nat) : Except Int (Nat × Nat) :=
  if maxMsgs = 0 then .error EINVAL
  else
    let r := putDecide writeIdx usedMsgs maxMsgs false true
    match r.decision with
    | .Store => .ok (r.newWriteIdx, r.newUsed)
    | .Full | .WakeReader | .Pend => .error ENOMSG

def galeMsgqPutFront (readIdx usedMsgs maxMsgs : Nat) : Except Int (Nat × Nat) :=
  if maxMsgs = 0 then .error EINVAL
  else
    let r := putFrontDecide readIdx usedMsgs maxMsgs
    if r.ok then .ok (r.newReadIdx, r.newUsed) else .error ENOMSG

structure GalePutDecision where
  ret : Int
  action : PutDecision
  newWriteIdx : Nat
  newUsed : Nat

def galeKMsgqPutDecide (writeIdx usedMsgs maxMsgs : Nat) (hasWaiter isNoWait : Bool) :
    GalePutDecision :=
  let r := putDecide writeIdx usedMsgs maxMsgs hasWaiter isNoWait
  match r.decision with
  | .Store => ⟨OK, .Store, r.newWriteIdx, r.newUsed⟩
  | .WakeReader => ⟨OK, .WakeReader, r.newWriteIdx, r.newUsed⟩
  | .Full => ⟨ENOMSG, .Full, r.newWriteIdx, r.newUsed⟩
  | .Pend => ⟨0, .Pend, r.newWriteIdx, r.newUsed⟩

structure GaleGetDecision where
  ret : Int
  action : GetDecision
  newReadIdx : Nat
  newUsed : Nat

def galeKMsgqGetDecide (readIdx usedMsgs maxMsgs : Nat) (hasWaiter isNoWait : Bool) :
    GaleGetDecision :=
  let r := getDecide readIdx usedMsgs maxMsgs hasWaiter isNoWait
  match r.decision with
  | .Read => ⟨OK, .Read, r.newReadIdx, r.newUsed⟩
  | .WakeWriter => ⟨OK, .WakeWriter, r.newReadIdx, r.newUsed⟩
  | .Empty => ⟨ENOMSG, .Empty, r.newReadIdx, r.newUsed⟩
  | .Pend => ⟨0, .Pend, r.newReadIdx, r.newUsed⟩

-- The sizes k_msgq_init accepts.
structure Config where
  msgSize : Nat
  maxMsgs : Nat
  valid : ∃ size, initValidate msgSize maxMsgs = .ok size

abbrev Message (cfg : Config) := Fin cfg.msgSize → UInt8

def ptrToSlot (cfg : Config) (ptr : Nat) : Nat := ptr / cfg.msgSize

def slotToPtr (cfg : Config) (slot : Nat) : Nat := slot * cfg.msgSize

inductive Call (cfg : Config) where
  | Put (data : Message cfg) (timeout : Timeout)
  | PutFront (data : Message cfg)
  | Get (data : Message cfg) (timeout : Timeout)

def Call.timeout {cfg : Config} : Call cfg → Timeout
  | .Put _ timeout => timeout
  | .PutFront _ => K_NO_WAIT
  | .Get _ timeout => timeout

structure Return (cfg : Config) where
  thread : Tid
  call : Call cfg
  ret : Int
  data : Message cfg

-- The threads that use the queue, as the kernel keeps them: the wait queue,
-- the memory each thread's base.swap_data points at, the calls that have
-- pended and not returned, and the returns so far.
structure Threads (cfg : Config) where
  waitQ : List Tid
  swapData : Tid → Message cfg
  calls : Tid → Option (Call cfg)
  log : List (Return cfg)

-- One k_msgq. Pointers are offsets from buffer_start.
structure State (cfg : Config) extends Threads cfg where
  buffer : Nat → UInt8
  readPtr : Nat
  writePtr : Nat
  usedMsgs : Nat

variable {cfg : Config}

namespace Threads

def returns (s : Threads cfg) (thread : Tid) (call : Call cfg) (ret : Int) (data : Message cfg) :
    Threads cfg :=
  { s with log := s.log ++ [⟨thread, call, ret, data⟩] }

-- arch_thread_return_value_set and z_ready_thread: the pended call returns.
def zReadyThread (s : Threads cfg) (thread : Tid) (ret : Int) : Threads cfg :=
  match s.calls thread with
  | none => s
  | some call =>
    { s with calls := Function.update s.calls thread none }.returns thread call ret
      (s.swapData thread)

def zPendCurr (s : Threads cfg) (thread : Tid) (call : Call cfg) (data : Message cfg) : Threads cfg :=
  { s with
    waitQ := s.waitQ ++ [thread]
    swapData := Function.update s.swapData thread data
    calls := Function.update s.calls thread (some call) }

def zUnpendFirstThread (policy : Policy Tid) (s : Threads cfg) : Option Tid × Threads cfg :=
  let (pending, waitQ) := policy.take s.waitQ
  (pending, { s with waitQ := waitQ })

-- memcpy to the waiter's swap_data, then it is made ready.
def handOver (s : Threads cfg) (reader : Tid) (data : Message cfg) : Threads cfg :=
  { s with swapData := Function.update s.swapData reader data }.zReadyThread reader OK

-- The timeout handler takes the thread off the wait queue and its call
-- returns -EAGAIN.
def timeOut (s : Threads cfg) (thread : Tid) : Threads cfg :=
  { s with waitQ := s.waitQ.erase thread }.zReadyThread thread EAGAIN

-- The loop of k_msgq_purge; every turn takes one thread off the wait queue.
def wakeAll (policy : Policy Tid) : Nat → Threads cfg → Threads cfg
  | 0, s => s
  | fuel + 1, s =>
    match s.zUnpendFirstThread policy with
    | (none, _) => s
    | (some thread, s) => wakeAll policy fuel (s.zReadyThread thread ENOMSG)

end Threads

def init (buffer : Nat → UInt8) (swapData : Tid → Message cfg) : State cfg where
  waitQ := []
  swapData := swapData
  calls := fun _ => none
  log := []
  buffer := buffer
  readPtr := 0
  writePtr := 0
  usedMsgs := 0

namespace State

variable (policy : Policy Tid)

def put (s : State cfg) (thread : Tid) (data : Message cfg) (timeout : Timeout) : State cfg :=
  let call := Call.Put data timeout
  let (pending, threads) := s.zUnpendFirstThread policy
  let d := galeKMsgqPutDecide (ptrToSlot cfg s.writePtr) s.usedMsgs cfg.maxMsgs pending.isSome
    timeout.isNoWait
  match d.action with
  | .WakeReader =>
    match pending with
    | some reader =>
      { s with toThreads := (threads.handOver reader data).returns thread call OK data }
    | none => s -- not reached: has_waiter was 0
  | .Store =>
    { s with
      toThreads := threads.returns thread call OK data
      buffer := store s.buffer s.writePtr data
      writePtr := slotToPtr cfg d.newWriteIdx
      usedMsgs := d.newUsed }
  | .Pend => { s with toThreads := threads.zPendCurr thread call data }
  | .Full => { s with toThreads := threads.returns thread call d.ret data }

-- z_impl_k_msgq_put of zephyr/wasm/msgq_put_shim.c.
def putShim (s : State cfg) (thread : Tid) (data : Message cfg) (timeout : Timeout) : State cfg :=
  let call := Call.Put data timeout
  let (reader, threads) := s.zUnpendFirstThread policy
  let d := galeKMsgqPutDecide (ptrToSlot cfg s.writePtr) s.usedMsgs cfg.maxMsgs reader.isSome
    timeout.isNoWait
  match d.action with
  | .WakeReader =>
    match reader with
    | some reader =>
      { s with toThreads := (threads.handOver reader data).returns thread call d.ret data }
    | none => s
  | .Store =>
    { s with
      toThreads := threads.returns thread call d.ret data
      buffer := store s.buffer s.writePtr data
      writePtr := slotToPtr cfg d.newWriteIdx
      usedMsgs := d.newUsed }
  | .Pend => { s with toThreads := threads.zPendCurr thread call data }
  | .Full => { s with toThreads := threads.returns thread call d.ret data }

def putFront (s : State cfg) (thread : Tid) (data : Message cfg) : State cfg :=
  let call := Call.PutFront data
  if s.usedMsgs < cfg.maxMsgs then
    match s.zUnpendFirstThread policy with
    | (some reader, threads) =>
      { s with toThreads := (threads.handOver reader data).returns thread call OK data }
    | (none, threads) =>
      match galeMsgqPutFront (ptrToSlot cfg s.readPtr) s.usedMsgs cfg.maxMsgs with
      | .ok (newReadIdx, newUsed) =>
        { s with
          toThreads := threads.returns thread call OK data
          readPtr := slotToPtr cfg newReadIdx
          usedMsgs := newUsed
          buffer := store s.buffer (slotToPtr cfg newReadIdx) data }
      | .error _ => s -- not reached: rc is asserted to be 0
  else
    { s with toThreads := s.returns thread call ENOMSG data }

def acceptWriter (s : State cfg) (writer : Tid) : State cfg :=
  let buffer := store s.buffer s.writePtr (s.swapData writer)
  match galeMsgqPut (ptrToSlot cfg s.writePtr) s.usedMsgs cfg.maxMsgs with
  | .ok (newWriteIdx, newUsed) =>
    { s with
      toThreads := s.zReadyThread writer OK
      buffer := buffer
      writePtr := slotToPtr cfg newWriteIdx
      usedMsgs := newUsed }
  | .error _ => s -- not reached: rc is asserted to be 0

def get (s : State cfg) (thread : Tid) (data : Message cfg) (timeout : Timeout) : State cfg :=
  let call := Call.Get data timeout
  let (pending, threads) :=
    if s.usedMsgs > 0 then s.zUnpendFirstThread policy else (none, s.toThreads)
  let d := galeKMsgqGetDecide (ptrToSlot cfg s.readPtr) s.usedMsgs cfg.maxMsgs pending.isSome
    timeout.isNoWait
  let message := load s.buffer s.readPtr cfg.msgSize
  let taken := { s with
    toThreads := threads
    readPtr := slotToPtr cfg d.newReadIdx
    usedMsgs := d.newUsed }
  match d.action with
  | .WakeWriter =>
    match pending with
    | some writer =>
      let s := taken.acceptWriter writer
      { s with toThreads := s.returns thread call OK message }
    | none => s -- not reached: has_waiter was 0
  | .Read => { taken with toThreads := threads.returns thread call OK message }
  | .Pend => { s with toThreads := threads.zPendCurr thread call data }
  | .Empty => { s with toThreads := threads.returns thread call d.ret data }

def purge (s : State cfg) : State cfg :=
  { s with
    toThreads := s.wakeAll policy s.waitQ.length
    usedMsgs := 0
    readPtr := s.writePtr }

end State

inductive Op (cfg : Config) where
  | Put (thread : Tid) (data : Message cfg) (timeout : Timeout)
  | PutFront (thread : Tid) (data : Message cfg)
  | Get (thread : Tid) (data : Message cfg) (timeout : Timeout)
  | Purge
  | TimeOut (thread : Tid)

-- A thread whose call has pended makes no other call, and only a thread on
-- the wait queue with a finite timeout times out.
def enabled (s : Threads cfg) : Op cfg → Bool
  | .Put thread _ _ | .PutFront thread _ | .Get thread _ _ => (s.calls thread).isNone
  | .Purge => true
  | .TimeOut thread =>
    thread ∈ s.waitQ && (s.calls thread).any fun call => call.timeout ≠ K_FOREVER

def exec (policy : Policy Tid) (s : State cfg) : Op cfg → State cfg
  | .Put thread data timeout => s.put policy thread data timeout
  | .PutFront thread data => s.putFront policy thread data
  | .Get thread data timeout => s.get policy thread data timeout
  | .Purge => s.purge policy
  | .TimeOut thread => { s with toThreads := s.timeOut thread }

def step (policy : Policy Tid) (s : State cfg) (op : Op cfg) : Option (State cfg) :=
  if enabled s.toThreads op then some (exec policy s op) else none

end Gale.Msgq
