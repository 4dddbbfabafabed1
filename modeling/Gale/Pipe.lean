import Gale.Kernel
import Gale.Lib.Run

namespace Gale.Pipe

open Lib

-- The bits FLAG_OPEN and FLAG_RESET of pipe->flags.
structure Flags where
  isOpen : Bool
  reset : Bool

-- From src/pipe.rs.

inductive WriteDecision where
  | WriteOk
  | WakeReader
  | WritePend
  | WriteError

structure WriteDecideResult where
  decision : WriteDecision
  ret : Int
  actualBytes : Nat
  newUsed : Nat

def writeDecide (used size : Nat) (flags : Flags) (requestLen : Nat) (hasReader : Bool) :
    WriteDecideResult :=
  if flags.reset then ⟨.WriteError, ECANCELED, 0, used⟩
  else if !flags.isOpen then ⟨.WriteError, EPIPE, 0, used⟩
  else if used = 0 ∧ hasReader then
    let actual := if size > 0 ∧ requestLen > 0 then
      if requestLen ≤ size then requestLen else size
    else 0
    ⟨.WakeReader, OK, actual, 0⟩
  else if size = 0 ∨ used ≥ size then ⟨.WritePend, OK, 0, used⟩
  else
    let free := size - used
    let n := if requestLen ≤ free then requestLen else free
    ⟨.WriteOk, OK, n, used + n⟩

inductive ReadDecision where
  | ReadOk
  | WakeWriter
  | ReadPend
  | ReadError

structure ReadDecideResult where
  decision : ReadDecision
  ret : Int
  actualBytes : Nat
  newUsed : Nat

def readDecide (used size : Nat) (flags : Flags) (requestLen : Nat) (hasWriter : Bool) :
    ReadDecideResult :=
  let n := if requestLen ≤ used then requestLen else used
  if flags.reset then ⟨.ReadError, ECANCELED, 0, used⟩
  else if used ≥ size ∧ hasWriter then ⟨.WakeWriter, OK, n, used - n⟩
  else if used > 0 then ⟨.ReadOk, OK, n, used - n⟩
  else if !flags.isOpen then ⟨.ReadError, EPIPE, 0, 0⟩
  else ⟨.ReadPend, OK, 0, 0⟩

structure Config where
  size : Nat
  coherence : Bool

-- struct pipe_buf_spec: got is data[0 .. used].
structure ReadCall where
  len : Nat
  got : List UInt8
  timeout : Timeout

structure WriteCall where
  data : List UInt8
  written : Nat
  timeout : Timeout

inductive Call where
  | Read (c : ReadCall)
  | Write (c : WriteCall)

def Call.timeout : Call → Timeout
  | .Read c => c.timeout
  | .Write c => c.timeout

-- Where a call stands inside wait_for: on a wait queue, or woken with the
-- result of z_pend_curr and about to take the lock again.
inductive Status where
  | Pended
  | Woken (rc : Int)

inductive Entry where
  | WaitFor (thread : Tid)
  | Return (thread : Tid) (rc : Int) (bytes : List UInt8)
  deriving DecidableEq, Repr

-- One k_pipe. The ring buffer is the list of its bytes, oldest first; calls
-- holds the calls inside wait_for.
structure State where
  buf : List UInt8
  flags : Flags
  waiting : Nat
  data : List Tid
  space : List Tid
  calls : Tid → Option (Call × Status)
  log : List Entry

def init : State where
  buf := []
  flags := ⟨true, false⟩
  waiting := 0
  data := []
  space := []
  calls := fun _ => none
  log := []

def isExpired (timeout : Timeout) (expired : Bool) : Bool :=
  match timeout with
  | .Forever => false
  | .Ticks n => n = 0 || expired

namespace State

def returns (s : State) (thread : Tid) (rc : Int) (bytes : List UInt8) : State :=
  { s with log := s.log ++ [.Return thread rc bytes] }

def wake (calls : Tid → Option (Call × Status)) (rc : Int) (queue : List Tid) :
    Tid → Option (Call × Status) :=
  fun t => if t ∈ queue then (calls t).map fun c => (c.1, .Woken rc) else calls t

def wakeAllReaders (s : State) : State := { s with data := [], calls := wake s.calls 0 s.data }

def wakeAllWriters (s : State) : State := { s with space := [], calls := wake s.calls 0 s.space }

def waitForData (s : State) (thread : Tid) (c : ReadCall) (expired : Bool) : State :=
  let s := { s with log := s.log ++ [Entry.WaitFor thread] }
  if isExpired c.timeout expired then
    s.returns thread (if c.got ≠ [] then c.got.length else EAGAIN) c.got
  else
    { s with
      waiting := s.waiting + 1
      data := s.data ++ [thread]
      calls := Function.update s.calls thread (some (.Read c, .Pended)) }

def waitForSpace (s : State) (thread : Tid) (c : WriteCall) (expired : Bool) : State :=
  let s := { s with log := s.log ++ [Entry.WaitFor thread] }
  if isExpired c.timeout expired then
    s.returns thread (if c.written ≠ 0 then c.written else EAGAIN) []
  else
    { s with
      waiting := s.waiting + 1
      space := s.space ++ [thread]
      calls := Function.update s.calls thread (some (.Write c, .Pended)) }

-- The loop over waiting readers; the bytes are those not yet copied. A
-- reader that wants more stays on the queue and ends the loop.
def copyToPendingReaders (policy : Policy Tid) : Nat → State → List UInt8 → State × List UInt8
  | 0, s, bytes => (s, bytes)
  | fuel + 1, s, bytes =>
    match policy.best s.data with
    | none => (s, bytes)
    | some reader =>
      match s.calls reader with
      | some (.Read c, status) =>
        let copySize := min bytes.length (c.len - c.got.length)
        let c := { c with got := c.got ++ bytes.take copySize }
        let bytes := bytes.drop copySize
        if c.got.length < c.len then
          ({ s with calls := Function.update s.calls reader (some (.Read c, status)) }, bytes)
        else
          let s := { s with
            data := s.data.erase reader
            calls := Function.update s.calls reader (some (.Read c, .Woken 0)) }
          if bytes = [] then (s, bytes) else copyToPendingReaders policy fuel s bytes
      | _ => (s, bytes) -- not reached: only readers wait on data

variable (cfg : Config) (policy : Policy Tid)

def storeRest (s : State) (thread : Tid) (c : WriteCall) (expired : Bool) : State :=
  let rest := c.data.drop c.written
  let stored := min rest.length (cfg.size - s.buf.length)
  let s := { s with buf := s.buf ++ rest.take stored }
  let c := { c with written := c.written + stored }
  if c.written = c.data.length then s.returns thread c.written []
  else s.waitForSpace thread c expired

def writeTurn (s : State) (thread : Tid) (c : WriteCall) (expired : Bool) : State :=
  let d := writeDecide s.buf.length cfg.size s.flags (c.data.length - c.written) (s.data ≠ [])
  match d.decision with
  | .WriteError => s.returns thread d.ret []
  | .WakeReader =>
    if cfg.coherence then s.wakeAllReaders.storeRest cfg thread c expired
    else if s.waiting ≠ 0 then
      let rest := c.data.drop c.written
      let (s, left) := s.copyToPendingReaders policy (s.data.length + 1) rest
      let c := { c with written := c.written + (rest.length - left.length) }
      if c.written ≥ c.data.length then s.returns thread c.written []
      else s.storeRest cfg thread c expired
    else s.storeRest cfg thread c expired
  | .WriteOk => s.storeRest cfg thread c expired
  | .WritePend => s.waitForSpace thread c expired

def takeBytes (s : State) (thread : Tid) (c : ReadCall) (expired : Bool) : State :=
  let n := min (c.len - c.got.length) s.buf.length
  let c := { c with got := c.got ++ s.buf.take n }
  let s := { s with buf := s.buf.drop n }
  if c.got.length = c.len then s.returns thread c.got.length c.got
  else s.waitForData thread c expired

def readTurn (s : State) (thread : Tid) (c : ReadCall) (expired : Bool) : State :=
  if c.got.length ≥ c.len then s.returns thread c.got.length c.got
  else
    let d := readDecide s.buf.length cfg.size s.flags (c.len - c.got.length) (s.space ≠ [])
    match d.decision with
    | .ReadError =>
      if d.ret = EPIPE then
        s.returns thread (if c.got ≠ [] then c.got.length else EPIPE) c.got
      else s.returns thread ECANCELED c.got
    | .WakeWriter => s.wakeAllWriters.takeBytes thread c expired
    | .ReadOk => s.takeBytes thread c expired
    | .ReadPend => s.waitForData thread c expired

-- The end of wait_for, with the lock held again: the last thread to leave
-- takes the reset flag back.
def leaveWait (s : State) (thread : Tid) (rc : Int) : State × Int :=
  let s := { s with waiting := s.waiting - 1, calls := Function.update s.calls thread none }
  if s.flags.reset then
    (if s.waiting = 0 then { s with flags := { s.flags with reset := false } } else s, ECANCELED)
  else (s, rc)

def relock (s : State) (thread : Tid) (call : Call) (rc : Int) (expired : Bool) : State :=
  let (s, rc) := s.leaveWait thread rc
  match call with
  | .Read c =>
    if rc = 0 then s.readTurn cfg thread c expired
    else if rc = EAGAIN then
      s.returns thread (if c.got ≠ [] then c.got.length else EAGAIN) c.got
    else s.returns thread rc c.got
  | .Write c =>
    if rc = 0 then s.writeTurn cfg policy thread c expired
    else if rc = EAGAIN then s.returns thread (if c.written ≠ 0 then c.written else EAGAIN) []
    else s.returns thread rc []

def timeOut (s : State) (thread : Tid) : State :=
  { s with
    data := s.data.erase thread
    space := s.space.erase thread
    calls := wake s.calls EAGAIN [thread] }

def reset (s : State) : State :=
  let s := { s with buf := [] }
  if s.waiting ≠ 0 then
    { s with flags := { s.flags with reset := true } }.wakeAllReaders.wakeAllWriters
  else s

def close (s : State) : State := { s with flags := ⟨false, false⟩ }.wakeAllReaders.wakeAllWriters

end State

inductive Op where
  | Read (thread : Tid) (len : Nat) (timeout : Timeout) (expired : Bool)
  | Write (thread : Tid) (data : List UInt8) (timeout : Timeout) (expired : Bool)
  | Relock (thread : Tid) (expired : Bool)
  | TimeOut (thread : Tid)
  | Reset
  | Close

-- A thread inside wait_for makes no other call. Every step is one critical
-- section of the pipe's lock.
def step (cfg : Config) (policy : Policy Tid) (s : State) : Op → Option State
  | .Read thread len timeout expired =>
    if (s.calls thread).isNone then some (s.readTurn cfg thread ⟨len, [], timeout⟩ expired)
    else none
  | .Write thread data timeout expired =>
    if (s.calls thread).isNone then
      some (s.writeTurn cfg policy thread ⟨data, 0, timeout⟩ expired)
    else none
  | .Relock thread expired =>
    match s.calls thread with
    | some (call, .Woken rc) => some (s.relock cfg policy thread call rc expired)
    | _ => none
  | .TimeOut thread =>
    match s.calls thread with
    | some (call, .Pended) =>
      if call.timeout ≠ K_FOREVER then some (s.timeOut thread) else none
    | _ => none
  | .Reset => some s.reset
  | .Close => some s.close

end Gale.Pipe
