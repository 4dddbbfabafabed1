import Gale.Mutex
import Gale.Lib.Run

namespace Gale.Condvar

open Lib

-- From src/condvar.rs.

inductive SignalAction where
  | Noop
  | WakeOne

def signalDecide (hasWaiter : Bool) : SignalAction := if hasWaiter then .WakeOne else .Noop

def broadcastDecide (numWaiters : Nat) : Nat := numWaiters

inductive WaitAction where
  | Pend
  | ReturnEagain

def waitDecide (isNoWait : Bool) : WaitAction := if isNoWait then .ReturnEagain else .Pend

-- A call of k_condvar_wait. What the mutex was when it began is kept for the
-- statements; no step reads it.
structure WaitCall where
  timeout : Timeout
  heldOnce : Bool
  deriving DecidableEq, Repr

-- Where a thread stands. Between k_mutex_unlock and z_pend_curr it is
-- Releasing, on the queue of the condition variable Waiting, and off it Woken
-- with the result of z_pend_curr. The pended calls of k_mutex_lock are Locking
-- for a call of its own and Relocking for the one at the end of the wait.
inductive Pc where
  | Idle
  | Locking (timeout : Timeout)
  | LockTimedOut
  | Locked
  | Releasing (c : WaitCall)
  | Waiting (c : WaitCall)
  | Woken (c : WaitCall) (ret : Int)
  | Relocking (c : WaitCall)
  | Relocked (c : WaitCall)
  deriving DecidableEq, Repr

-- A return of k_condvar_wait, with the mutex as the caller then finds it.
structure WaitReturn where
  thread : Tid
  call : WaitCall
  ret : Int
  owner : Option Tid
  lockCount : Nat
  deriving DecidableEq, Repr

-- One condition variable and one mutex. The spin lock of the condition
-- variables is held across steps by a Releasing thread only.
structure State where
  mutex : Mutex.State
  condvarLock : Option Tid
  waitQ : List Tid
  pc : Tid → Pc
  log : List WaitReturn

def init (prio : Tid → Int) : State where
  mutex := Mutex.init prio
  condvarLock := none
  waitQ := []
  pc := fun _ => .Idle
  log := []

def Pc.handed : Pc → Pc
  | .Locking _ => .Locked
  | .Relocking c => .Relocked c
  | pc => pc

def Pc.woken (ret : Int) : Pc → Pc
  | .Waiting c => .Woken c ret
  | pc => pc

namespace State

variable (cfg : Mutex.Config) (policy : (Tid → Int) → Policy Tid)

def setPc (s : State) (thread : Tid) (pc : Pc) : State :=
  { s with pc := Function.update s.pc thread pc }

def waitReturns (s : State) (thread : Tid) (call : WaitCall) (ret : Int) : State :=
  { s.setPc thread .Idle with
    log := s.log ++ [⟨thread, call, ret, s.mutex.owner, s.mutex.lockCount⟩] }

-- k_mutex_unlock, whose return value k_condvar_wait does not look at.
def mutexUnlock (s : State) (current : Tid) : State :=
  let (mutex, _, newOwner) := s.mutex.unlock cfg policy current
  let s := { s with mutex := mutex }
  match newOwner with
  | some thread => s.setPc thread (s.pc thread).handed
  | none => s

-- z_impl_k_condvar_wait up to the release of the mutex.
def wait (s : State) (current : Tid) (timeout : Timeout) : State :=
  let call : WaitCall := ⟨timeout, s.mutex.owner = some current ∧ s.mutex.lockCount = 1⟩
  match waitDecide timeout.isNoWait with
  | .ReturnEagain => s.waitReturns current call EAGAIN
  | .Pend =>
    let s := s.mutexUnlock cfg policy current
    { s.setPc current (.Releasing call) with condvarLock := some current }

-- z_pend_curr: on the queue, and condvar_lock is released.
def pend (s : State) (current : Tid) (call : WaitCall) : State :=
  { s.setPc current (.Waiting call) with condvarLock := none, waitQ := s.waitQ ++ [current] }

-- What follows z_pend_curr in z_impl_k_condvar_wait.
def resume (s : State) (current : Tid) (call : WaitCall) (ret : Int) : State :=
  if ret = 0 then
    let (mutex, result) := s.mutex.lock cfg current K_FOREVER
    let s := { s with mutex := mutex }
    match result with
    | some _ => s.waitReturns current call ret
    | none => s.setPc current (.Relocking call)
  else s.waitReturns current call ret

def wakeOne (s : State) : State :=
  match (policy s.mutex.prio).take s.waitQ with
  | (some thread, rest) => { s.setPc thread ((s.pc thread).woken 0) with waitQ := rest }
  | (none, _) => s

def signal (s : State) : State :=
  match signalDecide (s.waitQ ≠ []) with
  | .WakeOne => s.wakeOne policy
  | .Noop => s

def wakeMany : Nat → State → State
  | 0, s => s
  | count + 1, s => wakeMany count (s.wakeOne policy)

def broadcast (s : State) : State := s.wakeMany policy (broadcastDecide s.waitQ.length)

def timeOut (s : State) (thread : Tid) : State :=
  { s.setPc thread ((s.pc thread).woken EAGAIN) with waitQ := s.waitQ.erase thread }

def mutexLock (s : State) (current : Tid) (timeout : Timeout) : State :=
  let (mutex, result) := s.mutex.lock cfg current timeout
  let s := { s with mutex := mutex }
  match result with
  | some _ => s
  | none => s.setPc current (.Locking timeout)

def mutexTimeOut (s : State) (thread : Tid) : State :=
  { s with mutex := s.mutex.timeOut thread }.setPc thread .LockTimedOut

end State

inductive Op where
  | Lock (thread : Tid) (timeout : Timeout)
  | Unlock (thread : Tid)
  | Wait (thread : Tid) (timeout : Timeout)
  | Signal
  | Broadcast
  -- a pended thread reaches its time limit
  | TimeOut (thread : Tid)
  -- a thread inside a call goes on to its next critical section, or returns
  | Continue (thread : Tid)
  deriving DecidableEq, Repr

-- Signals, broadcasts and waits take condvar_lock; the calls of the mutex do not.
def step (cfg : Mutex.Config) (policy : (Tid → Int) → Policy Tid) (s : State) : Op → Option State
  | .Lock thread timeout =>
    if s.pc thread = .Idle then some (s.mutexLock cfg thread timeout) else none
  | .Unlock thread =>
    if s.pc thread = .Idle then some (s.mutexUnlock cfg policy thread) else none
  | .Wait thread timeout =>
    if s.pc thread = .Idle ∧ s.condvarLock = none then some (s.wait cfg policy thread timeout)
    else none
  | .Signal => if s.condvarLock = none then some (s.signal policy) else none
  | .Broadcast => if s.condvarLock = none then some (s.broadcast policy) else none
  | .TimeOut thread =>
    match s.pc thread with
    | .Locking timeout =>
      if timeout ≠ K_FOREVER then some (s.mutexTimeOut thread) else none
    | .Waiting call => if call.timeout ≠ K_FOREVER then some (s.timeOut thread) else none
    | _ => none
  | .Continue thread =>
    match s.pc thread with
    | .LockTimedOut =>
      some ({ s with mutex := s.mutex.lockTimedOut cfg policy }.setPc thread .Idle)
    | .Locked => some (s.setPc thread .Idle)
    | .Releasing call => some (s.pend thread call)
    | .Woken call ret => some (s.resume cfg thread call ret)
    | .Relocked call => some (s.waitReturns thread call 0)
    | _ => none

end Gale.Condvar
