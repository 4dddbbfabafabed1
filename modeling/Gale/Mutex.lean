import Gale.Kernel

namespace Gale.Mutex

open Lib

def U32_MAX : Nat := 4294967295

-- From src/mutex.rs.

inductive LockDecision where
  | Acquire
  | Reentrant
  | Overflow
  | Busy
  | Pend

def lockDecide (lockCount : Nat) (ownerIsNull ownerIsCurrent isNoWait : Bool) : LockDecision :=
  if ownerIsNull then .Acquire
  else if ownerIsCurrent then
    if lockCount < U32_MAX then .Reentrant else .Overflow
  else if isNoWait then .Busy
  else .Pend

inductive UnlockDecisionKind where
  | NotLocked
  | NotOwner
  | Released
  | FullyUnlocked

def unlockDecide (lockCount : Nat) (ownerIsNull ownerIsCurrent : Bool) : UnlockDecisionKind :=
  if ownerIsNull then .NotLocked
  else if !ownerIsCurrent then .NotOwner
  else if lockCount > 1 then .Released
  else .FullyUnlocked

-- From ffi/src/lib.rs.

inductive LockAction where
  | Acquired
  | Pend
  | Busy

structure LockResult where
  ret : Int
  action : LockAction
  newLockCount : Nat

def kMutexLockDecide (lockCount : Nat) (ownerIsNull ownerIsCurrent isNoWait : Bool) :
    LockResult :=
  match lockDecide lockCount ownerIsNull ownerIsCurrent isNoWait with
  | .Acquire => ⟨OK, .Acquired, 1⟩
  | .Reentrant => ⟨OK, .Acquired, lockCount + 1⟩
  | .Overflow => ⟨EINVAL, .Busy, lockCount⟩
  | .Busy => ⟨EBUSY, .Busy, lockCount⟩
  | .Pend => ⟨0, .Pend, lockCount⟩

inductive UnlockAction where
  | Released
  | Unlocked
  | Error

structure UnlockResult where
  ret : Int
  action : UnlockAction
  newLockCount : Nat

def kMutexUnlockDecide (lockCount : Nat) (ownerIsNull ownerIsCurrent : Bool) : UnlockResult :=
  match unlockDecide lockCount ownerIsNull ownerIsCurrent with
  | .NotLocked => ⟨EINVAL, .Error, 0⟩
  | .NotOwner => ⟨EPERM, .Error, lockCount⟩
  | .Released => ⟨OK, .Released, lockCount - 1⟩
  | .FullyUnlocked => ⟨OK, .Unlocked, 0⟩

structure Config where
  priorityCeiling : Int
  lowestThreadPrio : Int

def Config.inherits (cfg : Config) : Bool := cfg.priorityCeiling < cfg.lowestThreadPrio

-- A k_mutex, with the priorities of the threads that use it.
structure State where
  owner : Option Tid
  lockCount : Nat
  ownerOrigPrio : Int
  waitQ : List Tid
  prio : Tid → Int

def init (prio : Tid → Int) : State where
  owner := none
  lockCount := 0
  ownerOrigPrio := 0
  waitQ := []
  prio := prio

def newPrioForInheritance (cfg : Config) (target limit : Int) : Int :=
  let newPrio := if target < limit then target else limit
  if newPrio ≥ cfg.priorityCeiling then newPrio else cfg.priorityCeiling

namespace State

variable (cfg : Config) (policy : (Tid → Int) → Policy Tid)

def adjustOwnerPrio (m : State) (newPrio : Int) : State :=
  match m.owner with
  | some owner =>
    if m.prio owner ≠ newPrio then { m with prio := Function.update m.prio owner newPrio } else m
  | none => m

def inherit (m : State) (current : Tid) : State :=
  match m.owner with
  | some owner =>
    let newPrio := newPrioForInheritance cfg (m.prio current) (m.prio owner)
    if newPrio < m.prio owner then m.adjustOwnerPrio newPrio else m
  | none => m

-- z_impl_k_mutex_lock up to z_pend_curr; no result when the caller pends.
def lock (m : State) (current : Tid) (timeout : Timeout) : State × Option Int :=
  let d := kMutexLockDecide m.lockCount m.owner.isNone (m.owner = some current) timeout.isNoWait
  match d.action with
  | .Acquired =>
    ({ m with
      ownerOrigPrio :=
        if cfg.inherits ∧ m.lockCount = 0 then m.prio current else m.ownerOrigPrio
      lockCount := d.newLockCount
      owner := some current }, some 0)
  | .Busy => (m, some d.ret)
  | .Pend =>
    let m := if cfg.inherits then m.inherit cfg current else m
    ({ m with waitQ := m.waitQ ++ [current] }, none)

def timeOut (m : State) (thread : Tid) : State := { m with waitQ := m.waitQ.erase thread }

def lockTimedOut (m : State) : State :=
  if cfg.inherits ∧ m.owner.isSome then
    match (policy m.prio).best m.waitQ with
    | some waiter =>
      m.adjustOwnerPrio (newPrioForInheritance cfg (m.prio waiter) m.ownerOrigPrio)
    | none => m.adjustOwnerPrio m.ownerOrigPrio
  else m

def unlock (m : State) (current : Tid) : State × Int × Option Tid :=
  let d := kMutexUnlockDecide m.lockCount m.owner.isNone (m.owner = some current)
  match d.action with
  | .Error => (m, d.ret, none)
  | .Released => ({ m with lockCount := d.newLockCount }, 0, none)
  | .Unlocked =>
    let m := if cfg.inherits then m.adjustOwnerPrio m.ownerOrigPrio else m
    match (policy m.prio).take m.waitQ with
    | (some newOwner, rest) =>
      ({ m with
        owner := some newOwner
        waitQ := rest
        ownerOrigPrio := if cfg.inherits then m.prio newOwner else m.ownerOrigPrio
        lockCount := 1 }, 0, some newOwner)
    | (none, rest) => ({ m with owner := none, waitQ := rest, lockCount := 0 }, 0, none)

end State

end Gale.Mutex
