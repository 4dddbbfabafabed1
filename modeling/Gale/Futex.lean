import Gale.Kernel
import Gale.Lib.Run

namespace Gale.Futex

open Function Lib

-- From src/futex.rs.
inductive WaitDecision where
  | Block
  | Mismatch

structure WakeDecision where
  woken : Nat
  remaining : Nat

def waitDecide (val expected : UInt32) : WaitDecision :=
  if val = expected then .Block else .Mismatch

def wakeDecide (numWaiters : Nat) (wakeAll : Bool) : WakeDecision :=
  if numWaiters = 0 then ⟨0, 0⟩
  else if wakeAll then ⟨numWaiters, 0⟩
  else ⟨1, numWaiters - 1⟩

theorem wakeDecide_all (numWaiters : Nat) : wakeDecide numWaiters true = ⟨numWaiters, 0⟩ := by
  unfold wakeDecide
  split
  next hz => rw [hz]
  next => rfl

-- From ffi/src/lib.rs.
inductive WaitAction where
  | Block
  | ReturnEagain
  deriving DecidableEq, Repr

structure GaleFutexWaitDecision where
  action : WaitAction
  ret : Int

def galeKFutexWaitDecide (val expected : UInt32) (isNoWait : Bool) : GaleFutexWaitDecision :=
  match waitDecide val expected with
  | .Mismatch => ⟨.ReturnEagain, EAGAIN⟩
  | .Block => if isNoWait then ⟨.ReturnEagain, ETIMEDOUT⟩ else ⟨.Block, OK⟩

theorem galeKFutexWaitDecide_block {val expected : UInt32} {isNoWait : Bool} :
    (galeKFutexWaitDecide val expected isNoWait).action = .Block ↔ val = expected ∧ isNoWait = false := by
  unfold galeKFutexWaitDecide waitDecide
  by_cases hv : val = expected
  · cases isNoWait <;> simp [hv]
  · simp [hv]

-- From zephyr/gale_futex.c.

-- The type of the kernel object at the address of the futex, as far as
-- k_futex_find_data looks at it.
inductive KObjType where
  | K_OBJ_FUTEX
  | Other
  deriving DecidableEq, Repr

structure WaitCall where
  expected : Int32
  timeout : Timeout
  deriving DecidableEq, Repr

-- Where a thread stands. In k_futex_wait it has Sampled the value and holds the
-- lock until it is Pended; off the queue it is Readied with the result of
-- z_pend_curr. In k_futex_wake it is Waking in the loop and Unlocking behind it,
-- both with the lock, and Woke without.
inductive Pc where
  | Idle
  | Sampled (call : WaitCall)
  | Pended (call : WaitCall)
  | Readied (call : WaitCall) (ret : Int)
  | Waking (wakeAll : Bool) (woken : Nat)
  | Unlocking (wakeAll : Bool) (woken : Nat)
  | Woke (wakeAll : Bool) (woken : Nat)
  deriving DecidableEq, Repr

inductive Return where
  | Wait (thread : Tid) (ret : Int)
  | Wake (thread : Tid) (ret : Int)

-- One futex with its z_futex_data. An atomic_t is as wide as a long of the target.
structure State (width : Nat) where
  object : Option KObjType
  val : BitVec width
  lock : Option Tid
  waitQ : List Tid
  pc : Tid → Pc
  log : List Return

variable {width : Nat}

def init (val : BitVec width) : State width where
  object := some .K_OBJ_FUTEX
  val := val
  lock := none
  waitQ := []
  pc := fun _ => .Idle
  log := []

-- The cast of atomic_get(&futex->val) to uint32_t.
def sample (val : BitVec width) : UInt32 := UInt32.ofBitVec (val.setWidth 32)

def Pc.readied (ret : Int) : Pc → Pc
  | .Pended call => .Readied call ret
  | pc => pc

namespace State

def setPc (s : State width) (thread : Tid) (pc : Pc) : State width :=
  { s with pc := update s.pc thread pc }

def returns (s : State width) (entry : Return) : State width := { s with log := s.log ++ [entry] }

def kFutexFindData (s : State width) : Bool := s.object = some .K_OBJ_FUTEX

def acquire (s : State width) (current : Tid) (pc : Pc) : State width :=
  { s.setPc current pc with lock := some current }

def release (s : State width) (current : Tid) (pc : Pc) : State width :=
  { s.setPc current pc with lock := none }

def unpend (s : State width) (thread : Tid) (ret : Int) : State width :=
  { s.setPc thread ((s.pc thread).readied ret) with waitQ := s.waitQ.erase thread }

-- z_impl_k_futex_wait up to z_pend_curr.
def wait (s : State width) (current : Tid) (expected : Int32) (timeout : Timeout) : State width :=
  if s.kFutexFindData then
    let d := galeKFutexWaitDecide (sample s.val) expected.toUInt32 timeout.isNoWait
    if d.action ≠ .Block then s.returns (.Wait current d.ret)
    else s.acquire current (.Sampled ⟨expected, timeout⟩)
  else s.returns (.Wait current EINVAL)

-- z_pend_curr: on the queue, and the lock is released.
def pend (s : State width) (current : Tid) (call : WaitCall) : State width :=
  { s.release current (.Pended call) with waitQ := s.waitQ ++ [current] }

def resume (s : State width) (current : Tid) (ret : Int) : State width :=
  (s.setPc current .Idle).returns (.Wait current (if ret = EAGAIN then ETIMEDOUT else ret))

-- z_impl_k_futex_wake up to its loop.
def wake (s : State width) (current : Tid) (wakeAll : Bool) : State width :=
  if s.kFutexFindData then s.acquire current (.Waking wakeAll 0)
  else s.returns (.Wake current EINVAL)

-- One turn of the loop of z_impl_k_futex_wake.
def wakeTurn (s : State width) (policy : Policy Tid) (current : Tid) (wakeAll : Bool) (woken : Nat) :
    State width :=
  match (policy.take s.waitQ).1 with
  | some thread =>
    (s.unpend thread 0).setPc current
      (if wakeAll then .Waking wakeAll (woken + 1) else .Unlocking wakeAll (woken + 1))
  | none => s.setPc current (.Unlocking wakeAll woken)

section Fields

variable (s : State width) (thread : Tid) (pc : Pc)

@[simp] theorem setPc_pc : (s.setPc thread pc).pc = update s.pc thread pc := rfl
@[simp] theorem setPc_waitQ : (s.setPc thread pc).waitQ = s.waitQ := rfl
@[simp] theorem returns_pc (entry : Return) : (s.returns entry).pc = s.pc := rfl
@[simp] theorem acquire_pc : (s.acquire thread pc).pc = update s.pc thread pc := rfl
@[simp] theorem release_pc : (s.release thread pc).pc = update s.pc thread pc := rfl
@[simp] theorem pend_pc (call : WaitCall) : (s.pend thread call).pc = update s.pc thread (.Pended call) := rfl
@[simp] theorem pend_waitQ (call : WaitCall) : (s.pend thread call).waitQ = s.waitQ ++ [thread] := rfl
@[simp] theorem unpend_pc (ret : Int) :
    (s.unpend thread ret).pc = update s.pc thread ((s.pc thread).readied ret) := rfl
@[simp] theorem unpend_waitQ (ret : Int) : (s.unpend thread ret).waitQ = s.waitQ.erase thread := rfl

end Fields

end State

inductive Op (width : Nat) where
  -- somebody changes the value, with no lock
  | Store (val : BitVec width)
  | Wait (thread : Tid) (expected : Int32) (timeout : Timeout)
  | Wake (thread : Tid) (wakeAll : Bool)
  | TimeOut (thread : Tid)
  -- a thread inside a call goes one step on, or returns
  | Continue (thread : Tid)
  deriving DecidableEq, Repr

-- Stores and time-outs also fall between the steps of a section that holds the lock.
def step (policy : Policy Tid) (s : State width) : Op width → Option (State width)
  | .Store val => some { s with val := val }
  | .Wait thread expected timeout =>
    if s.pc thread = .Idle ∧ s.lock = none then some (s.wait thread expected timeout) else none
  | .Wake thread wakeAll =>
    if s.pc thread = .Idle ∧ s.lock = none then some (s.wake thread wakeAll) else none
  | .TimeOut thread =>
    match s.pc thread with
    | .Pended call => if call.timeout ≠ K_FOREVER then some (s.unpend thread EAGAIN) else none
    | _ => none
  | .Continue thread =>
    match s.pc thread with
    | .Sampled call => some (s.pend thread call)
    | .Readied _ ret => some (s.resume thread ret)
    | .Waking wakeAll woken => some (s.wakeTurn policy thread wakeAll woken)
    | .Unlocking wakeAll woken => some (s.release thread (.Woke wakeAll woken))
    | .Woke _ woken => some ((s.setPc thread .Idle).returns (.Wake thread woken))
    | _ => none

end Gale.Futex
