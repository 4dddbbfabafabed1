import Gale.Kernel

namespace Gale.Pm

-- From src/pm.rs.

inductive PmState where
  | Active
  | RuntimeIdle
  | SuspendToIdle
  | Standby
  | SuspendToRam
  | SoftOff
  deriving DecidableEq, Repr

def PM_STATE_COUNT : UInt8 := 6

def PmState.fromU8 (v : UInt8) : Except Int PmState :=
  match v with
  | 0 => .ok .Active
  | 1 => .ok .RuntimeIdle
  | 2 => .ok .SuspendToIdle
  | 3 => .ok .Standby
  | 4 => .ok .SuspendToRam
  | 5 => .ok .SoftOff
  | _ => .error EINVAL

def PmState.asU8 : PmState → UInt8
  | .Active => 0
  | .RuntimeIdle => 1
  | .SuspendToIdle => 2
  | .Standby => 3
  | .SuspendToRam => 4
  | .SoftOff => 5

-- No current state stands for Active.
structure PmCpuState where
  current : Option PmState
  forced : Option PmState
  forcedSubstate : UInt8
  postOpsRequired : Bool

namespace PmCpuState

def init : PmCpuState where
  current := none
  forced := none
  forcedSubstate := 0
  postOpsRequired := false

def forceState (s : PmCpuState) (state : PmState) (substateId : UInt8) : Int × PmCpuState :=
  if s.current = some .SoftOff then (EINVAL, s)
  else (OK, { s with forced := some state, forcedSubstate := substateId })

-- The substate is recorded elsewhere.
def enterState (s : PmCpuState) (state : PmState) (_substateId : UInt8) : Int × PmCpuState :=
  if state = .Active then (EINVAL, s)
  else
    (OK, { s with
      current := some state
      forced := none
      forcedSubstate := 0
      postOpsRequired := true })

def resume (s : PmCpuState) : Int × PmCpuState :=
  if s.postOpsRequired = false then (EINVAL, s)
  else if s.current = some .SoftOff then (EINVAL, s)
  else (OK, { s with postOpsRequired := false, current := none })

end PmCpuState

def stateTransitionValid (source target : PmState) : Bool :=
  match source with
  | .Active => true
  | .SoftOff => false
  | _ => target = .Active

def suspendStateDecide (forced policyState : Option PmState) : Option PmState :=
  match forced with
  | some s => some s
  | none => policyState

-- From ffi/src/lib.rs.

inductive ForceAction where
  | Ok
  | Terminal
  deriving DecidableEq, Repr

structure ForceDecision where
  action : ForceAction
  state : UInt8
  substateId : UInt8

def galePmForceDecide (currentState targetState substateId : UInt8) : ForceDecision :=
  if currentState ≥ PM_STATE_COUNT ∨ targetState ≥ PM_STATE_COUNT then ⟨.Terminal, currentState, 0⟩
  else if currentState = PmState.SoftOff.asU8 then ⟨.Terminal, currentState, 0⟩
  else ⟨.Ok, targetState, substateId⟩

inductive SuspendAction where
  | EnterState
  | StayActive
  deriving DecidableEq, Repr

structure SuspendDecision where
  action : SuspendAction
  state : UInt8
  substateId : UInt8

-- The state a code stands for, if the flag beside it is set and it stands for one.
def flagged (has state : UInt8) : Option PmState :=
  if has ≠ 0 ∧ state < PM_STATE_COUNT then (PmState.fromU8 state).toOption else none

def galePmSuspendDecide (hasForced forcedState forcedSubstate hasPolicy policyState
    policySubstate : UInt8) : SuspendDecision :=
  let forced := flagged hasForced forcedState
  let policy := flagged hasPolicy policyState
  match suspendStateDecide forced policy with
  | some state =>
    let substate := if hasForced ≠ 0 then forcedSubstate else policySubstate
    ⟨.EnterState, state.asU8, substate⟩
  | none => ⟨.StayActive, 0, 0⟩

def galePmTransitionValid (fromState toState : UInt8) : UInt8 :=
  if fromState ≥ PM_STATE_COUNT ∨ toState ≥ PM_STATE_COUNT then 0
  else match PmState.fromU8 fromState, PmState.fromU8 toState with
    | .ok source, .ok target => if stateTransitionValid source target then 1 else 0
    | _, _ => 0

-- From zephyr/gale_pm.c.

structure Cpu where
  state : UInt8
  substate : UInt8
  hasForced : Bool
  forcedState : UInt8
  forcedSubstate : UInt8

def Cpu.boot : Cpu := ⟨0, 0, false, 0, 0⟩

def Cpu.force (c : Cpu) (state substateId : UInt8) : Int × Cpu :=
  let d := galePmForceDecide c.state state substateId
  if d.action = .Terminal then (EINVAL, c)
  else (0, { c with hasForced := true, forcedState := d.state, forcedSubstate := d.substateId })

-- The return value, what is stored through the two pointers, and the CPU afterwards.
-- The policy may answer anything.
def Cpu.suspend (c : Cpu) (policyInfo : Option (UInt8 × UInt8)) : Int × Option (UInt8 × UInt8) × Cpu :=
  let hasPolicy : UInt8 := if policyInfo.isSome then 1 else 0
  let policyState := (policyInfo.map Prod.fst).getD 0
  let policySub := (policyInfo.map Prod.snd).getD 0
  let d := galePmSuspendDecide (if c.hasForced then 1 else 0) c.forcedState c.forcedSubstate
    hasPolicy policyState policySub
  let consumed := { c with hasForced := false }
  if d.action = .StayActive then (EAGAIN, none, consumed)
  else
    (0, some (d.state, d.substateId), { consumed with state := d.state, substate := d.substateId })

-- The calls on CONFIG_MP_MAX_NUM_CPUS many CPUs; outs says that no out pointer is NULL.

def galePmStateForceChecked {n : Nat} (cpus : Fin n → Cpu) (cpu state substateId : UInt8) :
    Int × (Fin n → Cpu) :=
  if h : cpu.toNat < n then
    let (ret, c) := (cpus ⟨cpu.toNat, h⟩).force state substateId
    (ret, Function.update cpus ⟨cpu.toNat, h⟩ c)
  else (EINVAL, cpus)

def galePmSuspendChecked {n : Nat} (cpus : Fin n → Cpu) (cpu : UInt8) (outs : Bool)
    (policyInfo : Option (UInt8 × UInt8)) : Int × Option (UInt8 × UInt8) × (Fin n → Cpu) :=
  if h : cpu.toNat < n ∧ outs = true then
    let (ret, out, c) := (cpus ⟨cpu.toNat, h.1⟩).suspend policyInfo
    (ret, out, Function.update cpus ⟨cpu.toNat, h.1⟩ c)
  else (EINVAL, none, cpus)

end Gale.Pm
