import Gale.Kernel
import Gale.Lib.Run

namespace Gale.SmpState

-- From src/smp_state.rs.
def startCpuDecide (activeCpus maxCpus : Nat) : Except Int Nat :=
  if activeCpus < maxCpus then .ok (activeCpus + 1) else .error EBUSY

def stopCpuDecide (activeCpus : Nat) : Except Int Nat :=
  if activeCpus > 1 then .ok (activeCpus - 1) else .error EINVAL

inductive StartAction where
  | StartOk
  | AllActive

inductive StopAction where
  | StopOk
  | LastCpu

structure StartDecision where
  action : StartAction
  newActive : Nat

structure StopDecision where
  action : StopAction
  newActive : Nat

def galeSmpStartCpuDecide (activeCpus maxCpus : Nat) : StartDecision :=
  match startCpuDecide activeCpus maxCpus with
  | .ok newActive => ⟨.StartOk, newActive⟩
  | .error _ => ⟨.AllActive, activeCpus⟩

def galeSmpStopCpuDecide (activeCpus : Nat) : StopDecision :=
  match stopCpuDecide activeCpus with
  | .ok newActive => ⟨.StopOk, newActive⟩
  | .error _ => ⟨.LastCpu, activeCpus⟩

-- Neither shim reads the id of the CPU: the result is the return code and the new
-- gale_active_cpus.
def galeSmpCpuStartChecked (activeCpus maxCpus : Nat) : Int × Nat :=
  let d := galeSmpStartCpuDecide activeCpus maxCpus
  match d.action with
  | .AllActive => (EBUSY, activeCpus)
  | .StartOk => (OK, d.newActive)

def galeSmpCpuStopChecked (activeCpus : Nat) : Int × Nat :=
  let d := galeSmpStopCpuDecide activeCpus
  match d.action with
  | .LastCpu => (EINVAL, activeCpus)
  | .StopOk => (OK, d.newActive)

structure State where
  activeCpus : Nat
  running : Finset Nat
  deriving DecidableEq

def init : State where
  activeCpus := 1
  running := {0}

inductive Op where
  | Start (id : Nat)
  | Stop (id : Nat)

def Op.id : Op → Nat
  | .Start id => id
  | .Stop id => id

variable (maxCpus : Nat)

def answer (s : State) : Op → Int × Nat
  | .Start _ => galeSmpCpuStartChecked s.activeCpus maxCpus
  | .Stop _ => galeSmpCpuStopChecked s.activeCpus

-- A call that returns 0 starts or stops the CPU it names.
def step (s : State) (op : Op) : Option State :=
  if op.id < maxCpus then
    let (ret, activeCpus) := answer maxCpus s op
    let running :=
      if ret = OK then
        match op with
        | .Start id => insert id s.running
        | .Stop id => s.running.erase id
      else s.running
    some ⟨activeCpus, running⟩
  else none

theorem answer_start (s : State) (id : Nat) : answer maxCpus s (.Start id) =
      if s.activeCpus < maxCpus then (OK, s.activeCpus + 1) else (EBUSY, s.activeCpus) := by
  by_cases hl : s.activeCpus < maxCpus <;>
    simp [answer, galeSmpCpuStartChecked, galeSmpStartCpuDecide, startCpuDecide, hl]

theorem answer_stop (s : State) (id : Nat) : answer maxCpus s (.Stop id) =
      if s.activeCpus > 1 then (OK, s.activeCpus - 1) else (EINVAL, s.activeCpus) := by
  by_cases hm : s.activeCpus > 1 <;>
    simp [answer, galeSmpCpuStopChecked, galeSmpStopCpuDecide, stopCpuDecide, hm]

end Gale.SmpState
