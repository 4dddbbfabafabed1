import Gale.Kernel
import Gale.Lib.Run

namespace Gale.Ipc

def MAX_ENDPOINTS : Nat := 16
def MAX_MSG_LEN : Nat := 4096

-- From src/ipc.rs.
inductive IpcEndpointState where
  | Closed
  | Open
  | Bound
  deriving DecidableEq, Repr

structure IpcServiceState where
  registeredCount : Nat
  maxEndpoints : Nat

namespace IpcServiceState

def openDecide (instanceValid : Bool) : Int := if instanceValid then OK else EINVAL

def closeDecide (instanceValid : Bool) : Int := if instanceValid then OK else EINVAL

def registerDecide (svc : IpcServiceState) (paramsValid : Bool) : Int × IpcServiceState :=
  if !paramsValid then (EINVAL, svc)
  else if svc.registeredCount ≥ svc.maxEndpoints then (ENOMEM, svc)
  else (OK, { svc with registeredCount := svc.registeredCount + 1 })

def deregisterDecide (svc : IpcServiceState) (endpointValid endpointRegistered : Bool) :
    Int × IpcServiceState :=
  if !endpointValid then (EINVAL, svc)
  else if !endpointRegistered then (ENOENT, svc)
  else (OK, { svc with registeredCount := svc.registeredCount - 1 })

end IpcServiceState

def sendDecide (endpointValid endpointRegistered : Bool) (state : IpcEndpointState) (len : Nat) :
    Int :=
  if !endpointValid then EINVAL
  else if !endpointRegistered then ENOENT
  else if state ≠ .Bound then EINVAL
  else if len = 0 ∨ len > MAX_MSG_LEN then EINVAL
  else OK

def sendCriticalDecide (endpointValid endpointRegistered : Bool) (state : IpcEndpointState)
    (len : Nat) : Int :=
  sendDecide endpointValid endpointRegistered state len

-- The C side: the state is a number there, and the counts are not kept anywhere.
def IPC_STATE_CLOSED : Nat := 0
def IPC_STATE_OPEN : Nat := 1
def IPC_STATE_BOUND : Nat := 2

def u32ToIpcState (raw : Nat) : Option IpcEndpointState :=
  if raw = IPC_STATE_CLOSED then some .Closed
  else if raw = IPC_STATE_OPEN then some .Open
  else if raw = IPC_STATE_BOUND then some .Bound
  else none

def galeIpcRegisterDecide (paramsValid : Bool) (registeredCount maxEndpoints : Nat) : Int :=
  if maxEndpoints > MAX_ENDPOINTS then EINVAL
  else (IpcServiceState.registerDecide ⟨registeredCount, maxEndpoints⟩ paramsValid).1

def galeIpcDeregisterDecide (endpointValid endpointRegistered : Bool)
    (registeredCount maxEndpoints : Nat) : Int :=
  if maxEndpoints > MAX_ENDPOINTS then EINVAL
  else (IpcServiceState.deregisterDecide ⟨registeredCount, maxEndpoints⟩ endpointValid
    endpointRegistered).1

def galeIpcSendDecide (endpointValid endpointRegistered : Bool) (state len : Nat) : Int :=
  match u32ToIpcState state with
  | some state => sendDecide endpointValid endpointRegistered state len
  | none => EINVAL

def galeIpcSendCriticalDecide (endpointValid endpointRegistered : Bool) (state len : Nat) : Int :=
  match u32ToIpcState state with
  | some state => sendCriticalDecide endpointValid endpointRegistered state len
  | none => EINVAL

def galeIpcTransitionOpen (state : IpcEndpointState) : Except Int IpcEndpointState :=
  if state = .Closed then .ok .Open else .error EALREADY

def galeIpcTransitionBound (state : IpcEndpointState) : Except Int IpcEndpointState :=
  if state = .Open then .ok .Bound else .error EINVAL

def galeIpcTransitionClose (_ : IpcEndpointState) : IpcEndpointState := .Closed

structure Backend where
  openInstance : Bool
  closeInstance : Bool
  registerEndpoint : Bool
  deregisterEndpoint : Bool
  send : Bool
  sendCritical : Bool

structure Device where
  api : Option Backend

structure Ept where
  instancePtr : Option Device

inductive BackendCall where
  | OpenInstance
  | CloseInstance
  | RegisterEndpoint
  | DeregisterEndpoint
  | Send (len : Nat)
  | SendCritical (len : Nat)

structure Outcome where
  ret : Int
  ept : Option Ept
  asked : Option BackendCall

-- The backend answers with any return code.
section Shim

variable (answer : Int)

-- ipc_service_open_instance and ipc_service_close_instance
def instanceCall (decide : Bool → Int) (has : Backend → Bool) (asked : BackendCall)
    (inst : Option Device) : Int × Option BackendCall :=
  let rc := decide inst.isSome
  if rc ≠ 0 then (rc, none)
  else
    match inst.bind Device.api with
    | none => ( EIO, none)
    | some backend => if !has backend then (0, none) else (answer, some asked)

def galeIpcServiceOpenInstance (inst : Option Device) : Int × Option BackendCall :=
  instanceCall answer IpcServiceState.openDecide Backend.openInstance .OpenInstance inst

def galeIpcServiceCloseInstance (inst : Option Device) : Int × Option BackendCall :=
  instanceCall answer IpcServiceState.closeDecide Backend.closeInstance .CloseInstance inst

-- The pointer is set before the backend is asked, and stays whatever it answers.
def galeIpcServiceRegisterEndpoint (inst : Option Device) (ept : Option Ept) (cfg : Bool) :
    Outcome :=
  let rc := galeIpcRegisterDecide (inst.isSome && ept.isSome && cfg) 0 MAX_ENDPOINTS
  if rc ≠ 0 then ⟨rc, ept, none⟩
  else
    match inst.bind Device.api with
    | some backend =>
      if !backend.registerEndpoint then ⟨ EIO, ept, none⟩
      else ⟨answer, some ⟨inst⟩, some .RegisterEndpoint⟩
    | none => ⟨ EIO, ept, none⟩

def galeIpcServiceDeregisterEndpoint (ept : Option Ept) : Outcome :=
  let inst := ept.bind Ept.instancePtr
  let rc := galeIpcDeregisterDecide ept.isSome inst.isSome 1 MAX_ENDPOINTS
  if rc ≠ 0 then ⟨rc, ept, none⟩
  else
    match inst.bind Device.api with
    | some backend =>
      if !backend.deregisterEndpoint then ⟨ EIO, ept, none⟩
      else if answer ≠ 0 then ⟨answer, ept, some .DeregisterEndpoint⟩
      else ⟨0, some ⟨none⟩, some .DeregisterEndpoint⟩
    | none => ⟨ EIO, ept, none⟩

-- ipc_service_send and ipc_service_send_critical; an endpoint with a pointer counts as
-- bound.
def sendCall (decide : Bool → Bool → Nat → Nat → Int) (has : Backend → Bool)
    (asked : Nat → BackendCall) (ept : Option Ept) (len : Nat) : Outcome :=
  let inst := ept.bind Ept.instancePtr
  let state := if inst.isSome then IPC_STATE_BOUND else IPC_STATE_CLOSED
  let rc := decide ept.isSome inst.isSome state (len % 2 ^ 32)
  if rc ≠ 0 then ⟨rc, ept, none⟩
  else
    match inst.bind Device.api with
    | some backend =>
      if !has backend then ⟨ EIO, ept, none⟩ else ⟨answer, ept, some (asked len)⟩
    | none => ⟨ EIO, ept, none⟩

def galeIpcServiceSend (ept : Option Ept) (len : Nat) : Outcome :=
  sendCall answer galeIpcSendDecide Backend.send .Send ept len

def galeIpcServiceSendCritical (ept : Option Ept) (len : Nat) : Outcome :=
  sendCall answer galeIpcSendCriticalDecide Backend.sendCritical .SendCritical ept len

end Shim

-- One endpoint and the events of its life. failed: a registration reached the backend
-- and was refused, after the last deregistration.
structure State where
  ept : Ept
  life : IpcEndpointState
  failed : Bool

def init : State where
  ept := ⟨none⟩
  life := .Closed
  failed := false

-- The calls with what the backend answers to them; the backend may report the endpoint
-- bound at any time.
inductive Op where
  | Open (inst : Bool) (answer : Int)
  | Close (inst : Bool) (answer : Int)
  | Register (inst cfg : Bool) (answer : Int)
  | Bound
  | Deregister (answer : Int)
  | Send (len : Nat) (answer : Int)
  | SendCritical (len : Nat) (answer : Int)

variable (device : Device)

def perform (s : State) : Op → Outcome
  | .Open inst answer =>
    let (ret, asked) := galeIpcServiceOpenInstance answer (if inst then some device else none)
    ⟨ret, some s.ept, asked⟩
  | .Close inst answer =>
    let (ret, asked) := galeIpcServiceCloseInstance answer (if inst then some device else none)
    ⟨ret, some s.ept, asked⟩
  | .Register inst cfg answer =>
    galeIpcServiceRegisterEndpoint answer (if inst then some device else none) (some s.ept) cfg
  | .Bound => ⟨0, some s.ept, none⟩
  | .Deregister answer => galeIpcServiceDeregisterEndpoint answer (some s.ept)
  | .Send len answer => galeIpcServiceSend answer (some s.ept) len
  | .SendCritical len answer => galeIpcServiceSendCritical answer (some s.ept) len

def State.after (s : State) (o : Outcome) : Op → State
  | .Register _ _ _ =>
    match o.asked with
    | none => { s with ept := o.ept.getD s.ept }
    | some _ =>
      if o.ret = 0 then
        ⟨o.ept.getD s.ept, ((galeIpcTransitionOpen s.life).toOption).getD s.life, s.failed⟩
      else ⟨o.ept.getD s.ept, s.life, true⟩
  | .Bound => { s with life := ((galeIpcTransitionBound s.life).toOption).getD s.life }
  | .Deregister _ =>
    if o.ret = 0 then ⟨o.ept.getD s.ept, galeIpcTransitionClose s.life, false⟩
    else { s with ept := o.ept.getD s.ept }
  | _ => { s with ept := o.ept.getD s.ept }

def step (s : State) (op : Op) : Option State := some (s.after (perform device s op) op)

end Gale.Ipc
