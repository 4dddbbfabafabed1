import Gale.Lib.Session

namespace Gale.CanThin

open Lib
open Lib.Mmio (rd wr spin)

def MCR : UInt32 := 0x000
def MSR : UInt32 := 0x004
def TSR : UInt32 := 0x008
def RF0R : UInt32 := 0x00C
def BTR : UInt32 := 0x01C
def TI0R : UInt32 := 0x180
def TDT0R : UInt32 := 0x184
def TDL0R : UInt32 := 0x188
def TDH0R : UInt32 := 0x18C

def MCR_INRQ : UInt32 := 1
def MSR_INAK : UInt32 := 1
def TSR_TME0 : UInt32 := (1 : UInt32) <<< 26
def RF0R_FMP_MASK : UInt32 := 0x3
def RF0R_RFOM0 : UInt32 := (1 : UInt32) <<< 5
def TI0R_TXRQ : UInt32 := 1
def STID_SHIFT : UInt32 := 21
def STID_MASK : UInt32 := 0x7FF

def BTR_BRP_MASK : UInt32 := 0x3FF
def BTR_TS1_MASK : UInt32 := 0xF
def BTR_TS2_MASK : UInt32 := 0x7
def BTR_SJW_MASK : UInt32 := 0x3

def btrValue (brp ts1 ts2 sjw : UInt32) : UInt32 :=
  (brp &&& BTR_BRP_MASK) ||| ((ts1 &&& BTR_TS1_MASK) <<< 16) ||| ((ts2 &&& BTR_TS2_MASK) <<< 20) |||
    ((sjw &&& BTR_SJW_MASK) <<< 24)

inductive Phase where
  | Sleep
  | Init
  | Normal
  deriving DecidableEq, Repr

inductive Fault where
  | WrongPhase

def enterInit (_ : Phase) : Phase := .Init

def configure : Phase → Except Fault Phase
  | .Init => .ok .Init
  | _ => .error .WrongPhase

def leaveInit : Phase → Except Fault Phase
  | .Init => .ok .Normal
  | _ => .error .WrongPhase

def canTx : Phase → Except Fault Unit
  | .Normal => .ok ()
  | _ => .error .WrongPhase

def canRx : Phase → Except Fault Unit
  | .Normal => .ok ()
  | _ => .error .WrongPhase

def CAN_FAULT : UInt32 := 0xFFFFFFFF

def PHASE_MASK : UInt32 := 0x3

def phEnc : Phase → UInt32
  | .Sleep => 0
  | .Init => 1
  | .Normal => 2

def phDec (b : UInt32) : Phase := if b = 0 then .Sleep else if b = 1 then .Init else .Normal

def pack (p : Phase) : UInt32 := phEnc p &&& PHASE_MASK

def unpack (s : UInt32) : Phase := phDec (s &&& PHASE_MASK)

def canEnterInit (base state : UInt32) : Mmio UInt32 := do
  let next := enterInit (unpack state)
  wr (base + MCR) MCR_INRQ
  spin (base + MSR) fun msr => msr &&& MSR_INAK ≠ 0
  return pack next

def canConfigure (base state brp ts1 ts2 sjw : UInt32) : Mmio UInt32 :=
  match configure (unpack state) with
  | .ok next => do
    wr (base + BTR) (btrValue brp ts1 ts2 sjw)
    return pack next
  | .error _ => return CAN_FAULT

def canLeaveInit (base state : UInt32) : Mmio UInt32 :=
  match leaveInit (unpack state) with
  | .ok next => do
    wr (base + MCR) 0
    spin (base + MSR) fun msr => msr &&& MSR_INAK = 0
    return pack next
  | .error _ => return CAN_FAULT

def canTxRequest (base state id dlc dlo dhi : UInt32) : Mmio UInt32 :=
  let p := unpack state
  match canTx p with
  | .ok () => do
    let tsr ← rd (base + TSR)
    if tsr &&& TSR_TME0 ≠ 0 then
      wr (base + TI0R) (((id &&& STID_MASK) <<< STID_SHIFT) ||| TI0R_TXRQ)
      wr (base + TDT0R) (dlc &&& 0xF)
      wr (base + TDL0R) dlo
      wr (base + TDH0R) dhi
      return pack p
    else return CAN_FAULT
  | .error _ => return CAN_FAULT

def canRxRelease (base state : UInt32) : Mmio UInt32 :=
  let p := unpack state
  match canRx p with
  | .ok () => do
    let rf0r ← rd (base + RF0R)
    if rf0r &&& RF0R_FMP_MASK ≠ 0 then
      wr (base + RF0R) RF0R_RFOM0
      return pack p
    else return CAN_FAULT
  | .error _ => return CAN_FAULT

def canMode (state : UInt32) : UInt32 := pack (unpack state)

inductive Call where
  | EnterInit
  | Configure (brp ts1 ts2 sjw : UInt32)
  | LeaveInit
  | TxRequest (id dlc dlo dhi : UInt32)
  | RxRelease
  | Mode
  deriving DecidableEq, Repr

-- The exported calls on the controller at one base. The answer of can_mode is
-- no state word: the caller keeps the one it has.
def driver (base : UInt32) : Driver Call where
  program call state :=
    match call with
    | .EnterInit => canEnterInit base state
    | .Configure brp ts1 ts2 sjw => canConfigure base state brp ts1 ts2 sjw
    | .LeaveInit => canLeaveInit base state
    | .TxRequest id dlc dlo dhi => canTxRequest base state id dlc dlo dhi
    | .RxRelease => canRxRelease base state
    | .Mode => return canMode state
  thread call given result := if call = .Mode then given else result

end Gale.CanThin
