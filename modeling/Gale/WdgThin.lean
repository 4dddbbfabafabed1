import Gale.Lib.Session

namespace Gale.WdgThin

open Lib
open Lib.Mmio (rd wr spin)

-- Offsets from the base of the watchdog.
def KR : UInt32 := 0x00
def PR : UInt32 := 0x04
def RLR : UInt32 := 0x08
def SR : UInt32 := 0x0C

def KEY_ENABLE : UInt32 := 0x5555
def KEY_REFRESH : UInt32 := 0xAAAA
def KEY_START : UInt32 := 0xCCCC

def SR_PVU : UInt32 := 1
def SR_RVU : UInt32 := (1 : UInt32) <<< 1

def MAX_RELOAD : UInt32 := 0x0FFF

def prBits (prescaler : UInt32) : UInt32 := prescaler &&& 0x7

def rlrBits (reload : UInt32) : UInt32 := reload &&& MAX_RELOAD

inductive Phase where
  | Idle
  | Unlocked
  | Configured
  | Running
  deriving DecidableEq, Repr

inductive Fault where
  | WriteProtected
  | WrongPhase

structure Iwdg where
  phase : Phase
  prescaler : UInt32
  reload : UInt32

def Iwdg.idle : Iwdg where
  phase := .Idle
  prescaler := 0
  reload := MAX_RELOAD

def unlock (w : Iwdg) : Except Fault Iwdg :=
  match w.phase with
  | .Idle | .Configured => .ok { w with phase := .Unlocked }
  | _ => .error .WrongPhase

def setConfig (w : Iwdg) (prescaler reload : UInt32) : Except Fault Iwdg :=
  match w.phase with
  | .Unlocked =>
    .ok { phase := .Unlocked, prescaler := prescaler &&& 0x7, reload := reload &&& MAX_RELOAD }
  | _ => .error .WriteProtected

def lock (w : Iwdg) : Except Fault Iwdg :=
  match w.phase with
  | .Unlocked => .ok { w with phase := .Configured }
  | _ => .error .WrongPhase

def start (w : Iwdg) : Except Fault Iwdg :=
  match w.phase with
  | .Configured => .ok { w with phase := .Running }
  | _ => .error .WrongPhase

def refresh (w : Iwdg) : Except Fault Iwdg :=
  match w.phase with
  | .Running => .ok w
  | _ => .error .WrongPhase

def WDG_FAULT : UInt32 := 0xFFFFFFFF

def PHASE_SHIFT : UInt32 := 30
def PSC_SHIFT : UInt32 := 12
def PSC_MASK : UInt32 := 0x7
def RLD_MASK : UInt32 := 0x0FFF

def phEnc : Phase → UInt32
  | .Idle => 0
  | .Unlocked => 1
  | .Configured => 2
  | .Running => 3

def phDec (b : UInt32) : Phase :=
  if b = 0 then .Idle else if b = 1 then .Unlocked else if b = 2 then .Configured else .Running

def pack (w : Iwdg) : UInt32 :=
  (phEnc w.phase <<< PHASE_SHIFT) ||| ((w.prescaler &&& PSC_MASK) <<< PSC_SHIFT) |||
    (w.reload &&& RLD_MASK)

def unpack (s : UInt32) : Iwdg where
  phase := phDec (s >>> PHASE_SHIFT)
  prescaler := (s >>> PSC_SHIFT) &&& PSC_MASK
  reload := s &&& RLD_MASK

def wdgUnlock (base state : UInt32) : Mmio UInt32 :=
  match unlock (unpack state) with
  | .ok next => do
    wr (base + KR) KEY_ENABLE
    return pack next
  | .error _ => return WDG_FAULT

def wdgConfigure (base state prescaler reload : UInt32) : Mmio UInt32 :=
  match setConfig (unpack state) prescaler reload with
  | .ok next => do
    spin (base + SR) fun sr => sr &&& SR_PVU = 0
    wr (base + PR) (prBits prescaler)
    spin (base + SR) fun sr => sr &&& SR_RVU = 0
    wr (base + RLR) (rlrBits reload)
    return pack next
  | .error _ => return WDG_FAULT

def wdgLock (state : UInt32) : UInt32 :=
  match lock (unpack state) with
  | .ok next => pack next
  | .error _ => WDG_FAULT

def wdgStart (base state : UInt32) : Mmio UInt32 :=
  match start (unpack state) with
  | .ok next => do
    wr (base + KR) KEY_START
    return pack next
  | .error _ => return WDG_FAULT

def wdgRefresh (base state : UInt32) : Mmio UInt32 :=
  match refresh (unpack state) with
  | .ok next => do
    wr (base + KR) KEY_REFRESH
    return pack next
  | .error _ => return WDG_FAULT

def wdgIsRunning (state : UInt32) : UInt32 := if (unpack state).phase = .Running then 1 else 0

inductive Call where
  | Unlock
  | Configure (prescaler reload : UInt32)
  | Lock
  | Start
  | Refresh
  | IsRunning
  deriving DecidableEq, Repr

-- The exported calls on the watchdog at one base. The answer of wdg_is_running
-- is no state word.
def driver (base : UInt32) : Driver Call where
  program call state :=
    match call with
    | .Unlock => wdgUnlock base state
    | .Configure prescaler reload => wdgConfigure base state prescaler reload
    | .Lock => return wdgLock state
    | .Start => wdgStart base state
    | .Refresh => wdgRefresh base state
    | .IsRunning => return wdgIsRunning state
  thread call given result := if call = .IsRunning then given else result

end Gale.WdgThin
