import Mathlib

namespace Gale.PwmThin

def CR1 : UInt32 := 0x00
def EGR : UInt32 := 0x14
def CCMR1 : UInt32 := 0x18
def CCER : UInt32 := 0x20
def PSC : UInt32 := 0x28
def ARR : UInt32 := 0x2C
def CCR1 : UInt32 := 0x34
def BDTR : UInt32 := 0x44

def CR1_CEN : UInt32 := 1
def CR1_ARPE : UInt32 := (1 : UInt32) <<< 7
def EGR_UG : UInt32 := 1
def CCMR1_OC1M_PWM1 : UInt32 := (0b110 : UInt32) <<< 4
def CCMR1_OC1PE : UInt32 := (1 : UInt32) <<< 3
def CCER_CC1E : UInt32 := 1
def BDTR_MOE : UInt32 := (1 : UInt32) <<< 15

def MAX_16 : UInt32 := 0xFFFF

def ccmr1Pwm1 : UInt32 := CCMR1_OC1M_PWM1 ||| CCMR1_OC1PE

def clampDuty (duty period : UInt32) : UInt32 :=
  let d := duty &&& MAX_16
  let p := period &&& MAX_16
  if d > p then p else d

inductive Phase where
  | Off
  | Configured
  | Running
  | Safe

inductive Fault where
  | WrongPhase

structure Pwm where
  phase : Phase
  duty : UInt32

def configure (p : Pwm) : Except Fault Pwm :=
  match p.phase with
  | .Off | .Safe => .ok { phase := .Configured, duty := 0 }
  | _ => .error .WrongPhase

def setDuty (p : Pwm) (duty period : UInt32) : Except Fault Pwm :=
  match p.phase with
  | .Configured | .Running => .ok { phase := p.phase, duty := clampDuty duty period }
  | _ => .error .WrongPhase

def start (p : Pwm) : Except Fault Pwm :=
  match p.phase with
  | .Configured => .ok { phase := .Running, duty := p.duty }
  | _ => .error .WrongPhase

def failsafe (_ : Pwm) : Pwm := { phase := .Safe, duty := 0 }

def PWM_FAULT : UInt32 := 0xFFFFFFFF

def PHASE_SHIFT : UInt32 := 30

def DUTY_MASK : UInt32 := 0xFFFF

def phEnc : Phase → UInt32
  | .Off => 0
  | .Configured => 1
  | .Running => 2
  | .Safe => 3

def phDec (b : UInt32) : Phase :=
  if b = 0 then .Off else if b = 1 then .Configured else if b = 2 then .Running else .Safe

def pack (p : Pwm) : UInt32 := (phEnc p.phase <<< PHASE_SHIFT) ||| (p.duty &&& DUTY_MASK)

def unpack (s : UInt32) : Pwm where
  phase := phDec (s >>> PHASE_SHIFT)
  duty := s &&& DUTY_MASK

abbrev Regs := UInt32 → UInt32

def wr (regs : Regs) (a v : UInt32) : Regs := Function.update regs a v

def pwmConfigure (regs : Regs) (base state psc period : UInt32) : UInt32 × Regs :=
  match configure (unpack state) with
  | .ok next =>
    let regs := wr regs (base + PSC) (psc &&& MAX_16)
    let regs := wr regs (base + ARR) (period &&& MAX_16)
    let regs := wr regs (base + CCMR1) ccmr1Pwm1
    let regs := wr regs (base + CCER) CCER_CC1E
    let regs := wr regs (base + CR1) CR1_ARPE
    let regs := wr regs (base + EGR) EGR_UG
    (pack next, regs)
  | .error _ => (PWM_FAULT, regs)

def pwmSetDuty (regs : Regs) (base state duty period : UInt32) : UInt32 × Regs :=
  match setDuty (unpack state) duty period with
  | .ok next => (pack next, wr regs (base + CCR1) next.duty)
  | .error _ => (PWM_FAULT, regs)

def pwmStart (regs : Regs) (base state : UInt32) : UInt32 × Regs :=
  match start (unpack state) with
  | .ok next =>
    let regs := wr regs (base + BDTR) BDTR_MOE
    let regs := wr regs (base + CR1) (CR1_ARPE ||| CR1_CEN)
    (pack next, regs)
  | .error _ => (PWM_FAULT, regs)

def pwmFailsafe (regs : Regs) (base state : UInt32) : UInt32 × Regs :=
  let regs := wr regs (base + BDTR) 0
  let regs := wr regs (base + CR1) 0
  (pack (failsafe (unpack state)), regs)

end Gale.PwmThin
