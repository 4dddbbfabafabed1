import Gale.Lib.Bits
import Gale.Lib.Session

namespace Gale.AdcThin

open Lib
open Lib.Mmio (rd wr spin)

def SR : UInt32 := 0x00
def CR2 : UInt32 := 0x08
def SMPR1 : UInt32 := 0x0C
def SMPR2 : UInt32 := 0x10
def SQR1 : UInt32 := 0x2C
def SQR3 : UInt32 := 0x34
def DR : UInt32 := 0x4C

def SR_EOC : UInt32 := (1 : UInt32) <<< 1

def CR2_ADON : UInt32 := 1
def CR2_CONT : UInt32 := (1 : UInt32) <<< 1
def CR2_SWSTART : UInt32 := (1 : UInt32) <<< 22
def CR2_EXTTRIG : UInt32 := (1 : UInt32) <<< 20
def CR2_EXTSEL_SWSTART : UInt32 := (0x7 : UInt32) <<< 17

def DR_MASK : UInt32 := 0x0FFF

def MAX_CHANNEL : UInt32 := 17

def sqr3Channel (channel : UInt32) : UInt32 := channel &&& 0x1F

def sqr1Length (len : UInt32) : UInt32 :=
  let n := if len = 0 then 1 else if len > 16 then 16 else len
  ((n - 1) &&& 0xF) <<< 20

def smprBits (channel code : UInt32) : UInt32 := (code &&& 0x7) <<< ((channel % 10) * 3)

def smprReg (channel : UInt32) : UInt32 := if channel < 10 then SMPR2 else SMPR1

inductive Phase where
  | Off
  | Ready
  | Converting
  | Complete
  deriving DecidableEq, Repr

inductive Fault where
  | BadChannel
  | WrongPhase

structure Adc where
  phase : Phase
  channel : UInt32
  sample : UInt32

def Adc.off : Adc where
  phase := .Off
  channel := 0
  sample := 0

def enable (a : Adc) (channel : UInt32) : Except Fault Adc :=
  match a.phase with
  | .Off =>
    if channel ≤ MAX_CHANNEL then .ok { phase := .Ready, channel := channel, sample := 0 }
    else .error .BadChannel
  | _ => .error .WrongPhase

def begin (a : Adc) : Except Fault Adc :=
  match a.phase with
  | .Ready => .ok { a with phase := .Converting }
  | _ => .error .WrongPhase

def complete (a : Adc) : Except Fault Adc :=
  match a.phase with
  | .Converting => .ok { a with phase := .Complete }
  | _ => .error .WrongPhase

def read (a : Adc) (raw : UInt32) : Except Fault Adc :=
  match a.phase with
  | .Complete => .ok { phase := .Ready, channel := a.channel, sample := raw &&& DR_MASK }
  | _ => .error .WrongPhase

def disable (_ : Adc) : Adc := .off

def ADC_FAULT : UInt32 := 0xFFFFFFFF

def PHASE_SHIFT : UInt32 := 30
def CHAN_SHIFT : UInt32 := 25
def CHAN_MASK : UInt32 := 0x1F
def SAMPLE_MASK : UInt32 := 0x0FFF

def phEnc : Phase → UInt32
  | .Off => 0
  | .Ready => 1
  | .Converting => 2
  | .Complete => 3

def phDec (b : UInt32) : Phase :=
  if b = 0 then .Off else if b = 1 then .Ready else if b = 2 then .Converting else .Complete

def pack (a : Adc) : UInt32 :=
  (phEnc a.phase <<< PHASE_SHIFT) ||| ((a.channel &&& CHAN_MASK) <<< CHAN_SHIFT) |||
    (a.sample &&& SAMPLE_MASK)

def unpack (s : UInt32) : Adc where
  phase := phDec (s >>> PHASE_SHIFT)
  channel := (s >>> CHAN_SHIFT) &&& CHAN_MASK
  sample := s &&& SAMPLE_MASK

def adcConfigure (base channel sampleCode : UInt32) : Mmio Unit := do
  wr (base + smprReg channel) (smprBits channel sampleCode)
  wr (base + SQR3) (sqr3Channel channel)
  wr (base + SQR1) (sqr1Length 1)

def adcEnable (base state channel cr2Extra : UInt32) : Mmio UInt32 :=
  match enable (unpack state) channel with
  | .ok next => do
    wr (base + CR2) (CR2_ADON ||| cr2Extra)
    return pack next
  | .error _ => return ADC_FAULT

def adcStart (base state cr2Extra : UInt32) : Mmio UInt32 :=
  match begin (unpack state) with
  | .ok next => do
    wr (base + CR2) (CR2_ADON ||| CR2_EXTTRIG ||| CR2_EXTSEL_SWSTART ||| CR2_SWSTART ||| cr2Extra)
    return pack next
  | .error _ => return ADC_FAULT

def adcPoll (base state : UInt32) : Mmio UInt32 :=
  match complete (unpack state) with
  | .ok next => do
    spin (base + SR) fun sr => sr &&& SR_EOC ≠ 0
    return pack next
  | .error _ => return ADC_FAULT

-- The register is an argument of read, so it is read before the phase is looked at.
def adcRead (base state : UInt32) : Mmio UInt32 := do
  let a := unpack state
  let raw ← rd (base + DR)
  match read a raw with
  | .ok next => return pack next
  | .error _ => return ADC_FAULT

def adcSample (state : UInt32) : UInt32 := (unpack state).sample

def adcIsComplete (state : UInt32) : UInt32 := if (unpack state).phase = .Complete then 1 else 0

def adcDisable (base state : UInt32) : Mmio UInt32 := do
  wr (base + CR2) 0
  return pack (disable (unpack state))

theorem phDec_phEnc (p : Phase) : phDec (phEnc p) = p := by
  cases p <;> decide

theorem toNat_phEnc (p : Phase) : (phEnc p).toNat < 4 := by
  cases p <;> decide

theorem toNat_fields_lt (a : Adc) :
    (((a.channel &&& CHAN_MASK) <<< CHAN_SHIFT) ||| (a.sample &&& SAMPLE_MASK)).toNat < 2 ^ 30 - 1 := by
  have hc : (a.channel &&& CHAN_MASK).toNat ≤ 31 := Bits.toNat_and_le _ _
  have hs : (a.sample &&& SAMPLE_MASK).toNat ≤ 4095 := Bits.toNat_and_le _ _
  rw [Bits.toNat_field (by decide) (by show _ < 2 ^ 7; omega) (by show _ < 2 ^ 25; omega)]
  show _ * 2 ^ 25 + _ < 2 ^ 30 - 1
  omega

@[simp] theorem unpack_pack_phase (a : Adc) : (unpack (pack a)).phase = a.phase := by
  have hl := toNat_fields_lt a
  simp only [unpack, pack, UInt32.or_assoc]
  rw [show PHASE_SHIFT = 30 from rfl, Bits.tagged_shiftRight (toNat_phEnc _) (by omega), phDec_phEnc]

@[simp] theorem pack_ne_fault (a : Adc) : pack a ≠ ADC_FAULT := by
  simp only [pack, UInt32.or_assoc]
  exact Bits.tagged_ne_ones (toNat_phEnc _) (toNat_fields_lt a)

inductive Call where
  | Configure (channel sampleCode : UInt32)
  | Enable (channel cr2Extra : UInt32)
  | Start (cr2Extra : UInt32)
  | Poll
  | Read
  | Sample
  | IsComplete
  | Disable
  deriving DecidableEq, Repr

-- A call that gives back a state word; the others leave the caller with the one it has.
def Call.threads : Call → Bool
  | .Configure _ _ | .Sample | .IsComplete => false
  | _ => true

def driver (base : UInt32) : Driver Call where
  program call state :=
    match call with
    | .Configure channel sampleCode => do
      adcConfigure base channel sampleCode
      return state
    | .Enable channel cr2Extra => adcEnable base state channel cr2Extra
    | .Start cr2Extra => adcStart base state cr2Extra
    | .Poll => adcPoll base state
    | .Read => adcRead base state
    | .Sample => return adcSample state
    | .IsComplete => return adcIsComplete state
    | .Disable => adcDisable base state
  thread call given result := if call.threads then result else given

section Outcome

variable {σ ε : Type} {device : Device σ ε} {state : σ} {base given : UInt32} {events : List ε}

theorem outcome_configure (c sc : UInt32) : (driver base).outcome device state given (.Configure c sc, events) =
      ⟨[.Write (base + smprReg c) (smprBits c sc),
          .Write (base + SQR3) (sqr3Channel c), .Write (base + SQR1) (sqr1Length 1)],
        device.write (device.write (device.write state (base + smprReg c)
          (smprBits c sc)) (base + SQR3) (sqr3Channel c)) (base + SQR1)
          (sqr1Length 1), some given⟩ := rfl

theorem outcome_enable (c extra : UInt32) : (driver base).outcome device state given (.Enable c extra, events) =
      if (unpack given).phase = .Off ∧ c ≤ MAX_CHANNEL then
        ⟨[.Write (base + CR2) (CR2_ADON ||| extra)],
          device.write state (base + CR2) (CR2_ADON ||| extra), some (pack ⟨.Ready, c, 0⟩)⟩
      else ⟨[], state, some ADC_FAULT⟩ := by
  simp only [Driver.outcome, driver, adcEnable, enable]
  cases hp : (unpack given).phase with
  | Off =>
    by_cases hc : c ≤ MAX_CHANNEL
    · simp only [hc, and_self, if_true]
      rfl
    · simp only [hc, and_false, if_false]
      rfl
  | _ => rfl

def startWord (cr2Extra : UInt32) : UInt32 :=
  CR2_ADON ||| CR2_EXTTRIG ||| CR2_EXTSEL_SWSTART ||| CR2_SWSTART ||| cr2Extra

theorem outcome_start (extra : UInt32) : (driver base).outcome device state given (.Start extra, events) =
      if (unpack given).phase = .Ready then
        ⟨[.Write (base + CR2) (startWord extra)], device.write state (base + CR2) (startWord extra),
          some (pack ⟨.Converting, (unpack given).channel, (unpack given).sample⟩)⟩
      else ⟨[], state, some ADC_FAULT⟩ := by
  simp only [Driver.outcome, driver, adcStart, begin]
  cases hp : (unpack given).phase <;> rfl

def pollWaits (device : Device σ ε) (base : UInt32) (state : σ) (events : List ε) :
    Outcome σ (List ε) :=
  Mmio.waits device (base + SR) (fun sr => sr &&& SR_EOC ≠ 0) state events

theorem outcome_poll : (driver base).outcome device state given (.Poll, events) =
      if (unpack given).phase = .Converting then
        ⟨(pollWaits device base state events).accesses, (pollWaits device base state events).state,
          (pollWaits device base state events).result.map fun _ =>
            pack ⟨.Complete, (unpack given).channel, (unpack given).sample⟩⟩
      else ⟨[], state, some ADC_FAULT⟩ := by
  simp only [Driver.outcome, driver, adcPoll, complete]
  cases hp : (unpack given).phase with
  | Converting => exact Mmio.exec_spin_ret
  | _ => rfl

theorem outcome_read_nil : (driver base).outcome device state given (.Read, []) = ⟨[], state, none⟩ := rfl

theorem outcome_read (event : ε) : (driver base).outcome device state given (.Read, event :: events) =
      ⟨[.Read (base + DR) (device.read state event (base + DR)).1], (device.read state event (base + DR)).2,
        some (if (unpack given).phase = .Complete then
          pack ⟨.Ready, (unpack given).channel, (device.read state event (base + DR)).1 &&& DR_MASK⟩
          else ADC_FAULT)⟩ := by
  simp only [Driver.outcome, driver, adcRead, Mmio.rd_bind, Mmio.exec, read]
  cases hp : (unpack given).phase <;> rfl

theorem outcome_disable : (driver base).outcome device state given (.Disable, events) =
      ⟨[.Write (base + CR2) 0], device.write state (base + CR2) 0, some (pack .off)⟩ := rfl

end Outcome

end Gale.AdcThin
