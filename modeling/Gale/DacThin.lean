import Gale.Lib.Bits
import Gale.Lib.Session

namespace Gale.DacThin

open Lib
open Lib.Mmio (rd wr)

def CR : UInt32 := 0x00
def SWTRIGR : UInt32 := 0x04
def DHR12R1 : UInt32 := 0x08
def DHR12R2 : UInt32 := 0x14
def DOR1 : UInt32 := 0x2C
def DOR2 : UInt32 := 0x30

def CR_EN : UInt32 := 1
def CR_TEN : UInt32 := (1 : UInt32) <<< 2
def CR_TSEL_SW : UInt32 := (0x7 : UInt32) <<< 3

def DHR_MASK : UInt32 := 0x0FFF

def MAX_CHANNEL : UInt32 := 1

def crEnableBits (channel : UInt32) : UInt32 :=
  (CR_EN ||| CR_TEN ||| CR_TSEL_SW) <<< (16 * (channel &&& 1))

def dhrOffset (channel : UInt32) : UInt32 := if channel = 0 then DHR12R1 else DHR12R2

def dorOffset (channel : UInt32) : UInt32 := if channel = 0 then DOR1 else DOR2

def swtrigBit (channel : UInt32) : UInt32 := 1 <<< (channel &&& 1)

def dhrValue (v : UInt32) : UInt32 := v &&& DHR_MASK

inductive Phase where
  | Off
  | Ready
  | Loaded
  | Output
  deriving DecidableEq, Repr

inductive Fault where
  | BadChannel
  | WrongPhase

structure Dac where
  phase : Phase
  channel : UInt32
  value : UInt32

def Dac.off : Dac where
  phase := .Off
  channel := 0
  value := 0

def enable (d : Dac) (channel : UInt32) : Except Fault Dac :=
  match d.phase with
  | .Off =>
    if channel ≤ MAX_CHANNEL then .ok { phase := .Ready, channel := channel, value := 0 }
    else .error .BadChannel
  | _ => .error .WrongPhase

def load (d : Dac) (v : UInt32) : Except Fault Dac :=
  match d.phase with
  | .Off => .error .WrongPhase
  | _ => .ok { phase := .Loaded, channel := d.channel, value := v &&& DHR_MASK }

def trigger (d : Dac) : Except Fault Dac :=
  match d.phase with
  | .Loaded => .ok { d with phase := .Output }
  | _ => .error .WrongPhase

def disable (_ : Dac) : Dac := .off

def DAC_FAULT : UInt32 := 0xFFFFFFFF

def PHASE_SHIFT : UInt32 := 30
def CHAN_BIT : UInt32 := (1 : UInt32) <<< 29
def VALUE_MASK : UInt32 := 0x0FFF

def phEnc : Phase → UInt32
  | .Off => 0
  | .Ready => 1
  | .Loaded => 2
  | .Output => 3

def phDec (b : UInt32) : Phase :=
  if b = 0 then .Off else if b = 1 then .Ready else if b = 2 then .Loaded else .Output

def pack (d : Dac) : UInt32 :=
  (phEnc d.phase <<< PHASE_SHIFT) ||| (if d.channel ≠ 0 then CHAN_BIT else 0) |||
    (d.value &&& VALUE_MASK)

def unpack (s : UInt32) : Dac where
  phase := phDec (s >>> PHASE_SHIFT)
  channel := if s &&& CHAN_BIT ≠ 0 then 1 else 0
  value := s &&& VALUE_MASK

def dacConfigure (base channel : UInt32) : Mmio Unit := wr (base + CR) (crEnableBits channel)

def dacEnable (base state channel : UInt32) : Mmio UInt32 :=
  match enable (unpack state) channel with
  | .ok next => do
    wr (base + CR) (crEnableBits channel)
    return pack next
  | .error _ => return DAC_FAULT

def dacLoad (base state v : UInt32) : Mmio UInt32 :=
  let d := unpack state
  match load d v with
  | .ok next => do
    wr (base + dhrOffset d.channel) (dhrValue v)
    return pack next
  | .error _ => return DAC_FAULT

def dacTrigger (base state : UInt32) : Mmio UInt32 :=
  let d := unpack state
  match trigger d with
  | .ok next => do
    wr (base + SWTRIGR) (swtrigBit d.channel)
    return pack next
  | .error _ => return DAC_FAULT

def dacOutput (base state : UInt32) : Mmio UInt32 := do
  let d := unpack state
  return (← rd (base + dorOffset d.channel)) &&& DHR_MASK

def dacValue (state : UInt32) : UInt32 := (unpack state).value

def dacIsOutput (state : UInt32) : UInt32 := if (unpack state).phase = .Output then 1 else 0

def dacDisable (base state : UInt32) : Mmio UInt32 := do
  wr (base + CR) 0
  return pack (disable (unpack state))

theorem eq_of_le_max {channel : UInt32} (h : channel ≤ MAX_CHANNEL) : channel = 0 ∨ channel = 1 := by
  have hle : channel.toNat ≤ 1 := UInt32.le_iff_toNat_le.mp h
  rcases Nat.le_one_iff_eq_zero_or_eq_one.mp hle with hz | ho
  · exact .inl (UInt32.toNat_inj.mp hz)
  · exact .inr (UInt32.toNat_inj.mp ho)

theorem unpack_channel_le (word : UInt32) : (unpack word).channel ≤ MAX_CHANNEL := by
  simp only [unpack]
  split <;> decide

section Channels

variable {ch other : UInt32}

theorem dhrOffset_inj (h : ch ≤ MAX_CHANNEL) (h' : other ≤ MAX_CHANNEL) :
    dhrOffset ch = dhrOffset other ↔ ch = other := by
  rcases eq_of_le_max h with rfl | rfl <;> rcases eq_of_le_max h' with rfl | rfl <;> decide

theorem swtrigBit_and (h : ch ≤ MAX_CHANNEL) (h' : other ≤ MAX_CHANNEL) :
    swtrigBit ch &&& swtrigBit other ≠ 0 ↔ ch = other := by
  rcases eq_of_le_max h with rfl | rfl <;> rcases eq_of_le_max h' with rfl | rfl <;> decide

theorem dhrOffset_ne (ch : UInt32) : dhrOffset ch ≠ CR ∧ dhrOffset ch ≠ SWTRIGR := by
  simp only [dhrOffset]
  split <;> decide

end Channels

theorem phDec_phEnc (p : Phase) : phDec (phEnc p) = p := by
  cases p <;> decide

theorem toNat_phEnc (p : Phase) : (phEnc p).toNat < 4 := by
  cases p <;> decide

theorem toNat_fields_lt (d : Dac) :
    ((if d.channel ≠ 0 then CHAN_BIT else 0) ||| (d.value &&& VALUE_MASK)).toNat < 2 ^ 30 - 1 := by
  have hv : (d.value &&& VALUE_MASK).toNat ≤ 4095 := Bits.toNat_and_le _ _
  split
  · rw [CHAN_BIT, Bits.toNat_field (by decide) (by decide) (by show _ < 2 ^ 29; omega)]
    show 1 * 2 ^ 29 + _ < 2 ^ 30 - 1
    omega
  · rw [UInt32.zero_or]
    omega

@[simp] theorem unpack_pack_phase (d : Dac) : (unpack (pack d)).phase = d.phase := by
  have hl := toNat_fields_lt d
  simp only [unpack, pack, UInt32.or_assoc]
  rw [show PHASE_SHIFT = 30 from rfl, Bits.tagged_shiftRight (toNat_phEnc _) (by omega), phDec_phEnc]

theorem unpack_pack_channel {d : Dac} (h : d.channel ≤ MAX_CHANNEL) : (unpack (pack d)).channel = d.channel := by
  have hp : phEnc d.phase <<< PHASE_SHIFT &&& CHAN_BIT = 0 := by
    cases d.phase <;> decide
  have hv : d.value &&& VALUE_MASK &&& CHAN_BIT = 0 := by
    rw [UInt32.and_assoc, show VALUE_MASK &&& CHAN_BIT = 0 from by decide, UInt32.and_zero]
  simp only [unpack, pack, Bits.or_and_distrib, hp, hv, UInt32.zero_or, UInt32.or_zero]
  rcases eq_of_le_max h with hz | ho
  · rw [hz]
    decide
  · rw [ho]
    decide

@[simp] theorem unpack_pack_kept (p : Phase) (word v : UInt32) :
    (unpack (pack ⟨p, (unpack word).channel, v⟩)).channel = (unpack word).channel :=
  unpack_pack_channel (unpack_channel_le word)

@[simp] theorem pack_ne_fault (d : Dac) : pack d ≠ DAC_FAULT := by
  simp only [pack, UInt32.or_assoc]
  exact Bits.tagged_ne_ones (toNat_phEnc _) (toNat_fields_lt d)

inductive Call where
  | Configure (channel : UInt32)
  | Enable (channel : UInt32)
  | Load (v : UInt32)
  | Trigger
  | Output
  | Value
  | IsOutput
  | Disable

def Call.threads : Call → Bool
  | .Configure _ | .Output | .Value | .IsOutput => false
  | _ => true

def driver (base : UInt32) : Driver Call where
  program call state :=
    match call with
    | .Configure channel => do
      dacConfigure base channel
      return state
    | .Enable channel => dacEnable base state channel
    | .Load v => dacLoad base state v
    | .Trigger => dacTrigger base state
    | .Output => dacOutput base state
    | .Value => return dacValue state
    | .IsOutput => return dacIsOutput state
    | .Disable => dacDisable base state
  thread call given result := if call.threads then result else given

section Outcome

variable {σ ε : Type} {device : Device σ ε} {st : σ} {base given : UInt32} {es : List ε}

theorem outcome_configure (channel : UInt32) : (driver base).outcome device st given (.Configure channel, es) =
      ⟨[.Write (base + CR) (crEnableBits channel)],
        device.write st (base + CR) (crEnableBits channel), some given⟩ := rfl

theorem outcome_enable (channel : UInt32) : (driver base).outcome device st given (.Enable channel, es) =
      if (unpack given).phase = .Off ∧ channel ≤ MAX_CHANNEL then
        ⟨[.Write (base + CR) (crEnableBits channel)],
          device.write st (base + CR) (crEnableBits channel), some (pack ⟨.Ready, channel, 0⟩)⟩
      else ⟨[], st, some DAC_FAULT⟩ := by
  simp only [Driver.outcome, driver, dacEnable, enable]
  cases hp : (unpack given).phase with
  | Off =>
    by_cases hc : channel ≤ MAX_CHANNEL
    · simp only [hc, and_self, if_true]
      rfl
    · simp only [hc, and_false, if_false]
      rfl
  | _ => rfl

theorem outcome_load (v : UInt32) : (driver base).outcome device st given (.Load v, es) =
      if (unpack given).phase = .Off then ⟨[], st, some DAC_FAULT⟩
      else
        ⟨[.Write (base + dhrOffset (unpack given).channel) (dhrValue v)],
          device.write st (base + dhrOffset (unpack given).channel) (dhrValue v),
          some (pack ⟨.Loaded, (unpack given).channel, v &&& DHR_MASK⟩)⟩ := by
  simp only [Driver.outcome, driver, dacLoad, load]
  cases hp : (unpack given).phase <;> rfl

theorem outcome_trigger : (driver base).outcome device st given (.Trigger, es) =
      if (unpack given).phase = .Loaded then
        ⟨[.Write (base + SWTRIGR) (swtrigBit (unpack given).channel)],
          device.write st (base + SWTRIGR) (swtrigBit (unpack given).channel),
          some (pack ⟨.Output, (unpack given).channel, (unpack given).value⟩)⟩
      else ⟨[], st, some DAC_FAULT⟩ := by
  simp only [Driver.outcome, driver, dacTrigger, trigger]
  cases hp : (unpack given).phase <;> rfl

theorem outcome_disable : (driver base).outcome device st given (.Disable, es) =
      ⟨[.Write (base + CR) 0], device.write st (base + CR) 0, some (pack .off)⟩ := rfl

end Outcome

end Gale.DacThin
