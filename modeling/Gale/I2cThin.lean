import Gale.Lib.Bits
import Gale.Lib.Session

namespace Gale.I2cThin

open Lib
open Lib.Mmio (rd wr spin)

def CR1 : UInt32 := 0x00
def CR2 : UInt32 := 0x04
def DR : UInt32 := 0x10
def SR1 : UInt32 := 0x14
def CCR : UInt32 := 0x1C
def TRISE : UInt32 := 0x20

def CR1_PE : UInt32 := 1
def CR1_START : UInt32 := (1 : UInt32) <<< 8
def CR1_STOP : UInt32 := (1 : UInt32) <<< 9
def CR1_ACK : UInt32 := (1 : UInt32) <<< 10

def CR2_FREQ_MASK : UInt32 := 0x3F
def CCR_FS : UInt32 := (1 : UInt32) <<< 15
def CCR_MASK : UInt32 := 0x0FFF

def SR1_SB : UInt32 := 1
def SR1_RXNE : UInt32 := (1 : UInt32) <<< 6
def SR1_TXE : UInt32 := (1 : UInt32) <<< 7

def freqBits (apb1Mhz : UInt32) : UInt32 := apb1Mhz &&& CR2_FREQ_MASK

def ccrValue (divisor fast : UInt32) : UInt32 :=
  (divisor &&& CCR_MASK) ||| (if fast ≠ 0 then CCR_FS else 0)

inductive Phase where
  | Idle
  | Addressing
  | Active
  | Complete
  deriving DecidableEq, Repr

inductive Fault where
  | BusBusy
  | WrongPhase

structure Txn where
  phase : Phase
  remaining : UInt32
  read : Bool

def Txn.idle : Txn where
  phase := .Idle
  remaining := 0
  read := false

def start (t : Txn) (count : UInt32) (read : Bool) : Except Fault Txn :=
  match t.phase with
  | .Idle =>
    if count > 0 then .ok { phase := .Addressing, remaining := count, read := read }
    else .error .BusBusy
  | _ => .error .BusBusy

def addrAck (t : Txn) : Except Fault Txn :=
  match t.phase with
  | .Addressing => .ok { phase := .Active, remaining := t.remaining, read := t.read }
  | _ => .error .WrongPhase

-- The master acknowledges every byte of a read but the last.
def ackByte (t : Txn) : Bool := t.phase = .Active && t.read && t.remaining > 1

-- The driver is built without overflow checks: the subtraction wraps.
def step (t : Txn) : Except Fault Txn :=
  match t.phase with
  | .Active =>
    let rem := t.remaining - 1
    if rem = 0 then .ok { phase := .Complete, remaining := 0, read := t.read }
    else .ok { phase := .Active, remaining := rem, read := t.read }
  | _ => .error .WrongPhase

def stop (_ : Txn) : Txn := .idle

def I2C_FAULT : UInt32 := 0xFFFFFFFF

def PHASE_SHIFT : UInt32 := 30
def READ_BIT : UInt32 := (1 : UInt32) <<< 29
def REM_MASK : UInt32 := ((1 : UInt32) <<< 29) - 1

def phEnc : Phase → UInt32
  | .Idle => 0
  | .Addressing => 1
  | .Active => 2
  | .Complete => 3

def phDec (b : UInt32) : Phase :=
  if b = 0 then .Idle else if b = 1 then .Addressing else if b = 2 then .Active else .Complete

def pack (t : Txn) : UInt32 :=
  (phEnc t.phase <<< PHASE_SHIFT) ||| (if t.read then READ_BIT else 0) ||| (t.remaining &&& REM_MASK)

def unpack (s : UInt32) : Txn where
  phase := phDec (s >>> PHASE_SHIFT)
  remaining := s &&& REM_MASK
  read := s &&& READ_BIT ≠ 0

def i2cConfigure (base apb1Mhz divisor fast trise : UInt32) : Mmio Unit := do
  wr (base + CR2) (freqBits apb1Mhz)
  wr (base + CCR) (ccrValue divisor fast)
  wr (base + TRISE) trise
  wr (base + CR1) CR1_PE

def i2cStart (base state count read : UInt32) : Mmio UInt32 :=
  match start (unpack state) count (read ≠ 0) with
  | .ok next => do
    let ack := if read ≠ 0 then CR1_ACK else 0
    wr (base + CR1) (CR1_PE ||| CR1_START ||| ack)
    spin (base + SR1) fun v => v &&& SR1_SB ≠ 0
    return pack next
  | .error _ => return I2C_FAULT

def i2cAddrAck (state : UInt32) : UInt32 :=
  match addrAck (unpack state) with
  | .ok next => pack next
  | .error _ => I2C_FAULT

def i2cStep (base state out : UInt32) : Mmio UInt32 :=
  let t := unpack state
  match step t with
  | .ok next =>
    if t.read then do
      if !ackByte t then
        wr (base + CR1) (CR1_PE ||| CR1_STOP)
      spin (base + SR1) fun v => v &&& SR1_RXNE ≠ 0
      let _rx := (← rd (base + DR)) &&& 0xFF
      return pack next
    else do
      spin (base + SR1) fun v => v &&& SR1_TXE ≠ 0
      wr (base + DR) (out &&& 0xFF)
      return pack next
  | .error _ => return I2C_FAULT

def i2cAckByte (state : UInt32) : UInt32 := if ackByte (unpack state) then 1 else 0

def i2cIsComplete (state : UInt32) : UInt32 := if (unpack state).phase = .Complete then 1 else 0

def i2cStop (base state : UInt32) : Mmio UInt32 := do
  wr (base + CR1) (CR1_PE ||| CR1_STOP)
  return pack (stop (unpack state))

inductive Call where
  | Configure (apb1Mhz divisor fast trise : UInt32)
  | Start (count read : UInt32)
  | AddrAck
  | Step (out : UInt32)
  | AckByte
  | IsComplete
  | Stop

def Call.threads : Call → Bool
  | .Configure _ _ _ _ | .AckByte | .IsComplete => false
  | _ => true

def driver (base : UInt32) : Driver Call where
  program call state :=
    match call with
    | .Configure apb1Mhz divisor fast trise => do
      i2cConfigure base apb1Mhz divisor fast trise
      return state
    | .Start count read => i2cStart base state count read
    | .AddrAck => return i2cAddrAck state
    | .Step out => i2cStep base state out
    | .AckByte => return i2cAckByte state
    | .IsComplete => return i2cIsComplete state
    | .Stop => i2cStop base state
  thread call given result := if call.threads then result else given

theorem toNat_remaining (x : UInt32) : (x &&& REM_MASK).toNat = x.toNat % 2 ^ 29 :=
  Bits.toNat_and_low rfl x

theorem phDec_phEnc (p : Phase) : phDec (phEnc p) = p := by
  cases p <;> decide

theorem toNat_phEnc (p : Phase) : (phEnc p).toNat < 4 := by
  cases p <;> decide

theorem toNat_fields (t : Txn) : ((if t.read then READ_BIT else 0) ||| (t.remaining &&& REM_MASK)).toNat =
      (if t.read then 2 ^ 29 else 0) + t.remaining.toNat % 2 ^ 29 := by
  have hl : (t.remaining &&& REM_MASK).toNat < 2 ^ 29 := by
    rw [toNat_remaining]
    exact Nat.mod_lt _ (by decide)
  rw [← toNat_remaining]
  cases t.read with
  | true =>
    have hf : (READ_BIT ||| (t.remaining &&& REM_MASK)).toNat = 1 * 2 ^ 29 + (t.remaining &&& REM_MASK).toNat :=
      Bits.toNat_field (by decide) (by decide) hl
    simpa using hf
  | false => simp

theorem pack_shiftRight (t : Txn) : pack t >>> PHASE_SHIFT = phEnc t.phase := by
  rw [pack, UInt32.or_assoc]
  apply Bits.tagged_shiftRight (toNat_phEnc _)
  rw [toNat_fields]
  split <;> omega

theorem unpack_pack (t : Txn) : unpack (pack t) = ⟨t.phase, t.remaining &&& REM_MASK, t.read⟩ := by
  have hp : phEnc t.phase <<< PHASE_SHIFT &&& REM_MASK = 0 ∧ phEnc t.phase <<< PHASE_SHIFT &&& READ_BIT = 0 := by
    cases t.phase <;> decide
  have hrd : (if t.read then READ_BIT else 0) &&& REM_MASK = 0 ∧
      (decide ((if t.read then READ_BIT else 0) &&& READ_BIT ≠ 0)) = t.read := by
    cases t.read <;> decide
  have hm : REM_MASK &&& READ_BIT = 0 := by decide
  have hr : pack t &&& REM_MASK = t.remaining &&& REM_MASK := by
    rw [pack, Bits.or_and_distrib, Bits.or_and_distrib, hp.1, hrd.1, UInt32.zero_or,
      UInt32.zero_or, UInt32.and_assoc, UInt32.and_self]
  have hb : pack t &&& READ_BIT = (if t.read then READ_BIT else 0) &&& READ_BIT := by
    rw [pack, Bits.or_and_distrib, Bits.or_and_distrib, hp.2, UInt32.zero_or, UInt32.and_assoc,
      hm, UInt32.and_zero, UInt32.or_zero]
  rw [unpack, pack_shiftRight, phDec_phEnc, hr, hb, hrd.2]

theorem pack_congr {p : Phase} {x y : UInt32} {read : Bool} (h : x.toNat % 2 ^ 29 = y.toNat % 2 ^ 29) :
    pack ⟨p, x, read⟩ = pack ⟨p, y, read⟩ := by
  have hl : x &&& REM_MASK = y &&& REM_MASK := by
    apply UInt32.toNat_inj.mp
    rw [toNat_remaining, toNat_remaining, h]
  simp [pack, hl]

section Outcome

variable {σ ε : Type} {device : Device σ ε} {st : σ} {base given : UInt32} {es : List ε}

theorem outcome_start {count read : UInt32} (hi : (unpack given).phase = .Idle) (hc : count ≠ 0) :
    (driver base).outcome device st given (.Start count read, es) =
      let started := device.write st (base + CR1)
        (CR1_PE ||| CR1_START ||| (if read ≠ 0 then CR1_ACK else 0))
      let polled := Mmio.waits device (base + SR1) (fun v => v &&& SR1_SB ≠ 0) started es
      ⟨.Write (base + CR1) (CR1_PE ||| CR1_START ||| (if read ≠ 0 then CR1_ACK else 0)) ::
          polled.accesses, polled.state,
        polled.result.map fun _ => pack ⟨.Addressing, count, read ≠ 0⟩⟩ := by
  have hp : count > 0 := UInt32.pos_iff_ne_zero.mpr hc
  simp [Driver.outcome, driver, i2cStart, start, hi, if_pos hp, Mmio.wr_bind, Mmio.spin_bind, Mmio.pure_eq, Mmio.exec_write, Mmio.exec_spin_ret]

theorem outcome_addrAck (hp : (unpack given).phase = .Addressing) :
    (driver base).outcome device st given (.AddrAck, es) =
      ⟨[], st, some (pack ⟨.Active, (unpack given).remaining, (unpack given).read⟩)⟩ := by
  simp only [Driver.outcome, driver, i2cAddrAck, addrAck, hp]
  rfl

def stepWord (given : UInt32) : UInt32 :=
  match step (unpack given) with
  | .ok next => pack next
  | .error _ => I2C_FAULT

def rxReady (v : UInt32) : Bool := v &&& SR1_RXNE ≠ 0

def take (base word : UInt32) : Mmio UInt32 :=
  .Spin (base + SR1) rxReady (.Read (base + DR) fun _ => .Ret word)

theorem exec_take_result {word result : UInt32}
    (h : (Mmio.exec device (take base word) st es).result = some result) : result = word := by
  obtain ⟨l, -, hr⟩ := Mmio.exec_spin_result.mp h
  cases l with
  | nil => cases hr
  | cons event l => exact (Option.some.inj hr).symm

theorem i2cStep_read {next : Txn} (hs : step (unpack given) = .ok next)
    (hr : (unpack given).read = true) (out : UInt32) :
    i2cStep base given out =
      if ackByte (unpack given) then take base (pack next)
      else .Write (base + CR1) (CR1_PE ||| CR1_STOP) (take base (pack next)) := by
  simp only [i2cStep, hs, hr, if_true, Mmio.wr_bind, Mmio.spin_bind, Mmio.rd_bind, Mmio.pure_eq]
  cases ackByte (unpack given) <;> rfl

theorem i2cStep_write {next : Txn} (hs : step (unpack given) = .ok next)
    (hr : (unpack given).read = false) (out : UInt32) :
    i2cStep base given out = .Spin (base + SR1) (fun v => v &&& SR1_TXE ≠ 0)
        (.Write (base + DR) (out &&& 0xFF) (.Ret (pack next))) := by
  simp [i2cStep, hs, hr, Mmio.wr_bind, Mmio.spin_bind, Mmio.pure_eq]

theorem i2cStep_error {fault : Fault} (hs : step (unpack given) = .error fault) (out : UInt32) :
    i2cStep base given out = .Ret I2C_FAULT := by
  simp [i2cStep, hs, Mmio.pure_eq]

theorem outcome_step_result {out result : UInt32}
    (h : ((driver base).outcome device st given (.Step out, es)).result = some result) :
    result = stepWord given := by
  have he : ((i2cStep base given out).exec device st es).result = some result := h
  cases hs : step (unpack given) with
  | error fault =>
    rw [i2cStep_error hs] at he
    simp only [stepWord, hs]
    exact (Option.some.inj he).symm
  | ok next =>
    simp only [stepWord, hs]
    cases hr : (unpack given).read with
    | false =>
      rw [i2cStep_write hs hr] at he
      obtain ⟨l, -, hl⟩ := Mmio.exec_spin_result.mp he
      exact (Option.some.inj hl).symm
    | true =>
      rw [i2cStep_read hs hr] at he
      cases ha : ackByte (unpack given) with
      | true | false =>
        rw [ha] at he
        exact exec_take_result he

theorem outcome_stop : (driver base).outcome device st given (.Stop, es) =
      ⟨[.Write (base + CR1) (CR1_PE ||| CR1_STOP)],
        device.write st (base + CR1) (CR1_PE ||| CR1_STOP), some (pack .idle)⟩ := rfl

end Outcome

section AnyBus

variable {base given : UInt32} {events : List UInt32}

def taken (base : UInt32) (events : List UInt32) : UInt32 :=
  ((Mmio.waits anyBus (base + SR1) rxReady () events).result.getD []).headD 0

theorem exec_take_accesses {word result : UInt32}
    (h : (Mmio.exec anyBus (take base word) () events).result = some result) :
    besides (base + SR1) (Mmio.exec anyBus (take base word) () events).accesses =
      [.Read (base + DR) (taken base events)] := by
  obtain ⟨l, hl, hr⟩ := Mmio.exec_spin_result.mp h
  cases l with
  | nil => cases hr
  | cons event l =>
    have hne : base + DR ≠ base + SR1 := by
      rw [ne_eq, UInt32.add_right_inj]
      decide
    rw [taken, hl, take, Mmio.exec_spin hl, besides_append, Mmio.besides_waits, List.nil_append]
    exact besides_read hne []

theorem outcome_step_read {out result : UInt32} (hp : (unpack given).phase = .Active) (hr : (unpack given).read = true)
    (h : ((driver base).outcome anyBus () given (.Step out, events)).result = some result) :
    besides (base + SR1) ((driver base).outcome anyBus () given (.Step out, events)).accesses =
      if ackByte (unpack given) then [.Read (base + DR) (taken base events)]
      else [.Write (base + CR1) (CR1_PE ||| CR1_STOP), .Read (base + DR) (taken base events)] := by
  have hne : base + CR1 ≠ base + SR1 := by
    rw [ne_eq, UInt32.add_right_inj]
    decide
  have he : ((i2cStep base given out).exec anyBus () events).result = some result := h
  show besides (base + SR1) ((i2cStep base given out).exec anyBus () events).accesses = _
  obtain ⟨next, hs⟩ : ∃ next, step (unpack given) = .ok next := by
    simp only [step, hp]
    split <;> exact ⟨_, rfl⟩
  rw [i2cStep_read hs hr] at he ⊢
  cases ha : ackByte (unpack given) with
  | true =>
    rw [ha] at he
    exact exec_take_accesses he
  | false =>
    rw [ha] at he
    exact (besides_write hne _).trans (congrArg _ (exec_take_accesses he))

def ready (byte : UInt32) : List UInt32 := [0xFFFFFFFF, byte]

theorem outcome_step_ready (out byte : UInt32) :
    ((driver base).outcome anyBus () given (.Step out, ready byte)).result = some (stepWord given) := by
  show ((i2cStep base given out).exec anyBus () (ready byte)).result = _
  cases hs : step (unpack given) with
  | error fault =>
    rw [i2cStep_error hs, stepWord, hs]
    rfl
  | ok next =>
    rw [stepWord, hs]
    cases hr : (unpack given).read with
    | false =>
      rw [i2cStep_write hs hr]
      rfl
    | true =>
      rw [i2cStep_read hs hr]
      cases ackByte (unpack given) <;> rfl

end AnyBus

end Gale.I2cThin
