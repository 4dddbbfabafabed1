import Gale.Lib.Countdown

namespace Gale.SpiThin

open Lib

inductive Phase where
  | Idle
  | Active
  | Complete
  deriving DecidableEq, Repr

inductive Fault where
  | BusBusy
  | NotActive

structure Xfer where
  phase : Phase
  remaining : UInt32

def Xfer.idle : Xfer where
  phase := .Idle
  remaining := 0

def begin (x : Xfer) (count : UInt32) : Except Fault Xfer :=
  match x.phase with
  | .Idle => if count > 0 then .ok { phase := .Active, remaining := count } else .error .BusBusy
  | _ => .error .BusBusy

-- The driver is built without overflow checks: the subtraction wraps.
def step (x : Xfer) : Except Fault Xfer :=
  match x.phase with
  | .Active =>
    let rem := x.remaining - 1
    if rem = 0 then .ok { phase := .Complete, remaining := 0 }
    else .ok { phase := .Active, remaining := rem }
  | _ => .error .NotActive

def abort (_ : Xfer) : Xfer := .idle

def SPI_FAULT : UInt32 := 0xFFFFFFFF

def PHASE_SHIFT : UInt32 := 30
def REM_MASK : UInt32 := ((1 : UInt32) <<< PHASE_SHIFT) - 1

def phEnc : Phase → UInt32
  | .Idle => 0
  | .Active => 1
  | .Complete => 2

def phDec (b : UInt32) : Phase := if b = 0 then .Idle else if b = 1 then .Active else .Complete

def pack (x : Xfer) : UInt32 := (phEnc x.phase <<< PHASE_SHIFT) ||| (x.remaining &&& REM_MASK)

def unpack (s : UInt32) : Xfer where
  phase := phDec (s >>> PHASE_SHIFT)
  remaining := s &&& REM_MASK

def spiBegin (state count : UInt32) : UInt32 :=
  match begin (unpack state) count with
  | .ok next => pack next
  | .error _ => SPI_FAULT

def spiStep (state : UInt32) : UInt32 :=
  match step (unpack state) with
  | .ok next => pack next
  | .error _ => SPI_FAULT

def spiIsComplete (state : UInt32) : UInt32 := if (unpack state).phase = .Complete then 1 else 0

def spiAbort (state : UInt32) : UInt32 := pack (abort (unpack state))

theorem toNat_remaining (x : UInt32) : (x &&& REM_MASK).toNat = x.toNat % 2 ^ 30 :=
  Bits.toNat_and_low rfl x

theorem phDec_phEnc (p : Phase) : phDec (phEnc p) = p := by
  cases p <;> decide

theorem toNat_phEnc (p : Phase) : (phEnc p).toNat < 3 := by
  cases p <;> decide

theorem pack_shiftRight (x : Xfer) : pack x >>> PHASE_SHIFT = phEnc x.phase := by
  have ht := toNat_phEnc x.phase
  have hl : (x.remaining &&& REM_MASK).toNat < 2 ^ 30 := by
    rw [toNat_remaining]
    exact Nat.mod_lt _ (by decide)
  exact Bits.tagged_shiftRight (by omega) hl

theorem unpack_pack (x : Xfer) : unpack (pack x) = ⟨x.phase, x.remaining &&& REM_MASK⟩ := by
  have hp : phEnc x.phase <<< PHASE_SHIFT &&& REM_MASK = 0 := by
    cases x.phase <;> decide
  have hl : pack x &&& REM_MASK = x.remaining &&& REM_MASK := by
    rw [pack, Bits.or_and_distrib, hp, UInt32.zero_or, UInt32.and_assoc, UInt32.and_self]
  rw [unpack, pack_shiftRight, phDec_phEnc, hl]

theorem pack_ne_fault (x : Xfer) : pack x ≠ SPI_FAULT := by
  intro h
  have ht := toNat_phEnc x.phase
  rw [← pack_shiftRight, h] at ht
  exact absurd ht (by decide)

theorem pack_congr {p : Phase} {x y : UInt32} (h : x.toNat % 2 ^ 30 = y.toNat % 2 ^ 30) :
    pack ⟨p, x⟩ = pack ⟨p, y⟩ := by
  have hl : x &&& REM_MASK = y &&& REM_MASK := by
    apply UInt32.toNat_inj.mp
    rw [toNat_remaining, toNat_remaining, h]
  simp [pack, hl]

theorem spiBegin_eq {word count : UInt32} (hi : (unpack word).phase = .Idle) (hc : count ≠ 0) :
    spiBegin word count = pack ⟨.Active, count⟩ := by
  have hp : count > 0 := UInt32.pos_iff_ne_zero.mpr hc
  simp [spiBegin, begin, hi, if_pos hp]

theorem fieldCount : FieldCount spiStep (fun x => pack ⟨.Active, x⟩) (pack ⟨.Complete, 0⟩) SPI_FAULT
      (fun word => spiIsComplete word = 1) REM_MASK 30 where
  width_pos := by decide
  width_le := by decide
  mask_eq := rfl
  active_congr := pack_congr
  step_active := by
    intro x
    by_cases hz : (x &&& REM_MASK) - 1 = 0
    · simp [spiStep, unpack_pack, step, if_pos hz]
    · simp [spiStep, unpack_pack, step, if_neg hz]
  step_done := by decide
  active_ne := fun x => pack_ne_fault _
  done_ne := pack_ne_fault _
  active_incomplete := by
    intro x
    simp [spiIsComplete, unpack_pack]
  done_complete := by decide

def Reaches (word count : UInt32) (k : Nat) (reached : UInt32) : Prop :=
  reached = spiStep^[k] (spiBegin word count)

def Counts (word count : UInt32) : Prop :=
  CountsDown (Reaches word count) SPI_FAULT (fun reached => spiIsComplete reached = 1) count.toNat

theorem counts_iff {word count : UInt32} (hi : (unpack word).phase = .Idle) (hc : count ≠ 0) :
    Counts word count ↔ count.toNat ≤ 2 ^ 30 := by
  refine fieldCount.countsDown_iff hc fun k reached => ?_
  rw [Reaches, spiBegin_eq hi hc]

end Gale.SpiThin
