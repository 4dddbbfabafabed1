import Gale.Kernel
import Gale.Lib.Checked

namespace Gale.Zms

open Lib

def U32_MAX : Nat := 4294967295

-- From src/zms.rs. The crate is built with overflow checks: none stands for a panic.
inductive WriteAction where
  | WriteOk
  | NeedsGc
  deriving DecidableEq, Repr

structure ZmsWriteDecision where
  action : WriteAction
  needsGc : Bool

structure ZmsGcDecision where
  action : Nat
  sectorsToGc : Nat
  deriving DecidableEq, Repr

structure ZmsSector where
  ateWra : Nat
  dataWra : Nat
  sectorSize : Nat
  cycleCnt : Nat
  isOpen : Bool
  isClosed : Bool

structure ZmsFs where
  sectorCount : Nat
  currentSector : Nat
  ateSize : Nat
  freeSpace : Nat

namespace ZmsSector

def init (sectorSize ateSize cycleCnt : Nat) : Option (Except Int ZmsSector) := do
  let least ← checkedMul U32_MAX 5 ateSize
  if sectorSize < least then
    return .error EINVAL
  let header ← checkedMul U32_MAX 3 ateSize
  let ateWra ← checkedSub sectorSize header
  return .ok
    { ateWra := ateWra
      dataWra := 0
      sectorSize := sectorSize
      cycleCnt := cycleCnt
      isOpen := true
      isClosed := false }

-- Both sides as u64, where the sum does not overflow.
def hasSpace (s : ZmsSector) (needed : Nat) : Bool :=
  s.ateWra > 0 && s.ateWra ≥ s.dataWra + needed

-- What a write does to the addresses: zms_flash_data_wrt and zms_flash_ate_wrt.
def wrote (s : ZmsSector) (dataLen ateSize : Nat) : ZmsSector :=
  { s with
    dataWra := s.dataWra + dataLen
    ateWra := s.ateWra - ateSize }

end ZmsSector

namespace ZmsFs

def init (sectorCount sectorSize ateSize : Nat) : Option (Except Int ZmsFs) :=
  if sectorCount < 2 then some (.error EINVAL)
  else do
    let least ← checkedMul U32_MAX 5 ateSize
    if sectorSize < least then
      return .error EINVAL
    let used ← checkedMul U32_MAX 4 ateSize
    let free ← checkedSub sectorSize used
    return .ok
      { sectorCount := sectorCount
        currentSector := 0
        ateSize := ateSize
        freeSpace := free }

def FreeSpaceConsistent (fs : ZmsFs) (ateWra dataWra : Nat) : Prop :=
  (fs.freeSpace : Int) = ateWra - dataWra - fs.ateSize

def writeDecide (fs : ZmsFs) (dataLen : Nat) : ZmsWriteDecision :=
  let required := dataLen + fs.ateSize
  if fs.freeSpace ≥ required then ⟨.WriteOk, false⟩ else ⟨.NeedsGc, true⟩

def gcNeeded (ateWra dataWra needed : Nat) : Option ZmsGcDecision := do
  let available ← checkedSub ateWra dataWra
  if available ≥ needed then return ⟨0, 0⟩ else return ⟨1, 1⟩

def advanceSector (fs : ZmsFs) : Option ZmsFs := do
  let next ← checkedAdd U32_MAX fs.currentSector 1
  return { fs with currentSector := if next = fs.sectorCount then 0 else next }

def consumeSpace (fs : ZmsFs) (dataLen : Nat) : Option ZmsFs := do
  let rest ← checkedSub fs.freeSpace dataLen
  let free ← checkedSub rest fs.ateSize
  return { fs with freeSpace := free }

end ZmsFs

-- A mounted file system with the address state of each of its sectors.
structure State where
  fs : ZmsFs
  sectors : Nat → ZmsSector
  sectorSize : Nat

namespace State

def current (s : State) : ZmsSector := s.sectors s.fs.currentSector

-- A write that write_decide refuses goes on to garbage collection.
def write (s : State) (dataLen : Nat) : Option State :=
  match (s.fs.writeDecide dataLen).action with
  | .WriteOk => do
    let fs ← s.fs.consumeSpace dataLen
    let sector := s.current.wrote dataLen s.fs.ateSize
    return { s with
      fs := fs
      sectors := Function.update s.sectors s.fs.currentSector sector }
  | .NeedsGc => some s

-- The next sector has been erased and is set up again.
def advance (s : State) (cycleCnt : Nat) : Option State := do
  let fs ← s.fs.advanceSector
  match ← ZmsSector.init s.sectorSize fs.ateSize cycleCnt with
  | .ok sector =>
    return { s with
      fs := fs
      sectors := Function.update s.sectors fs.currentSector sector }
  | .error _ => none

end State

-- zms_mount, with the first sector as it was set up.
def mount (fs : ZmsFs) (sectorSize : Nat) (first : ZmsSector) (others : Nat → ZmsSector) : State where
  fs := fs
  sectors := Function.update others fs.currentSector first
  sectorSize := sectorSize

inductive Op where
  | Write (dataLen : Nat)
  | Advance (cycleCnt : Nat)

def step (s : State) : Op → Option State
  | .Write dataLen => s.write dataLen
  | .Advance cycleCnt => s.advance cycleCnt

end Gale.Zms
