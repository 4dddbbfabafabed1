import Gale.Lib.Pmsa

namespace Gale.MpuSwitch

open Lib.Pmsa

-- From src/mpu.rs.

def MIN_REGION_SIZE : UInt32 := 32

def isPowerOfTwo (n : UInt32) : Bool := n > 0 && (n &&& (n - 1)) == 0

-- From src/mpu_switch.rs.

abbrev MAX_PARTITIONS : Nat := 4
abbrev MAX_REGIONS : Nat := 8
abbrev TABLE_SLOTS : Nat := 32

def MPU_CTRL_ID : UInt32 := 0xFFFFFFFF
def MPU_CTRL_ENABLE : UInt32 := 1
def MPU_CTRL_DISABLE : UInt32 := 0

def UNPRIV_SAME : UInt32 := 0
def UNPRIV_RO : UInt32 := 1
def UNPRIV_NONE : UInt32 := 2
def UNPRIV_MAX : UInt32 := 3

structure MpuWrite where
  rnr : UInt32
  rbar : UInt32
  rasr : UInt32

structure RegionTable where
  base : Fin TABLE_SLOTS → UInt32
  size : Fin TABLE_SLOTS → UInt32
  enabled : Fin TABLE_SLOTS → Bool
  writable : Fin TABLE_SLOTS → Bool
  unpriv : Fin TABLE_SLOTS → UInt32

structure Request where
  part : UInt32
  base : UInt32
  size : UInt32
  writable : Bool
  unpriv : UInt32

def slotOf (part : Fin MAX_PARTITIONS) (r : Fin MAX_REGIONS) : Fin TABLE_SLOTS :=
  ⟨part * MAX_REGIONS + r, by
    have hpart : part.val < 4 := part.isLt
    simp only [MAX_REGIONS, TABLE_SLOTS]
    omega⟩

def sizeField (size : UInt32) : UInt32 :=
  if size = 32 then 4
  else if size = 64 then 5
  else if size = 128 then 6
  else if size = 256 then 7
  else if size = 512 then 8
  else if size = 1024 then 9
  else if size = 2048 then 10
  else if size = 4096 then 11
  else if size = 8192 then 12
  else if size = 16384 then 13
  else if size = 32768 then 14
  else if size = 65536 then 15
  else if size = 131072 then 16
  else if size = 262144 then 17
  else if size = 524288 then 18
  else if size = 1048576 then 19
  else if size = 2097152 then 20
  else if size = 4194304 then 21
  else if size = 8388608 then 22
  else if size = 16777216 then 23
  else if size = 33554432 then 24
  else if size = 67108864 then 25
  else if size = 134217728 then 26
  else if size = 268435456 then 27
  else if size = 536870912 then 28
  else if size = 1073741824 then 29
  else if size = 2147483648 then 30
  else 0

def apField (writable : Bool) (unpriv : UInt32) : UInt32 :=
  if unpriv = UNPRIV_NONE then
    if writable then 1 else 5
  else if unpriv = UNPRIV_RO then 2
  else if writable then 3 else 6

def rasrFor (size : UInt32) (writable : Bool) (unpriv : UInt32) : UInt32 :=
  let f := sizeField size
  let ap := apField writable unpriv
  1 + 2 * f + 0x01000000 * ap

namespace RegionTable

def new : RegionTable where
  base := fun _ => 0
  size := fun _ => 0
  enabled := fun _ => false
  writable := fun _ => false
  unpriv := fun _ => UNPRIV_SAME

def regionWrite (t : RegionTable) (part : Fin MAX_PARTITIONS) (r : Fin MAX_REGIONS) : MpuWrite :=
  let i := slotOf part r
  if t.enabled i then
    ⟨UInt32.ofNat r, t.base i, rasrFor (t.size i) (t.writable i) (t.unpriv i)⟩
  else
    ⟨UInt32.ofNat r, 0, 0⟩

def programPartition (t : RegionTable) (part : Fin MAX_PARTITIONS) : List MpuWrite :=
  [⟨MPU_CTRL_ID, 0, MPU_CTRL_DISABLE⟩] ++ (List.finRange MAX_REGIONS).map (t.regionWrite part) ++
    [⟨MPU_CTRL_ID, 0, MPU_CTRL_ENABLE⟩]

-- The flat index that program_partition computes for a partition number of any size,
-- in a usize of 32 bits, by a build that checks for overflow or one that wraps.
def slotIndex (checked : Bool) (part : UInt32) (r : Fin MAX_REGIONS) : Option Nat :=
  let i := part.toNat * MAX_REGIONS + r
  if i < UInt32.size then some i else if checked then none else some (i % UInt32.size)

def slotWrite (t : RegionTable) (i : Fin TABLE_SLOTS) (r : Fin MAX_REGIONS) : MpuWrite :=
  if t.enabled i then
    ⟨UInt32.ofNat r, t.base i, rasrFor (t.size i) (t.writable i) (t.unpriv i)⟩
  else
    ⟨UInt32.ofNat r, 0, 0⟩

-- program_partition on a number of any size. An index past the table panics.
def programPartitionAny (t : RegionTable) (checked : Bool) (part : UInt32) :
    Option (List MpuWrite) := do
  let regions ← (List.finRange MAX_REGIONS).mapM fun r => do
    let i ← slotIndex checked part r
    if h : i < TABLE_SLOTS then some (t.slotWrite ⟨i, h⟩ r) else none
  return [⟨MPU_CTRL_ID, 0, MPU_CTRL_DISABLE⟩] ++ regions ++ [⟨MPU_CTRL_ID, 0, MPU_CTRL_ENABLE⟩]

def insert (t : RegionTable) (i : Fin TABLE_SLOTS) (request : Request) : RegionTable where
  base := Function.update t.base i request.base
  size := Function.update t.size i request.size
  writable := Function.update t.writable i request.writable
  unpriv := Function.update t.unpriv i request.unpriv
  enabled := Function.update t.enabled i true

-- The test of the scan over a partition's slots: the additions are u32, so
-- they would wrap.
def overlaps (t : RegionTable) (base size : UInt32) (i : Fin TABLE_SLOTS) : Bool :=
  t.enabled i && !(base + size ≤ t.base i || t.base i + t.size i ≤ base)

def tryAddRegionPerm (t : RegionTable) (request : Request) : Bool × RegionTable :=
  let ⟨part, base, size, writable, unpriv⟩ := request
  if hpart : part.toNat < MAX_PARTITIONS then
    if unpriv ≥ UNPRIV_MAX then (false, t)
    else if unpriv = UNPRIV_RO ∧ !writable then (false, t)
    else if !isPowerOfTwo size then (false, t)
    else if size < MIN_REGION_SIZE then (false, t)
    else if base % size ≠ 0 then (false, t)
    else if base.toNat + size.toNat ≥ UInt32.size then (false, t)
    else if (List.finRange MAX_REGIONS).any fun r => t.overlaps base size (slotOf ⟨part.toNat, hpart⟩ r)
      then (false, t)
    else
      match (List.finRange MAX_REGIONS).find? fun f => !t.enabled (slotOf ⟨part.toNat, hpart⟩ f) with
      | some f => (true, t.insert (slotOf ⟨part.toNat, hpart⟩ f) request)
      | none => (false, t)
  else (false, t)

def coversAddr (t : RegionTable) (part : Fin MAX_PARTITIONS) (addr : UInt32) : Bool :=
  (List.finRange MAX_REGIONS).any fun r =>
    let i := slotOf part r
    t.enabled i && t.base i ≤ addr && addr - t.base i < t.size i

end RegionTable

-- The extern mpu_write, as every platform in benches/gust implements it.
def mpuWrite (mpu : Mpu MAX_REGIONS) (w : MpuWrite) : Mpu MAX_REGIONS :=
  if w.rnr = MPU_CTRL_ID then mpu.writeCtrl w.rasr
  else ((mpu.writeRnr w.rnr).writeRbar w.rbar).writeRasr w.rasr

def applyProgram (seq : List MpuWrite) (mpu : Mpu MAX_REGIONS) : Mpu MAX_REGIONS :=
  seq.foldl mpuWrite mpu

def RegionTable.switchToPartition (t : RegionTable) (checked : Bool) (part : UInt32)
    (mpu : Mpu MAX_REGIONS) : Option (Mpu MAX_REGIONS) :=
  (t.programPartitionAny checked part).map fun seq => applyProgram seq mpu

structure Builder where
  table : RegionTable
  accepted : List Request

namespace Builder

def new : Builder := ⟨RegionTable.new, []⟩

def add (b : Builder) (request : Request) : Builder :=
  match b.table.tryAddRegionPerm request with
  | (true, table) => ⟨table, b.accepted ++ [request]⟩
  | (false, table) => { b with table := table }

def build (requests : List Request) : Builder := requests.foldl add new

end Builder

end Gale.MpuSwitch
