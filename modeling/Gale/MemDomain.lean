import Gale.Kernel
import Gale.Lib.Slots

namespace Gale

open Lib

namespace MemDomain

def MAX_PARTITIONS : Nat := 16

def U32_MAX : Nat := 0xFFFFFFFF

abbrev Slot := Fin MAX_PARTITIONS

structure MemPartition where
  start : UInt32
  size : UInt32
  attr : UInt32

namespace MemPartition

def endU64 (p : MemPartition) : Nat := p.start.toNat + p.size.toNat

def overlaps (p other : MemPartition) : Bool :=
  p.endU64 > other.start.toNat && other.endU64 > p.start.toNat

def empty : MemPartition where
  start := 0
  size := 0
  attr := 0

def isFree (p : MemPartition) : Bool := p.size = 0

end MemPartition

end MemDomain

-- A free slot has size 0. The count is a u32; it stays far below 2^32.
structure MemDomain where
  partitions : MemDomain.Slot → MemDomain.MemPartition
  numPartitions : Nat

namespace MemDomain

def init : MemDomain where
  partitions := fun _ => .empty
  numPartitions := 0

def checkAddPartition (d : MemDomain) (part : MemPartition) : Bool :=
  if part.size = 0 then false
  else if part.endU64 > U32_MAX then false
  else (List.finRange MAX_PARTITIONS).all fun i =>
    (d.partitions i).isFree || !part.overlaps (d.partitions i)

def addPartition (d : MemDomain) (part : MemPartition) : MemDomain × Except Int Slot :=
  if d.checkAddPartition part then
    match Slots.first fun i => (d.partitions i).isFree with
    | some slot =>
      ({ partitions := Function.update d.partitions slot part
         numPartitions := d.numPartitions + 1 }, .ok slot)
    | none => (d, .error ENOSPC)
  else (d, .error EINVAL)

-- The build keeps overflow checks on: taking one from a count of zero panics,
-- which is none here.
def removePartition (d : MemDomain) (start size : UInt32) : Option (MemDomain × Except Int Slot) :=
  match Slots.first fun i => (d.partitions i).start = start && (d.partitions i).size = size with
  | some slot =>
    if d.numPartitions = 0 then none
    else
      some ({ partitions := Function.update d.partitions slot .empty
              numPartitions := d.numPartitions - 1 }, .ok slot)
  | none => some (d, .error ENOENT)

end MemDomain

end Gale
