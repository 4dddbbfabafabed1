import Gale.MemDomain

namespace Gale.MemDomain

open Lib

-- The decisions the C code takes from the Rust library. The arrays are the
-- start and size columns C extracts from the domain.

def partitionValidDecide (start size : UInt32) : Bool :=
  size > 0 && start.toNat + size.toNat ≤ U32_MAX

def partitionsOverlapDecide (partStart partSize existingStart existingSize : UInt32) : Bool :=
  let pend := partStart.toNat + partSize.toNat
  let eend := existingStart.toNat + existingSize.toNat
  pend > existingStart.toNat && eend > partStart.toNat

def galeMemDomainCheckPartition (partStart partSize : UInt32) (domainStarts domainSizes : Slot → UInt32) :
    Int :=
  if !partitionValidDecide partStart partSize then EINVAL
  else if (List.finRange MAX_PARTITIONS).any fun i =>
      domainSizes i > 0 &&
        partitionsOverlapDecide partStart partSize (domainStarts i) (domainSizes i) then EINVAL
  else OK

inductive Action where
  | Ok
  | Error

structure Decision where
  ret : Int
  slot : Slot
  newNumPartitions : Nat
  action : Action

def SLOT_0 : Slot := ⟨0, by decide⟩

def galeKMemDomainAddPartitionDecide (partStart partSize : UInt32)
    (domainStarts domainSizes : Slot → UInt32) (numPartitions : Nat) : Decision :=
  let check := galeMemDomainCheckPartition partStart partSize domainStarts domainSizes
  if check ≠ OK then ⟨EINVAL, SLOT_0, numPartitions, .Error⟩
  else
    match Slots.first fun i => domainSizes i = 0 with
    | some pIdx => ⟨OK, pIdx, numPartitions + 1, .Ok⟩
    | none => ⟨ENOSPC, SLOT_0, numPartitions, .Error⟩

def galeKMemDomainRemovePartitionDecide (partStart partSize : UInt32)
    (domainStarts domainSizes : Slot → UInt32) (numPartitions : Nat) : Decision :=
  match Slots.first fun i => domainStarts i = partStart && domainSizes i = partSize with
  | some pIdx => ⟨OK, pIdx, if numPartitions > 0 then numPartitions - 1 else 0, .Ok⟩
  | none => ⟨ENOENT, SLOT_0, numPartitions, .Error⟩

def galeMemDomainInitValidatePartition (partStart partSize : UInt32)
    (domainStarts domainSizes : Slot → UInt32) : Int :=
  galeMemDomainCheckPartition partStart partSize domainStarts domainSizes

-- struct k_mem_domain; num_partitions is a uint8_t.
structure KMemDomain where
  partitions : Slot → MemPartition
  numPartitions : Nat

namespace KMemDomain

def zeroed : KMemDomain where
  partitions := fun _ => .empty
  numPartitions := 0

def starts (d : KMemDomain) (i : Slot) : UInt32 := (d.partitions i).start

def sizes (d : KMemDomain) (i : Slot) : UInt32 := (d.partitions i).size

def initParts (d : KMemDomain) (i : Nat) : List MemPartition → KMemDomain × Int
  | [] => (d, OK)
  | part :: rest =>
    if galeMemDomainInitValidatePartition part.start part.size d.starts d.sizes ≠ OK then
      (d, EINVAL)
    else
      initParts
        { partitions := fun j => if j.val = i then part else d.partitions j
          numPartitions := (d.numPartitions + 1) % 256 } (i + 1) rest

-- max_partitions is the limit of the architecture, here all 16 slots.
def kMemDomainInit (d : KMemDomain) (parts : List MemPartition) : KMemDomain × Int :=
  if parts.length ≤ MAX_PARTITIONS then zeroed.initParts 0 parts else (d, EINVAL)

def kMemDomainAddPartition (d : KMemDomain) (part : MemPartition) : KMemDomain × Int :=
  let decision := galeKMemDomainAddPartitionDecide part.start part.size d.starts d.sizes
    d.numPartitions
  match decision.action with
  | .Error => (d, decision.ret)
  | .Ok =>
    ({ partitions := Function.update d.partitions decision.slot part
       numPartitions := decision.newNumPartitions % 256 }, 0)

-- Only the size of the slot is cleared.
def kMemDomainRemovePartition (d : KMemDomain) (start size : UInt32) : KMemDomain × Int :=
  let decision := galeKMemDomainRemovePartitionDecide start size d.starts d.sizes d.numPartitions
  match decision.action with
  | .Error => (d, decision.ret)
  | .Ok =>
    ({ partitions := Function.update d.partitions decision.slot
         { d.partitions decision.slot with size := 0 }
       numPartitions := decision.newNumPartitions % 256 }, 0)

end KMemDomain

end Gale.MemDomain
