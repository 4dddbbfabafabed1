import Gale.Kernel

namespace Gale.MemSlab

-- From src/mem_slab.rs.

inductive AllocDecision where
  | Alloc
  | NoMem
  | Pend

structure AllocDecideResult where
  decision : AllocDecision
  newNumUsed : Nat

def allocDecide (numUsed numBlocks : Nat) (isNoWait : Bool) : AllocDecideResult :=
  if numUsed < numBlocks then ⟨.Alloc, numUsed + 1⟩
  else if isNoWait then ⟨.NoMem, numUsed⟩
  else ⟨.Pend, numUsed⟩

inductive FreeDecision where
  | Free
  | WakeThread

structure FreeDecideResult where
  decision : FreeDecision
  newNumUsed : Nat

def freeDecide (numUsed : Nat) (hasWaiter : Bool) : FreeDecideResult :=
  if hasWaiter then ⟨.WakeThread, numUsed⟩
  else if numUsed > 0 then ⟨.Free, numUsed - 1⟩
  else ⟨.Free, 0⟩

-- gale_mem_slab_init_validate.
def initValidate (blockSize numBlocks : Nat) : Int :=
  if blockSize = 0 ∨ numBlocks = 0 then EINVAL else OK

end Gale.MemSlab

namespace Gale

open Lib

-- From zephyr/gale_mem_slab.c.

structure MemSlab.Config where
  sizeofPointer : Nat
  -- CONFIG_MULTITHREADING, CONFIG_MEM_SLAB_POINTER_VALIDATE,
  -- CONFIG_MEM_SLAB_TRACE_MAX_UTILIZATION
  multithreading : Bool
  pointerValidate : Bool
  traceMaxUtilization : Bool
  deriving DecidableEq, Repr

-- struct k_mem_slab with the memory that its blocks are in. A pointer is NULL or
-- the address of a block; a cell holds the pointer stored at an address.
structure MemSlab where
  numBlocks : Nat
  blockSize : Nat
  buffer : Nat
  numUsed : Nat
  maxUsed : Nat
  freeList : Option Nat
  memory : Nat → Option Nat
  waitQ : List Tid

namespace MemSlab

def linkBlocks : Nat → MemSlab → Nat → MemSlab
  | 0, slab, _ => slab
  | count + 1, slab, p =>
    linkBlocks count
      { slab with
        memory := Function.update slab.memory p slab.freeList
        freeList := some p }
      (p - slab.blockSize)

def createFreeList (cfg : Config) (slab : MemSlab) : Except Int MemSlab :=
  let rc := initValidate (slab.blockSize % 2 ^ 32) slab.numBlocks
  let sizeLimit := 2 ^ (8 * cfg.sizeofPointer)
  if rc ≠ 0 then .error rc
  else if (slab.blockSize ||| slab.buffer) &&& (cfg.sizeofPointer - 1) ≠ 0 then .error EINVAL
  else if sizeLimit ≤ slab.blockSize * slab.numBlocks then .error EINVAL
  else if sizeLimit ≤ slab.buffer + slab.blockSize * slab.numBlocks then .error EINVAL
  else
    let totalSize := slab.buffer + slab.blockSize * slab.numBlocks
    .ok (linkBlocks slab.numBlocks { slab with freeList := none } (totalSize - slab.blockSize))

def kMemSlabInit (cfg : Config) (memory : Nat → Option Nat) (buffer blockSize numBlocks : Nat) :
    Except Int MemSlab :=
  createFreeList cfg
    { numBlocks := numBlocks
      blockSize := blockSize
      buffer := buffer
      numUsed := 0
      maxUsed := 0
      freeList := none
      memory := memory
      waitQ := [] }

def slabPtrIsGood (cfg : Config) (slab : MemSlab) (ptr : Nat) : Bool :=
  if !cfg.pointerValidate then true
  else
    let offset : Int := (ptr : Int) - slab.buffer
    decide (offset ≥ 0) && decide (offset < slab.blockSize * slab.numBlocks) &&
      decide (offset % slab.blockSize = 0)

def isNoWait (cfg : Config) (timeout : Timeout) : Bool :=
  timeout.isNoWait || !cfg.multithreading

-- The result and what is stored to *mem, or none for a thread that pends.
def kMemSlabAlloc (cfg : Config) (slab : MemSlab) (current : Tid) (timeout : Timeout) :
    MemSlab × Option (Int × Option Nat) :=
  let d := allocDecide slab.numUsed slab.numBlocks (isNoWait cfg timeout)
  match d.decision with
  | .Alloc =>
    match slab.freeList with
    | some block =>
      ({ slab with
          freeList := slab.memory block
          numUsed := d.newNumUsed
          maxUsed :=
            if cfg.traceMaxUtilization then max d.newNumUsed slab.maxUsed
            else slab.maxUsed },
        some (0, some block))
    | none => (slab, some (ENOMEM, none))
  | .Pend =>
    if cfg.multithreading then ({ slab with waitQ := slab.waitQ ++ [current] }, none)
    else (slab, some (ENOMEM, none))
  | .NoMem => (slab, some (ENOMEM, none))

-- The thread that is woken with the block, if any. A pointer that is no block
-- stops the system.
def kMemSlabFree (cfg : Config) (policy : Policy Tid) (slab : MemSlab) (mem : Nat) :
    Option (MemSlab × Option Tid) :=
  if !slab.slabPtrIsGood cfg mem then none
  else
    let taken :=
      if slab.freeList = none ∧ cfg.multithreading then policy.take slab.waitQ
      else (none, slab.waitQ)
    let d := freeDecide slab.numUsed taken.1.isSome
    match d.decision with
    | .WakeThread => some ({ slab with waitQ := taken.2 }, taken.1)
    | .Free =>
      some ({ slab with
        waitQ := taken.2
        memory := Function.update slab.memory mem slab.freeList
        freeList := some mem
        numUsed := d.newNumUsed }, none)

end MemSlab

end Gale
