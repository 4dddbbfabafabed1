import Gale.Heap.Bytes
import Gale.Lib.Checked

namespace Gale.Mempool

open Lib Heap

-- From src/mempool.rs.
inductive MempoolAllocAction where
  | ReturnPtr
  | ReturnNull

def allocActionDecide (allocSucceeded : Bool) : MempoolAllocAction :=
  if allocSucceeded then .ReturnPtr else .ReturnNull

-- The build. The values of H are the pointers to the k_heaps, with their bytes in memory;
-- a pointer has 2 ^ wordLog of them.
structure Machine (H : Type*) where
  heap : Heap.Config
  wordLog : Nat
  width : wordLog = 2 ∨ wordLog = 3 ∧ heap.sizing = .BigOnly
  encode : H → Fin (2 ^ wordLog) → UInt8
  decode : (Fin (2 ^ wordLog) → UInt8) → H
  decode_encode : ∀ heap, decode (encode heap) = heap
  -- _SYSTEM_HEAP, if the build has one
  system : Option H

namespace Machine

variable {H : Type*} (m : Machine H)

-- sizeof(heap_ref)
def sizeofRef : Nat := 2 ^ m.wordLog

def sizeMax : Nat := 2 ^ (8 * m.sizeofRef) - 1

end Machine

inductive Stage (H : Type*) where
  -- z_alloc_helper has its memory, and has not written *heap_ref
  | Taken (zeroed : Bool)
  -- k_calloc before its memset
  | Uncleared
  | Live
  -- k_free before k_heap_free
  | Freeing (owner : H) (ref : Nat)
  -- k_realloc before sys_heap_realloc
  | Reallocating (owner : H) (ref size total : Nat)
  deriving DecidableEq

-- A block with the heap it was taken from, what that heap returned, what was asked for, the
-- pointer the caller has and what the bytes there should be.
structure Block (H : Type*) where
  heap : H
  mem : Nat
  bytes : Nat
  align : Nat
  ptr : Nat
  data : Nat → UInt8
  stage : Stage H

-- The blocks have names that their callers choose.
structure State (H : Type*) where
  heaps : H → ZHeap
  memory : Nat → UInt8
  blocks : Nat → Option (Block H)

structure Context (H : Type*) where
  inIsr : Bool
  resourcePool : Option H

inductive Request (H : Type*) where
  | KMalloc (size : Nat)
  | KCalloc (nmemb size : Nat)
  | KAlignedAlloc (align size : Nat)
  | ZThreadMalloc (context : Context H) (size : Nat)
  | ZThreadAlignedAlloc (context : Context H) (align size : Nat)
  -- k_realloc of NULL
  | KReallocNull (size : Nat)

inductive Input (H : Type*) where
  | Alloc (id : Nat) (request : Request H)
  | StoreRef (id : Nat)
  | Clear (id : Nat)
  | KFree (id : Nat)
  | KHeapFree (id : Nat)
  | KRealloc (id size : Nat)
  | SysHeapRealloc (id : Nat)
  | Write (id offset : Nat) (byte : UInt8)

-- An input with what sys_heap writes to memory on the way.
structure Turn (H : Type*) where
  input : Input H
  noise : Nat → Nat → UInt8

-- From zephyr/gale_heap.c.
def sysHeapNoalignAlloc (cfg : Heap.Config) (s : ZHeap) (_align bytes : Nat) : ZHeap × Nat :=
  s.sysHeapAlloc cfg bytes

def sysHeapAlignedAlloc (cfg : Heap.Config) (s : ZHeap) (align bytes : Nat) : ZHeap × Nat :=
  s.sysHeapAlignedAlloc cfg align bytes

-- From zephyr/gale_mempool.c.
namespace State

variable {H : Type*} [DecidableEq H] (m : Machine H)

def set (s : State H) (id : Nat) (block : Option (Block H)) : State H :=
  { s with blocks := Function.update s.blocks id block }

def called (s : State H) (heap : H) (next : ZHeap) (memory : Nat → UInt8) : State H :=
  { s with
    heaps := Function.update s.heaps heap next
    memory := memory }

-- Up to the decision; a failed assertion has no result.
def zAllocHelper (s : State H) (id : Nat) (heap : H) (align size : Nat)
    (sysHeapAllocator : Heap.Config → ZHeap → Nat → Nat → ZHeap × Nat) (zeroed : Bool)
    (noise : Nat → Nat → UInt8) : Option (State H) :=
  if align &&& (align - 1) = 0 then
    match checkedAdd m.sizeMax size m.sizeofRef with
    | none => some s
    | some total =>
      let (next, mem) := sysHeapAllocator m.heap (s.heaps heap) (align ||| m.sizeofRef) total
      let s := s.called heap next (ZHeap.settle m.heap (s.heaps heap) next (noise 0) s.memory)
      match allocActionDecide (mem ≠ 0) with
      | .ReturnNull => some s
      | .ReturnPtr => some (s.set id (some
          { heap := heap, mem := mem, bytes := size, align := max align 1, ptr := 0,
            data := fun _ => 0, stage := .Taken zeroed }))
  else none

-- The functions of the system heap are there if it is.
def kAlignedAlloc (s : State H) (id align size : Nat) (noise : Nat → Nat → UInt8) : Option (State H) :=
  m.system.bind fun heap => s.zAllocHelper m id heap align size sysHeapAlignedAlloc false noise

def kMalloc (s : State H) (id size : Nat) (zeroed : Bool) (noise : Nat → Nat → UInt8) :
    Option (State H) :=
  m.system.bind fun heap => s.zAllocHelper m id heap 0 size sysHeapNoalignAlloc zeroed noise

def kCalloc (s : State H) (id nmemb size : Nat) (noise : Nat → Nat → UInt8) : Option (State H) :=
  match checkedMul m.sizeMax nmemb size with
  | none => some s
  | some bounds => s.kMalloc m id bounds true noise

def zThreadAllocHelper (s : State H) (id : Nat) (context : Context H) (align size : Nat)
    (sysHeapAllocator : Heap.Config → ZHeap → Nat → Nat → ZHeap × Nat)
    (noise : Nat → Nat → UInt8) : Option (State H) :=
  match if context.inIsr then m.system else context.resourcePool with
  | some heap => s.zAllocHelper m id heap align size sysHeapAllocator false noise
  | none => some s

def alloc (s : State H) (id : Nat) (noise : Nat → Nat → UInt8) : Request H → Option (State H)
  | .KMalloc size => s.kMalloc m id size false noise
  | .KCalloc nmemb size => s.kCalloc m id nmemb size noise
  | .KAlignedAlloc align size => s.kAlignedAlloc m id align size noise
  | .ZThreadMalloc context size =>
    s.zThreadAllocHelper m id context 0 size sysHeapNoalignAlloc noise
  | .ZThreadAlignedAlloc context align size =>
    s.zThreadAllocHelper m id context align size sysHeapAlignedAlloc noise
  | .KReallocNull size => if size = 0 then some s else s.kMalloc m id size false noise

-- *heap_ref = heap; mem = ++heap_ref
def storeRef (s : State H) (id : Nat) (block : Block H) : Option (State H) :=
  match block.stage with
  | .Taken zeroed =>
    let memory := store s.memory block.mem (m.encode block.heap)
    let ptr := block.mem + m.sizeofRef
    some ({ s with memory := memory }.set id (some { block with
      ptr := ptr
      data := fun i => memory (ptr + i)
      stage := if zeroed then .Uncleared else .Live }))
  | _ => none

-- memset(ret, 0, bounds)
def clear (s : State H) (id : Nat) (block : Block H) : Option (State H) :=
  match block.stage with
  | .Uncleared =>
    some ({ s with memory := store s.memory block.ptr fun _ : Fin block.bytes => 0 }.set id
      (some { block with data := fun _ => 0, stage := .Live }))
  | _ => none

-- *heap_ref, of the pointer that --heap_ref gives
def owner (s : State H) (ref : Nat) : H := m.decode (load s.memory ref m.sizeofRef)

def kFree (s : State H) (id : Nat) (block : Block H) : Option (State H) :=
  match block.stage with
  | .Live =>
    if block.ptr ≠ 0 then
      let ref := block.ptr - m.sizeofRef
      some (s.set id (some { block with stage := .Freeing (s.owner m ref) ref }))
    else some s
  | _ => none

def kHeapFree (s : State H) (id : Nat) (block : Block H) (noise : Nat → Nat → UInt8) :
    Option (State H) :=
  match block.stage with
  | .Freeing owner ref =>
    let next := (s.heaps owner).sysHeapFree m.heap ref
    some ((s.called owner next
      (ZHeap.settle m.heap (s.heaps owner) next (noise 0) s.memory)).set id none)
  | _ => none

def kRealloc (s : State H) (id : Nat) (block : Block H) (size : Nat)
    (noise : Nat → Nat → UInt8) : Option (State H) :=
  match block.stage with
  | .Live =>
    if size = 0 then s.kFree m id block
    else if block.ptr = 0 then s.kMalloc m id size false noise
    else
      let ref := block.ptr - m.sizeofRef
      match checkedAdd m.sizeMax size m.sizeofRef with
      | none => some s
      | some total => some (s.set id (some
          { block with stage := .Reallocating (s.owner m ref) ref size total }))
  | _ => none

-- If NULL is returned, the caller still has its block.
def sysHeapRealloc (s : State H) (id : Nat) (block : Block H) (noise : Nat → Nat → UInt8) :
    Option (State H) :=
  match block.stage with
  | .Reallocating owner ref size total =>
    let (next, memory, ret) :=
      (s.heaps owner).sysHeapReallocBytes m.heap s.memory noise ref total
    let s := s.called owner next memory
    if ret ≠ 0 then
      let ptr := ret + m.sizeofRef
      some (s.set id (some { block with
        mem := ret
        bytes := size
        align := 1
        ptr := ptr
        data := fun i => if i < min block.bytes size then block.data i else memory (ptr + i)
        stage := .Live }))
    else some (s.set id (some { block with stage := .Live }))
  | _ => none

def write (s : State H) (id : Nat) (block : Block H) (offset : Nat) (byte : UInt8) : Option (State H) :=
  match block.stage with
  | .Live =>
    if offset < block.bytes then
      some ({ s with memory := Function.update s.memory (block.ptr + offset) byte }.set id
        (some { block with data := Function.update block.data offset byte }))
    else none
  | _ => none

end State

def step {H : Type*} [DecidableEq H] (m : Machine H) (s : State H) (turn : Turn H) : Option (State H) :=
  match turn.input with
  | .Alloc id request =>
    if (s.blocks id).isNone then s.alloc m id turn.noise request else none
  | .StoreRef id => (s.blocks id).bind (s.storeRef m id)
  | .Clear id => (s.blocks id).bind (s.clear id)
  | .KFree id => (s.blocks id).bind (s.kFree m id)
  | .KHeapFree id => (s.blocks id).bind fun block => s.kHeapFree m id block turn.noise
  | .KRealloc id size => (s.blocks id).bind fun block => s.kRealloc m id block size turn.noise
  | .SysHeapRealloc id => (s.blocks id).bind fun block => s.sysHeapRealloc m id block turn.noise
  | .Write id offset byte => (s.blocks id).bind fun block => s.write id block offset byte

end Gale.Mempool
