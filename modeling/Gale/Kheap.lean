import Gale.Heap.Blocks
import Gale.Lib.Run

namespace Gale.Kheap

open Lib Heap

-- From src/kheap.rs.
inductive KheapAllocAction where
  | ReturnPtr
  | Pend
  | ReturnNull
  deriving DecidableEq, Repr

def allocActionDecide (allocSucceeded isNoWait : Bool) : KheapAllocAction :=
  if allocSucceeded then .ReturnPtr else if isNoWait then .ReturnNull else .Pend

structure Config where
  heap : Heap.Config
  multithreading : Bool

inductive Request where
  | Alloc (bytes : Nat)
  | AlignedAlloc (align bytes : Nat)
  | Realloc (ptr bytes : Nat)

-- A call in its loop; timeout is the variable. For k_heap_realloc, given is the live
-- block it was called with and frees counts the releases of it so far.
structure Call where
  request : Request
  timeout : Timeout
  given : Option Block
  frees : Nat

inductive Status where
  | Pended
  | Woken

-- A k_heap_realloc of a live block that returned, and whether the block is live then.
structure Reallocated where
  given : Block
  frees : Nat
  ret : Nat
  live : Bool

-- One k_heap; lent has the blocks that k_heap_realloc calls in progress own.
structure State where
  memory : Session
  waitQ : List Tid
  calls : Tid → Option (Call × Status)
  lent : List Nat
  log : List Reallocated

def init (heap : ZHeap) : State where
  memory := ⟨heap, []⟩
  waitQ := []
  calls := fun _ => none
  lent := []
  log := []

-- sys_timepoint_timeout(end); how much is left matters only if it is nothing.
def sysTimepointTimeout (timeout : Timeout) (expired : Bool) : Timeout :=
  match timeout with
  | .Forever => .Forever
  | .Ticks n => if expired then K_NO_WAIT else .Ticks n

namespace Request

def attempt (cfg : Heap.Config) (m : Session) : Request → Session × Nat
  | .Alloc bytes => m.alloc cfg bytes
  | .AlignedAlloc align bytes => m.alignedAlloc cfg align bytes
  | .Realloc ptr bytes => m.realloc cfg ptr bytes

def frees (cfg : Heap.Config) (m : Session) : Request → Nat
  | .Realloc ptr bytes => m.heap.reallocFrees cfg ptr bytes
  | _ => 0

def ptr : Request → Nat
  | .Realloc ptr _ => ptr
  | _ => 0

-- The way out of the loop: z_heap_alloc_helper asks for a decision, k_heap_realloc
-- tests the condition itself.
def leaves (ret : Nat) (isNoWait : Bool) : Request → Bool
  | .Realloc _ _ => isNoWait
  | _ => allocActionDecide (ret ≠ 0) isNoWait ≠ .Pend

end Request

namespace State

def live (s : State) (ptr : Nat) : Bool := ptr ∈ s.memory.live.map Block.ptr

def returns (s : State) (thread : Tid) (call : Call) (ret : Nat) : State :=
  { s with
    calls := Function.update s.calls thread none
    log := match call.given with
      | some block => s.log ++ [⟨block, call.frees, ret, block ∈ s.memory.live⟩]
      | none => s.log }

-- z_pend_curr
def pend (s : State) (thread : Tid) (call : Call) (expired : Bool) : State :=
  let call := { call with timeout := sysTimepointTimeout call.timeout expired }
  { s with
    waitQ := s.waitQ ++ [thread]
    calls := Function.update s.calls thread (some (call, .Pended))
    lent := if call.given.isSome ∧ call.frees = 0 then call.request.ptr :: s.lent else s.lent }

variable (cfg : Config)

-- One turn of the loop of z_heap_alloc_helper or k_heap_realloc, under the lock.
def turn (s : State) (thread : Tid) (call : Call) (expired : Bool) : State :=
  let (memory, ret) := call.request.attempt cfg.heap s.memory
  let isNoWait := !cfg.multithreading || ret ≠ 0 || call.timeout.isNoWait
  let call := { call with frees := call.frees + call.request.frees cfg.heap s.memory }
  let s := { s with memory := memory }
  if call.request.leaves ret isNoWait then s.returns thread call ret
  else s.pend thread call expired

-- z_unpend_all
def unpendAll (s : State) : State :=
  { s with
    waitQ := []
    calls := fun thread =>
      if thread ∈ s.waitQ then (s.calls thread).map fun c => (c.1, .Woken) else s.calls thread }

-- Whether it reschedules or only unlocks is up to the scheduler.
def kHeapFree (s : State) (mem : Nat) : State :=
  let s := { s with memory := s.memory.free cfg.heap mem }
  if cfg.multithreading then s.unpendAll else s

def timeOut (s : State) (thread : Tid) (call : Call) : State :=
  { s with
    waitQ := s.waitQ.erase thread
    calls := Function.update s.calls thread (some (call, .Woken)) }

def retry (s : State) (thread : Tid) (call : Call) (expired : Bool) : State :=
  let lent := if call.given.isSome ∧ call.frees = 0 then s.lent.erase call.request.ptr else s.lent
  { s with lent := lent }.turn cfg thread call expired

end State

-- The expired flags say whether the time limit has passed when a call pends.
inductive Op where
  | Alloc (thread : Tid) (bytes : Nat) (timeout : Timeout) (expired : Bool)
  | AlignedAlloc (thread : Tid) (align bytes : Nat) (timeout : Timeout) (expired : Bool)
  | Realloc (thread : Tid) (ptr bytes : Nat) (timeout : Timeout) (expired : Bool)
  | Free (thread : Tid) (mem : Nat)
  | TimeOut (thread : Tid)
  | Retry (thread : Tid) (expired : Bool)

-- Callers pass NULL or a live block that no call in progress owns. What a second
-- release of memory that is not live would do is not modelled: nothing says what
-- the header there holds by then.
def step (cfg : Config) (s : State) : Op → Option State
  | .Alloc thread bytes timeout expired =>
    if s.calls thread = none then some (s.turn cfg thread ⟨.Alloc bytes, timeout, none, 0⟩ expired)
    else none
  | .AlignedAlloc thread align bytes timeout expired =>
    if s.calls thread = none ∧ align &&& (align - 1) = 0 then
      some (s.turn cfg thread ⟨.AlignedAlloc align bytes, timeout, none, 0⟩ expired)
    else none
  | .Realloc thread ptr bytes timeout expired =>
    if s.calls thread = none ∧ (ptr = 0 ∨ s.live ptr ∧ ptr ∉ s.lent) then
      let given := s.memory.live.find? (·.ptr = ptr)
      some (s.turn cfg thread ⟨.Realloc ptr bytes, timeout, given, 0⟩ expired)
    else none
  | .Free thread mem =>
    if s.calls thread = none ∧ (mem = 0 ∨ s.live mem ∧ mem ∉ s.lent) then
      some (s.kHeapFree cfg mem)
    else none
  | .TimeOut thread =>
    match s.calls thread with
    | some (call, .Pended) =>
      if call.timeout ≠ K_FOREVER then some (s.timeOut thread call) else none
    | _ => none
  | .Retry thread expired =>
    match s.calls thread with
    | some (call, .Woken) =>
      if call.request.ptr = 0 ∨ s.live call.request.ptr then
        some (s.retry cfg thread call expired)
      else none
    | _ => none

end Gale.Kheap
