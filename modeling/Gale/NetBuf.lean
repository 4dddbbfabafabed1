import Gale.Kernel
import Gale.Lib.Checked

namespace Gale

open Lib

-- From src/net_buf.rs. The crate is built with overflow checks: none stands for a panic.
structure NetBufPool where
  capacity : Nat
  allocated : Nat

structure NetBuf where
  size : Nat
  headOffset : Nat
  len : Nat
  refCount : Nat

namespace NetBuf

def U8_MAX : Nat := 255
def U16_MAX : Nat := 65535

end NetBuf

namespace NetBufPool

open NetBuf

def init (capacity : Nat) : Except Int NetBufPool :=
  if capacity = 0 then .error EINVAL else .ok ⟨capacity, 0⟩

def alloc (p : NetBufPool) : Option (Int × NetBufPool) :=
  if p.allocated < p.capacity then do
    let allocated ← checkedAdd U16_MAX p.allocated 1
    return (OK, { p with allocated := allocated })
  else some (ENOMEM, p)

def free (p : NetBufPool) : Option (Int × NetBufPool) :=
  if p.allocated > 0 then do
    let allocated ← checkedSub p.allocated 1
    return (OK, { p with allocated := allocated })
  else some (EINVAL, p)

end NetBufPool

namespace NetBuf

def init (size : Nat) : Except Int NetBuf :=
  if size = 0 then .error EINVAL else .ok ⟨size, 0, 0, 1⟩

def reset (b : NetBuf) (reserve : Nat) : Int × NetBuf :=
  if reserve > b.size then (EINVAL, b) else (OK, { b with headOffset := reserve, len := 0 })

def refGet (b : NetBuf) : Option (Int × NetBuf) :=
  if b.refCount < U8_MAX then do
    let refCount ← checkedAdd U8_MAX b.refCount 1
    return (OK, { b with refCount := refCount })
  else some (EOVERFLOW, b)

def unref (b : NetBuf) : Option (Bool × NetBuf) :=
  if b.refCount > 1 then do
    let refCount ← checkedSub b.refCount 1
    return (false, { b with refCount := refCount })
  else some (true, { b with refCount := 0 })

def add (b : NetBuf) (bytes : Nat) : Option (Int × NetBuf) := do
  let beyond ← checkedSub b.size b.headOffset
  let tailroom ← checkedSub beyond b.len
  if bytes > tailroom then
    return (ENOMEM, b)
  let len ← checkedAdd U16_MAX b.len bytes
  return (OK, { b with len := len })

def remove (b : NetBuf) (bytes : Nat) : Option (Int × NetBuf) :=
  if bytes > b.len then some (EINVAL, b)
  else do
    let len ← checkedSub b.len bytes
    return (OK, { b with len := len })

def push (b : NetBuf) (bytes : Nat) : Option (Int × NetBuf) :=
  if bytes > b.headOffset then some (EINVAL, b)
  else do
    let headOffset ← checkedSub b.headOffset bytes
    let len ← checkedAdd U16_MAX b.len bytes
    return (OK, { b with headOffset := headOffset, len := len })

def pull (b : NetBuf) (bytes : Nat) : Option (Int × NetBuf) :=
  if bytes > b.len then some (EINVAL, b)
  else do
    let headOffset ← checkedAdd U16_MAX b.headOffset bytes
    let len ← checkedSub b.len bytes
    return (OK, { b with headOffset := headOffset, len := len })

def allocDecide (allocated capacity : Nat) : Option (Except Int Nat) :=
  if allocated < capacity then (checkedAdd U16_MAX allocated 1).map .ok else some (.error ENOMEM)

def freeDecide (allocated : Nat) : Option (Except Int Nat) :=
  if allocated > 0 then (checkedSub allocated 1).map .ok else some (.error EINVAL)

def refDecide (refCount : Nat) : Option (Except Int Nat) :=
  if refCount < U8_MAX then (checkedAdd U8_MAX refCount 1).map .ok else some (.error EOVERFLOW)

def unrefDecide (refCount : Nat) : Option (Except Int (Nat × Bool)) :=
  if refCount = 0 then some (.error EINVAL)
  else (checkedSub refCount 1).map fun newRef => .ok (newRef, newRef == 0)

def addDecide (headOffset len size bytes : Nat) : Option (Except Int Nat) := do
  let beyond ← checkedSub size headOffset
  let tailroom ← checkedSub beyond len
  if bytes > tailroom then
    return .error ENOMEM
  (checkedAdd U16_MAX len bytes).map .ok

def removeDecide (len bytes : Nat) : Option (Except Int Nat) :=
  if bytes > len then some (.error EINVAL) else (checkedSub len bytes).map .ok

def pushDecide (headOffset len bytes : Nat) : Option (Except Int (Nat × Nat)) :=
  if bytes > headOffset then some (.error EINVAL)
  else do
    let newHead ← checkedSub headOffset bytes
    let newLen ← checkedAdd U16_MAX len bytes
    return .ok (newHead, newLen)

def pullDecide (headOffset len bytes : Nat) : Option (Except Int (Nat × Nat)) :=
  if bytes > len then some (.error EINVAL)
  else do
    let newHead ← checkedAdd U16_MAX headOffset bytes
    let newLen ← checkedSub len bytes
    return .ok (newHead, newLen)

inductive DataOp where
  | Reset (reserve : Nat)
  | Add (bytes : Nat)
  | Remove (bytes : Nat)
  | Push (bytes : Nat)
  | Pull (bytes : Nat)

structure Calls where
  alloc : NetBufPool → Option (Int × NetBufPool)
  free : NetBufPool → Option (Int × NetBufPool)
  refGet : NetBuf → Option (Int × NetBuf)
  unref : NetBuf → Option (Bool × NetBuf)
  data : DataOp → NetBuf → Option (Int × NetBuf)

def methods : Calls where
  alloc := NetBufPool.alloc
  free := NetBufPool.free
  refGet := NetBuf.refGet
  unref := NetBuf.unref
  data := fun op b =>
    match op with
    | .Reset reserve => some (b.reset reserve)
    | .Add bytes => b.add bytes
    | .Remove bytes => b.remove bytes
    | .Push bytes => b.push bytes
    | .Pull bytes => b.pull bytes

-- A decision is written back if it is one, and its error returned otherwise.
def writeBack {α β : Type} (decision : Except Int α) (before : β) (write : α → β) : Int × β :=
  match decision with
  | .ok new => (OK, write new)
  | .error e => (e, before)

-- A reset has no scalar form.
def decisions : Calls where
  alloc := fun p => (allocDecide p.allocated p.capacity).map fun d =>
    writeBack d p fun allocated => { p with allocated := allocated }
  free := fun p => (freeDecide p.allocated).map fun d =>
    writeBack d p fun allocated => { p with allocated := allocated }
  refGet := fun b => (refDecide b.refCount).map fun d =>
    writeBack d b fun refCount => { b with refCount := refCount }
  unref := fun b => (unrefDecide b.refCount).map fun d =>
    match d with
    | .ok (refCount, shouldFree) => (shouldFree, { b with refCount := refCount })
    | .error _ => (false, b)
  data := fun op b =>
    match op with
    | .Reset reserve => some (b.reset reserve)
    | .Add bytes => (addDecide b.headOffset b.len b.size bytes).map fun d =>
      writeBack d b fun len => { b with len := len }
    | .Remove bytes => (removeDecide b.len bytes).map fun d =>
      writeBack d b fun len => { b with len := len }
    | .Push bytes => (pushDecide b.headOffset b.len bytes).map fun d =>
      writeBack d b fun new => { b with headOffset := new.1, len := new.2 }
    | .Pull bytes => (pullDecide b.headOffset b.len bytes).map fun d =>
      writeBack d b fun new => { b with headOffset := new.1, len := new.2 }

-- One allocation: its buffer, who holds a reference to it, one entry for each reference,
-- and how often it went back to the pool.
structure Allocation where
  buf : NetBuf
  holders : List Nat
  returns : Nat

inductive Result where
  | Rc (rc : Int)
  | Kept
  | Freed (rc : Int)

structure State where
  pool : NetBufPool
  bufs : List Allocation
  results : List Result

def start (pool : NetBufPool) : State where
  pool := pool
  bufs := []
  results := []

namespace State

variable (c : Calls)

def alloc (s : State) (holder size : Nat) : Option State := do
  let (rc, pool) ← c.alloc s.pool
  if rc ≠ OK then
    return { s with pool := pool, results := s.results ++ [.Rc rc] }
  match NetBuf.init size with
  | .ok buf =>
    return { pool := pool, bufs := s.bufs ++ [⟨buf, [holder], 0⟩], results := s.results ++ [.Rc OK] }
  | .error e => return { s with pool := pool, results := s.results ++ [.Rc e] }

def refGet (s : State) (i : Nat) (a : Allocation) (holder : Nat) : Option State := do
  let (rc, buf) ← c.refGet a.buf
  let holders := if rc = OK then holder :: a.holders else a.holders
  return { s with
    bufs := s.bufs.set i { a with buf := buf, holders := holders }
    results := s.results ++ [.Rc rc] }

def unref (s : State) (i : Nat) (a : Allocation) (holder : Nat) : Option State := do
  let (shouldFree, buf) ← c.unref a.buf
  let holders := a.holders.erase holder
  if shouldFree then
    let (rc, pool) ← c.free s.pool
    let returns := if rc = OK then a.returns + 1 else a.returns
    return { pool := pool, bufs := s.bufs.set i ⟨buf, holders, returns⟩, results := s.results ++ [.Freed rc] }
  return { s with bufs := s.bufs.set i ⟨buf, holders, a.returns⟩, results := s.results ++ [.Kept] }

def data (s : State) (i : Nat) (a : Allocation) (op : DataOp) : Option State := do
  let (rc, buf) ← c.data op a.buf
  return { s with bufs := s.bufs.set i { a with buf := buf }, results := s.results ++ [.Rc rc] }

def held (s : State) (i holder : Nat) : Option Allocation :=
  s.bufs[i]?.filter fun a => holder ∈ a.holders

end State

inductive Op where
  | Alloc (holder size : Nat)
  | RefGet (i holder another : Nat)
  | Unref (i holder : Nat)
  | Data (i holder : Nat) (op : DataOp)

def step (c : Calls) (s : State) : Op → Option State
  | .Alloc holder size => if size ≤ U16_MAX then s.alloc c holder size else none
  | .RefGet i holder another => (s.held i holder).bind fun a => s.refGet c i a another
  | .Unref i holder => (s.held i holder).bind fun a => s.unref c i a holder
  | .Data i holder op => (s.held i holder).bind fun a => s.data c i a op

end NetBuf

end Gale
