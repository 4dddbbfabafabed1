import Gale.Kernel
import Gale.Lib.Run
import Gale.Lib.Slots

namespace Gale.Dynamic

open Lib

-- From src/dynamic.rs.
def allocDecide (active maxThreads : Nat) : Except Int Nat :=
  if active < maxThreads then .ok (active + 1) else .error ENOMEM

def freeDecide (active : Nat) : Except Int Nat :=
  if active > 0 then .ok (active - 1) else .error EINVAL

inductive AllocAction where
  | AllocOk
  | PoolFull

inductive FreeAction where
  | FreeOk
  | Underflow

structure AllocDecision where
  action : AllocAction
  newActive : Nat

structure FreeDecision where
  action : FreeAction
  newActive : Nat

def galeDynamicAllocDecide (active maxThreads : Nat) : AllocDecision :=
  match allocDecide active maxThreads with
  | .ok newActive => ⟨.AllocOk, newActive⟩
  | .error _ => ⟨.PoolFull, active⟩

def galeDynamicFreeDecide (active : Nat) : FreeDecision :=
  match freeDecide active with
  | .ok newActive => ⟨.FreeOk, newActive⟩
  | .error _ => ⟨.Underflow, 0⟩

-- CONFIG_DYNAMIC_THREAD_POOL_SIZE and CONFIG_DYNAMIC_THREAD_STACK_SIZE
structure Config where
  poolSize : Nat
  stackSize : Nat

variable (cfg : Config)

-- Where a call is between two accesses to the shared state: an allocation has read the
-- count, or has its slot and writes the count; a release has cleared its bit, or has
-- read the count and writes it.
inductive Pc where
  | AllocBit (d : AllocDecision)
  | AllocWrite (d : AllocDecision) (offset : Fin cfg.poolSize)
  | FreeRead
  | FreeWrite (d : FreeDecision)

-- gale_pool_active and dynamic_ba, with the calls in progress and what the allocations
-- that are over returned.
structure State where
  galePoolActive : Nat
  dynamicBa : Fin cfg.poolSize → Bool
  calls : List (Tid × Pc cfg)
  returned : List (Tid × Option (Fin cfg.poolSize))

def init : State cfg where
  galePoolActive := 0
  dynamicBa := fun _ => false
  calls := []
  returned := []

variable {cfg}

namespace State

variable (s : State cfg) (thread : Tid)

def call : Option (Pc cfg) := s.calls.lookup thread

def begins (pc : Pc cfg) : State cfg := { s with calls := s.calls ++ [(thread, pc)] }

def goes (pc : Pc cfg) : State cfg :=
  { s with calls := s.calls.map fun c => if c.1 = thread then (thread, pc) else c }

def ends : State cfg := { s with calls := s.calls.filter (·.1 ≠ thread) }

def returns (stack : Option (Fin cfg.poolSize)) : State cfg :=
  { s with returned := s.returned ++ [(thread, stack)] }

end State

-- Each read and write of gale_pool_active and each call of the bit array is a step.
inductive Op (cfg : Config) where
  | AllocRead (thread : Tid) (size : Nat)
  | AllocBit (thread : Tid)
  | AllocWrite (thread : Tid)
  | FreeBit (thread : Tid) (offset : Fin cfg.poolSize)
  | FreeRead (thread : Tid)
  | FreeWrite (thread : Tid)

-- z_thread_stack_alloc_pool, which is called only if there is a pool, and the part of
-- z_impl_k_thread_stack_free for a stack of the pool that no thread uses.
def step (s : State cfg) : Op cfg → Option (State cfg)
  | .AllocRead thread size =>
    if s.call thread = none ∧ cfg.poolSize > 0 then
      if size > cfg.stackSize then some (s.returns thread none)
      else
        let d := galeDynamicAllocDecide s.galePoolActive cfg.poolSize
        match d.action with
        | .PoolFull => some (s.returns thread none)
        | .AllocOk => some (s.begins thread (.AllocBit d))
    else none
  | .AllocBit thread =>
    match s.call thread with
    | some (.AllocBit d) =>
      match Slots.first fun i => !s.dynamicBa i with
      | none => some ((s.ends thread).returns thread none)
      | some offset =>
        some ({ s with dynamicBa := Function.update s.dynamicBa offset true }.goes thread
          (.AllocWrite d offset))
    | _ => none
  | .AllocWrite thread =>
    match s.call thread with
    | some (.AllocWrite d offset) =>
      some (({ s with galePoolActive := d.newActive }.ends thread).returns thread (some offset))
    | _ => none
  | .FreeBit thread offset =>
    if s.call thread = none then
      if s.dynamicBa offset then
        some ({ s with dynamicBa := Function.update s.dynamicBa offset false }.begins thread .FreeRead)
      else some s
    else none
  | .FreeRead thread =>
    match s.call thread with
    | some .FreeRead =>
      let d := galeDynamicFreeDecide s.galePoolActive
      match d.action with
      | .FreeOk => some (s.goes thread (.FreeWrite d))
      | .Underflow => some (s.ends thread)
    | _ => none
  | .FreeWrite thread =>
    match s.call thread with
    | some (.FreeWrite d) => some ({ s with galePoolActive := d.newActive }.ends thread)
    | _ => none

end Gale.Dynamic
