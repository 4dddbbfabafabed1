import Gale.Lib.Bits

namespace Gale.Executor

open Lib

def MAX_TASKS : Nat := 8

abbrev Slot := Fin MAX_TASKS

def INVALID : UInt32 := 0xFFFFFFFF

def U64_MAX : UInt64 := 0xFFFFFFFFFFFFFFFF

inductive TaskState where
  | Free
  | Pending
  | Done
  deriving DecidableEq, Repr

-- A deadline of U64_MAX stands for no timer. Bit i of ready belongs to slot i.
structure Tasks where
  state : Slot → TaskState
  prio : Slot → UInt32
  deadline : Slot → UInt64
  ready : UInt32

def slot? (h : UInt32) : Option Slot :=
  if hlt : h.toNat < MAX_TASKS then some ⟨h.toNat, hlt⟩ else none

namespace Tasks

def new : Tasks where
  state := fun _ => .Free
  prio := fun _ => 0
  deadline := fun _ => U64_MAX
  ready := 0

def readyBit (t : Tasks) (i : Slot) : Bool := Bits.isSet t.ready i.val

def admitTask (t : Tasks) (prio : UInt32) : Tasks × UInt32 :=
  match (List.finRange MAX_TASKS).find? fun i => t.state i = .Free with
  | some i =>
    ({ t with
      state := Function.update t.state i .Pending
      prio := Function.update t.prio i prio
      ready := Bits.clear t.ready i.val }, i.val.toUInt32)
  | none => (t, INVALID)

def wake (t : Tasks) (h : UInt32) : Tasks :=
  match slot? h with
  | some i => if t.state i = .Pending then { t with ready := Bits.set t.ready i.val } else t
  | none => t

def better (t : Tasks) (best : Option Slot) (i : Slot) : Option Slot :=
  if t.readyBit i then
    match best with
    | none => some i
    | some b => if t.prio i < t.prio b then some i else best
  else best

-- No slot stands for the returned MAX_TASKS.
def pickNext (t : Tasks) : Option Slot := (List.finRange MAX_TASKS).foldl t.better none

def setDeadline (t : Tasks) (h : UInt32) (d : UInt64) : Tasks :=
  match slot? h with
  | some i =>
    if t.state i = .Pending then { t with deadline := Function.update t.deadline i d } else t
  | none => t

def sleptStatus (t : Tasks) (h : UInt32) (now : UInt64) : UInt32 :=
  match slot? h with
  | some i => if now ≥ t.deadline i then 1 else 0
  | none => INVALID

def isDue (t : Tasks) (now : UInt64) (i : Slot) : Bool :=
  t.state i = .Pending && t.deadline i ≤ now

def expireSlot (now : UInt64) (t : Tasks) (i : Slot) : Tasks :=
  if t.isDue now i then { t with ready := Bits.set t.ready i.val } else t

def expire (t : Tasks) (now : UInt64) : Tasks :=
  (List.finRange MAX_TASKS).foldl (expireSlot now) t

def consume (t : Tasks) (i : Slot) : Tasks := { t with ready := Bits.clear t.ready i.val }

def dispatchOne (t : Tasks) (i : Slot) (done : UInt32) : Tasks :=
  if done = 1 then { t with state := Function.update t.state i .Done } else t

end Tasks

-- Any behaviour of poll_task: its answer may depend on every call made before.
abbrev PollTask := List Slot → Slot → UInt32

-- The loop of poll_round, with the calls of poll_task so far. Every turn takes
-- one ready bit away, so MAX_TASKS turns are enough.
def Tasks.pollLoop (pollTask : PollTask) : Nat → Tasks → List Slot → Tasks × List Slot
  | 0, t, calls => (t, calls)
  | fuel + 1, t, calls =>
    match t.pickNext with
    | none => (t, calls)
    | some i =>
      pollLoop pollTask fuel ((t.consume i).dispatchOne i (pollTask calls i)) (calls ++ [i])

def Tasks.pollRound (pollTask : PollTask) (t : Tasks) (calls : List Slot) : Tasks × List Slot :=
  t.pollLoop pollTask MAX_TASKS calls

end Gale.Executor
