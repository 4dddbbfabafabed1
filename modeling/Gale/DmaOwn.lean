import Mathlib
namespace Gale.DmaOwn

inductive Owner where
  | Wasm
  | Dma

inductive Barrier where
  | CleanDsb
  | InvalidateDmb

def Barrier.code : Barrier → UInt32
  | .CleanDsb => 0
  | .InvalidateDmb => 1

inductive Fault where
  | NotWasmOwned
  | NotDmaOwned

def start : Owner → Except Fault (Owner × Barrier)
  | .Wasm => .ok (.Dma, .CleanDsb)
  | .Dma => .error .NotWasmOwned

def complete : Owner → Except Fault (Owner × Barrier)
  | .Dma => .ok (.Wasm, .InvalidateDmb)
  | .Wasm => .error .NotDmaOwned

def abort (_ : Owner) : Owner × Barrier := (.Wasm, .InvalidateDmb)

def enc : Owner → UInt32
  | .Wasm => 0
  | .Dma => 1

def dec (s : UInt32) : Owner := if s = 0 then .Wasm else .Dma

def XFER_FAULT : UInt32 := 0xFFFFFFFF

-- What crosses the trusted seam, in order. Transfers are numbered as they are
-- programmed.
inductive Act where
  | Barrier (op : UInt32)
  | Program (transfer : Nat) (channel len : UInt32)
  | Complete (transfer : Nat)

-- The engine of one channel, seen from the seam: a transfer is active from the
-- write of its descriptor until its completion interrupt is reported.
structure Seam where
  programmed : Nat
  active : List Nat
  trace : List Act

namespace Seam

def idle : Seam where
  programmed := 0
  active := []
  trace := []

def dmaProgram (seam : Seam) (channel len : UInt32) : Seam where
  programmed := seam.programmed + 1
  active := seam.active ++ [seam.programmed]
  trace := seam.trace ++ [.Program seam.programmed channel len]

def dmaBarrier (seam : Seam) (op : UInt32) : Seam :=
  { seam with trace := seam.trace ++ [.Barrier op] }

-- Reports and clears the interrupts of the transfers that finished since the
-- last poll. The engine finishes active transfers only, in any order it likes.
def dmaIrqPoll (seam : Seam) (finished : List Nat) : UInt32 × Seam :=
  let done := seam.active.filter (· ∈ finished)
  (if done.isEmpty then 0 else 1, { seam with
      active := seam.active.filter (· ∉ finished)
      trace := seam.trace ++ done.map .Complete })

end Seam

def dmaStart (seam : Seam) (state channel len : UInt32) : UInt32 × Seam :=
  match start (dec state) with
  | .ok (next, bar) => (enc next, (seam.dmaBarrier bar.code).dmaProgram channel len)
  | .error _ => (XFER_FAULT, seam)

-- The seam is that of the channel the source passes on to the poll.
def dmaPollComplete (seam : Seam) (state : UInt32) (finished : List Nat) : UInt32 × Seam :=
  let (fired, seam) := seam.dmaIrqPoll finished
  if fired = 0 then (state, seam)
  else
    match complete (dec state) with
    | .ok (next, bar) => (enc next, seam.dmaBarrier bar.code)
    | .error _ => (XFER_FAULT, seam)

-- The channel argument is not read: nothing of the abort reaches the engine.
def dmaAbort (seam : Seam) (state _channel : UInt32) : UInt32 × Seam :=
  let (next, bar) := abort (dec state)
  (enc next, seam.dmaBarrier bar.code)

end Gale.DmaOwn
