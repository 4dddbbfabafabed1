import Mathlib

namespace Gale.PartitionSwitch

abbrev MAX_WINDOWS : Nat := 4

inductive SwPhase where
  | Running
  | SaveCtx
  | ProgramRegions
  | Resume
  deriving DecidableEq, Repr

structure MajorFrame where
  partitionId : Fin MAX_WINDOWS → UInt32
  offset : Fin MAX_WINDOWS → UInt32
  budget : Fin MAX_WINDOWS → UInt32
  frameLen : UInt32

namespace MajorFrame

def check (f : MajorFrame) : Bool :=
  f.offset 0 = 0 &&
    f.budget 0 > 0 &&
    f.budget 1 > 0 &&
    f.budget 2 > 0 &&
    f.budget 3 > 0 &&
    (f.offset 0).toUInt64 + (f.budget 0).toUInt64 = (f.offset 1).toUInt64 &&
    (f.offset 1).toUInt64 + (f.budget 1).toUInt64 = (f.offset 2).toUInt64 &&
    (f.offset 2).toUInt64 + (f.budget 2).toUInt64 = (f.offset 3).toUInt64 &&
    (f.offset 3).toUInt64 + (f.budget 3).toUInt64 = f.frameLen.toUInt64

def currentWindow (f : MajorFrame) (t : UInt32) : Fin MAX_WINDOWS :=
  if t < f.offset 1 then 0
  else if t < f.offset 2 then 1
  else if t < f.offset 3 then 2
  else 3

end MajorFrame

structure Switcher where
  frame : MajorFrame
  cur : Fin MAX_WINDOWS
  phase : SwPhase
  swapped : Bool

inductive Seam where
  | CtxSave (part : UInt32)
  | RegionSwap (part : UInt32)
  | CtxResume (part : UInt32)
  deriving DecidableEq, Repr

def nextWindow (cur : Fin MAX_WINDOWS) : Fin MAX_WINDOWS :=
  if h : cur.val + 1 = MAX_WINDOWS then 0 else ⟨cur.val + 1, by have := cur.isLt; omega⟩

namespace Switcher

def new (frame : MajorFrame) : Switcher where
  frame := frame
  cur := 0
  phase := .Running
  swapped := false

def tick (s : Switcher) (t : UInt32) : Bool × Switcher :=
  if s.phase = .Running then
    let windowEnd := s.frame.offset s.cur + s.frame.budget s.cur
    if t = windowEnd - 1 then
      (true, { s with phase := .SaveCtx, swapped := false })
    else (false, s)
  else (false, s)

def markSaved (s : Switcher) : Bool × Switcher :=
  if s.phase = .SaveCtx then (true, { s with phase := .ProgramRegions }) else (false, s)

def markSwapped (s : Switcher) : Bool × Switcher :=
  if s.phase = .ProgramRegions then (true, { s with phase := .Resume, swapped := true })
  else (false, s)

def markResumed (s : Switcher) : Bool × Switcher :=
  if s.phase = .Resume then (true, { s with phase := .Running, cur := nextWindow s.cur })
  else (false, s)

def runSwitch (s : Switcher) : Switcher × List Seam :=
  let outgoing := s.frame.partitionId s.cur
  let next := nextWindow s.cur
  let incoming := s.frame.partitionId next
  let saved := s.markSaved.2
  let swapped := saved.markSwapped.2
  let resumed := swapped.markResumed.2
  (resumed, [.CtxSave outgoing, .RegionSwap incoming, .CtxResume incoming])

end Switcher

-- One timer tick of the embedder: run_switch at once whenever tick asks for it.
def onTick (state : Switcher × List Seam) (t : UInt32) : Switcher × List Seam :=
  match state.1.tick t with
  | (true, s) => (s.runSwitch.1, state.2 ++ s.runSwitch.2)
  | (false, s) => (s, state.2)

def drive (frame : MajorFrame) : Nat → Switcher × List Seam
  | 0 => (Switcher.new frame, [])
  | n + 1 => onTick (drive frame n) (UInt32.ofNat (n % frame.frameLen.toNat))

end Gale.PartitionSwitch
