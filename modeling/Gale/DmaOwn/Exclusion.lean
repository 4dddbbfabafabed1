import Gale.DmaOwn
import Gale.Lib.Run

namespace Gale.DmaOwn

open Lib

inductive Call where
  | Start (len : UInt32)
  | PollComplete (finished : List Nat)
  | Abort

structure Channel where
  word : UInt32
  seam : Seam

inductive Phase where
  | Outside
  | Cleaned
  | Active (transfer : Nat)
  | Finished

-- One action at the seam, read against the barriers that enclose an active
-- period. Outside a period the invalidate may be repeated: an abort emits it
-- in any state.
def bracket : Phase → Act → Option Phase
  | .Outside, .Barrier op =>
    if op = Barrier.CleanDsb.code then some .Cleaned
    else if op = Barrier.InvalidateDmb.code then some .Outside
    else none
  | .Cleaned, .Program transfer _ _ => some (.Active transfer)
  | .Active transfer, .Complete other => if transfer = other then some .Finished else none
  | .Finished, .Barrier op =>
    if op = Barrier.InvalidateDmb.code then some .Outside else none
  | _, _ => none

-- Every active period has the clean before it, the invalidate after it and no
-- barrier inside.
def Bracketed (trace : List Act) : Prop := (run bracket .Outside trace).isSome

namespace Channel

def init : Channel where
  word := enc .Wasm
  seam := .idle

def kept (c : Channel) (result : UInt32 × Seam) : Channel where
  word := if result.1 = XFER_FAULT then c.word else result.1
  seam := result.2

def step (channel : UInt32) (c : Channel) : Call → Option Channel
  | .Start len => some (c.kept (dmaStart c.seam c.word channel len))
  | .PollComplete finished => some (c.kept (dmaPollComplete c.seam c.word finished))
  | .Abort => some (c.kept (dmaAbort c.seam c.word channel))

def Exclusive (c : Channel) : Prop :=
  (dec c.word = .Wasm → c.seam.active = []) ∧ Bracketed c.seam.trace

def AbortsIdle (c : Channel) : Call → Prop
  | .Abort => c.seam.active = []
  | _ => True

inductive Inv (c : Channel) : Prop where
  | Idle (hword : c.word = enc .Wasm) (hactive : c.seam.active = [])
      (htrace : run bracket .Outside c.seam.trace = some .Outside)
  | Busy (transfer : Nat) (hword : c.word = enc .Dma) (hactive : c.seam.active = [transfer])
      (htrace : run bracket .Outside c.seam.trace = some (.Active transfer))

variable {c : Channel} {seam : Seam} {ch : UInt32} {call : Call}

theorem Inv.exclusive (h : c.Inv) : c.Exclusive := by
  cases h with
  | Idle hw ha ht => exact ⟨fun _ => ha, by simp [Bracketed, ht]⟩
  | Busy transfer hw ha ht =>
    refine ⟨fun hd => ?_, by simp [Bracketed, ht]⟩
    rw [hw] at hd
    cases hd

theorem bracket_append {trace : List Act} {phase next : Phase} {acts : List Act}
    (h : run bracket .Outside trace = some phase) (ha : run bracket phase acts = some next) :
    run bracket .Outside (trace ++ acts) = some next :=
  run_append_eq_some.mpr ⟨phase, h, ha⟩

theorem Inv.start (h : c.Inv) (ch len : UInt32) : (c.kept (dmaStart c.seam c.word ch len)).Inv := by
  cases h with
  | Idle hw ha ht =>
    refine .Busy c.seam.programmed ?_ ?_ ?_
    · rw [hw]
      rfl
    · rw [hw]
      simp [kept, dmaStart, dec, enc, DmaOwn.start, Seam.dmaProgram, Seam.dmaBarrier, ha]
    · rw [hw]
      simp only [kept, dmaStart, dec, enc, DmaOwn.start, if_true, Seam.dmaProgram, Seam.dmaBarrier, List.append_assoc]
      exact bracket_append ht rfl
  | Busy transfer hw ha ht =>
    have hr : dmaStart c.seam c.word ch len = (XFER_FAULT, c.seam) := by
      rw [hw]
      rfl
    rw [hr]
    exact .Busy transfer hw ha ht

theorem dmaIrqPoll_idle (h : seam.active = []) (fd : List Nat) : seam.dmaIrqPoll fd = (0, seam) := by
  obtain ⟨programmed, active, trace⟩ := seam
  subst h
  simp [Seam.dmaIrqPoll]

theorem dmaIrqPoll_single {transfer : Nat} (h : seam.active = [transfer]) (fd : List Nat) : seam.dmaIrqPoll fd =
      if transfer ∈ fd then
        (1, { seam with active := [], trace := seam.trace ++ [.Complete transfer] })
      else (0, seam) := by
  obtain ⟨programmed, active, trace⟩ := seam
  subst h
  by_cases hf : transfer ∈ fd
  · simp [Seam.dmaIrqPoll, hf]
  · simp [Seam.dmaIrqPoll, hf]

theorem Inv.pollComplete (h : c.Inv) (fd : List Nat) : (c.kept (dmaPollComplete c.seam c.word fd)).Inv := by
  cases h with
  | Idle hw ha ht =>
    have hq : dmaPollComplete c.seam c.word fd = (c.word, c.seam) := by
      simp [dmaPollComplete, dmaIrqPoll_idle ha]
    rw [hq]
    exact .Idle (by rw [hw]; rfl) ha ht
  | Busy transfer hw ha ht =>
    by_cases hf : transfer ∈ fd
    · have hd : dmaPollComplete c.seam c.word fd = (enc .Wasm, { c.seam with
            active := []
            trace := c.seam.trace ++ [.Complete transfer, .Barrier Barrier.InvalidateDmb.code] }) := by
        simp [dmaPollComplete, dmaIrqPoll_single ha, hf, hw, dec, enc, complete, Seam.dmaBarrier]
      rw [hd]
      exact .Idle rfl rfl (bracket_append ht (by simp [run, bracket]))
    · have hq : dmaPollComplete c.seam c.word fd = (c.word, c.seam) := by
        simp [dmaPollComplete, dmaIrqPoll_single ha, hf]
      rw [hq]
      exact .Busy transfer (by rw [hw]; rfl) ha ht

theorem Inv.abort (h : c.Inv) (ch : UInt32) (hi : c.seam.active = []) : (c.kept (dmaAbort c.seam c.word ch)).Inv := by
  cases h with
  | Idle hw ha ht => exact .Idle rfl ha (bracket_append ht rfl)
  | Busy transfer hw ha ht =>
    rw [hi] at ha
    cases ha

theorem Inv.step {next : Channel} (h : c.Inv)
    (hc : c.AbortsIdle call) (hs : Channel.step ch c call = some next) : next.Inv := by
  cases call with
  | Start len =>
    cases hs
    exact h.start ch len
  | PollComplete fd =>
    cases hs
    exact h.pollComplete fd
  | Abort =>
    cases hs
    exact h.abort ch hc

theorem abort_breaks {next : Channel} (hc : ¬ c.AbortsIdle call) (hs : Channel.step ch c call = some next) :
    ¬ next.Exclusive := by
  cases call with
  | Start len | PollComplete fd => exact absurd trivial hc
  | Abort =>
    cases hs
    intro hex
    exact hc (hex.1 rfl)

theorem init_inv : init.Inv := .Idle rfl rfl rfl

-- Start, then abort: wasm owns the buffer the engine is still writing.
theorem exclusive_fails : ¬ ∀ (channel : UInt32) (calls : List Call),
      Throughout (Channel.step channel) Exclusive init calls := by
  intro h
  have hs := (h 2 [.Start 64, .Abort]).2 _ rfl
  have ha := hs.2 _ rfl
  have hi := ha.1 rfl
  cases hi

theorem exclusive_iff_abortsIdle (channel : UInt32) (calls : List Call) :
    Throughout (Channel.step channel) Exclusive init calls ↔
      Along (Channel.step channel) AbortsIdle init calls :=
  throughout_iff_along Inv (fun _ h => h.exclusive) (fun _ _ _ h hc hs => h.step hc hs)
    (fun _ _ _ _ hc hs => abort_breaks hc hs) init_inv calls

end Channel

end Gale.DmaOwn
