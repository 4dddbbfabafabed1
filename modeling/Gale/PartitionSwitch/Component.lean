import Gale.PartitionSwitch.Theorems
import Gale.Lib.Run

namespace Gale.PartitionSwitch

open Lib

-- The component of drivers/switch-thin: its two globals, each made on first use.
structure Component where
  sw : Option Switcher
  pending : Option MajorFrame

inductive Call where
  | SetWindow (idx pid offset budget : UInt32)
  | SealFrame (frameLen : UInt32)
  | FrameCheck
  | CurrentWindow (t : UInt32)
  | Tick (t : UInt32)
  | MarkSaved
  | MarkSwapped
  | MarkResumed
  | RunSwitch

inductive Reply where
  | Flag (ok : Bool)
  | Window (w : Fin MAX_WINDOWS)
  | Seams (calls : List Seam)

def MajorFrame.zero : MajorFrame where
  partitionId := fun _ => 0
  offset := fun _ => 0
  budget := fun _ => 0
  frameLen := 0

def MajorFrame.setWindow (f : MajorFrame) (w : Fin MAX_WINDOWS) (pid offset budget : UInt32) :
    MajorFrame :=
  { f with
    partitionId := Function.update f.partitionId w pid
    offset := Function.update f.offset w offset
    budget := Function.update f.budget w budget }

namespace Component

def init : Component := ⟨none, none⟩

def pendingFrame (c : Component) : MajorFrame := c.pending.getD .zero

def withPending (c : Component) : Component := { c with pending := some c.pendingFrame }

-- The switcher that sw() gives: made from the pending table, as it is, the first time.
def switcher (c : Component) : Switcher := c.sw.getD (.new c.pendingFrame)

def withSw (c : Component) : Component :=
  match c.sw with
  | some _ => c
  | none => { c.withPending with sw := some c.switcher }

def onSwitcher (c : Component) (act : Switcher → Reply × Switcher) : Reply × Component :=
  ((act c.switcher).1, { c.withSw with sw := some (act c.switcher).2 })

def call (c : Component) : Call → Reply × Component
  | .SetWindow idx pid offset budget =>
    if h : idx.toNat < MAX_WINDOWS then
      (.Flag true,
        { c with pending := some (c.pendingFrame.setWindow ⟨idx.toNat, h⟩ pid offset budget) })
    else (.Flag false, c)
  | .SealFrame frameLen =>
    let f := { c.pendingFrame with frameLen := frameLen }
    if f.check then (.Flag true, { c with pending := some f, sw := some (.new f) })
    else (.Flag false, { c with pending := some f })
  | .FrameCheck => c.onSwitcher fun s => (.Flag s.frame.check, s)
  | .CurrentWindow t => c.onSwitcher fun s => (.Window (s.frame.currentWindow t), s)
  | .Tick t => c.onSwitcher fun s => (.Flag (s.tick t).1, (s.tick t).2)
  | .MarkSaved => c.onSwitcher fun s => (.Flag s.markSaved.1, s.markSaved.2)
  | .MarkSwapped => c.onSwitcher fun s => (.Flag s.markSwapped.1, s.markSwapped.2)
  | .MarkResumed => c.onSwitcher fun s => (.Flag s.markResumed.1, s.markResumed.2)
  | .RunSwitch => c.onSwitcher fun s => (.Seams s.runSwitch.2, s.runSwitch.1)

end Component

namespace Call

def uses : Call → Bool
  | .SetWindow _ _ _ _ | .SealFrame _ => false
  | _ => true

def drives : Call → Bool
  | .Tick _ | .RunSwitch => true
  | _ => false

end Call

-- The component with what its history was: the table of the last successful seal,
-- and the table that was pending when the switcher was first used without one.
structure Watched where
  component : Component
  sealed : Option MajorFrame
  found : Option MajorFrame

namespace Watched

def init : Watched := ⟨.init, none, none⟩

def step (w : Watched) (call : Call) : Option Watched :=
  some
    { component := (w.component.call call).2
      sealed :=
        match call with
        | .SealFrame frameLen =>
          let f := { w.component.pendingFrame with frameLen := frameLen }
          if f.check then some f else w.sealed
        | _ => w.sealed
      found :=
        if call.uses && w.component.sw.isNone then some w.component.pendingFrame else w.found }

-- What a call may rely on and what it must not depend on. The frame in use is
-- checked, the sum and the difference in tick are u32 numbers, and after a seal the
-- frame is the sealed one and the table under edit changes nothing.
structure Sound (w : Watched) (call : Call) : Prop where
  checked : call.drives = true → w.component.switcher.frame.check = true
  in_range : call.drives = true → 1 ≤ w.component.switcher.frame.windowEnd w.component.switcher.cur ∧
      w.component.switcher.frame.windowEnd w.component.switcher.cur < 2 ^ 32
  of_seal : call.drives = true → ∀ f, w.sealed = some f → w.component.switcher.frame = f
  unaffected : w.sealed ≠ none → (∀ frameLen, call ≠ .SealFrame frameLen) → ∀ edited,
    ({ w.component with pending := edited }.call call).1 = (w.component.call call).1 ∧
      ({ w.component with pending := edited }.call call).2.sw = (w.component.call call).2.sw

-- A frame was sealed, or the table found by the first use of the switcher is a
-- frame that a seal would have accepted.
def Validated (w : Watched) (call : Call) : Prop :=
  call.drives = true → w.sealed ≠ none ∨ (w.found.getD w.component.pendingFrame).check = true

end Watched

namespace Component

theorem call_uses {call : Call} (h : call.uses = true) :
    ∃ act : Switcher → Reply × Switcher, (∀ s, (act s).2.frame = s.frame) ∧
      ∀ c : Component, c.call call = c.onSwitcher act := by
  cases call with
  | SetWindow idx pid off budget | SealFrame frameLen => cases h
  | FrameCheck => exact ⟨fun s => (.Flag s.frame.check, s), fun _ => rfl, fun _ => rfl⟩
  | CurrentWindow t => exact ⟨fun s => (.Window (s.frame.currentWindow t), s), fun _ => rfl, fun _ => rfl⟩
  | Tick t => exact ⟨fun s => (.Flag (s.tick t).1, (s.tick t).2), fun s => s.tick_frame t, fun _ => rfl⟩
  | MarkSaved =>
    exact ⟨fun s => (.Flag s.markSaved.1, s.markSaved.2), fun s => s.markSaved_frame, fun _ => rfl⟩
  | MarkSwapped =>
    exact ⟨fun s => (.Flag s.markSwapped.1, s.markSwapped.2), fun s => s.markSwapped_frame, fun _ => rfl⟩
  | MarkResumed =>
    exact ⟨fun s => (.Flag s.markResumed.1, s.markResumed.2), fun s => s.markResumed_frame, fun _ => rfl⟩
  | RunSwitch =>
    exact ⟨fun s => (.Seams s.runSwitch.2, s.runSwitch.1), fun s => s.runSwitch_frame, fun _ => rfl⟩

theorem switcher_some {c : Component} {s : Switcher} (h : c.sw = some s) : c.switcher = s := by
  rw [switcher, h, Option.getD_some]

theorem switcher_none {c : Component} (h : c.sw = none) : c.switcher = .new c.pendingFrame := by
  rw [switcher, h, Option.getD_none]

theorem call_setWindow_sw (c : Component) (idx pid off budget : UInt32) :
    (c.call (.SetWindow idx pid off budget)).2.sw = c.sw := by
  unfold call
  dsimp only
  split <;> rfl

end Component

namespace Watched

variable {w next : Watched} {call : Call}

structure Inv (w : Watched) : Prop where
  sealed : ∀ f, w.sealed = some f → f.check = true ∧ ∃ s, w.component.sw = some s ∧ s.frame = f
  found : ∀ s, w.component.sw = some s → w.sealed = none → w.found = some s.frame
  unused : w.component.sw = none → w.found = none

theorem inv_init : init.Inv where
  sealed := nofun
  found := nofun
  unused := fun _ => rfl

theorem Inv.step_uses (h : w.Inv) (hu : call.uses = true) (hs : w.step call = some next) :
    next.Inv := by
  obtain ⟨act, hfr, ha⟩ := Component.call_uses hu
  have hsw : next.component.sw = some (act w.component.switcher).2 := by
    cases hs
    rw [ha]
    rfl
  have hsl : next.sealed = w.sealed := by
    cases hs
    cases call <;> first | rfl | cases hu
  have hfn : next.found =
      if w.component.sw.isNone then some w.component.pendingFrame else w.found := by
    cases hs
    simp [hu]
  cases ho : w.component.sw with
  | some s =>
    rw [ho, Option.isNone_some, if_neg Bool.false_ne_true] at hfn
    rw [Component.switcher_some ho] at hsw
    refine ⟨fun f hf => ?_, fun s' hs' hn => ?_, fun hn => ?_⟩
    · rw [hsl] at hf
      obtain ⟨hc, s', hs', rfl⟩ := h.sealed f hf
      cases ho.symm.trans hs'
      exact ⟨hc, _, hsw, hfr s⟩
    · cases hsw.symm.trans hs'
      rw [hfn, hfr]
      exact h.found s ho (hsl.symm.trans hn)
    · rw [hsw] at hn
      cases hn
  | none =>
    rw [ho, Option.isNone_none, if_pos rfl] at hfn
    rw [Component.switcher_none ho] at hsw
    refine ⟨fun f hf => ?_, fun s' hs' hn => ?_, fun hn => ?_⟩
    · rw [hsl] at hf
      obtain ⟨-, s', hs', -⟩ := h.sealed f hf
      cases ho.symm.trans hs'
    · cases hsw.symm.trans hs'
      rw [hfn, hfr]
      rfl
    · rw [hsw] at hn
      cases hn

theorem Inv.step (h : w.Inv) (hs : w.step call = some next) : next.Inv := by
  cases call with
  | SetWindow idx pid off budget =>
    cases hs
    have hsw := w.component.call_setWindow_sw idx pid off budget
    exact ⟨fun f hf => hsw ▸ h.sealed f hf, fun s hs => h.found s (hsw ▸ hs), fun hn => h.unused (hsw ▸ hn)⟩
  | SealFrame frameLen =>
    cases hs
    simp only [Component.call, Call.uses, Bool.false_and, Bool.false_eq_true, if_false]
    split
    next hc =>
      refine ⟨fun f hf => ?_, nofun, nofun⟩
      cases hf
      exact ⟨hc, _, rfl, rfl⟩
    next => exact ⟨h.sealed, h.found, h.unused⟩
  | _ => exact h.step_uses rfl hs

theorem throughout_inv (calls : List Call) : Throughout Watched.step Inv init calls :=
  throughout_of_step (fun _ _ _ h hs => h.step hs) inv_init calls

theorem Inv.frame_cases (h : w.Inv) :
    w.sealed = some w.component.switcher.frame ∧ w.component.switcher.frame.check = true ∨
      w.sealed = none ∧ w.found.getD w.component.pendingFrame = w.component.switcher.frame := by
  cases hsl : w.sealed with
  | some f =>
    obtain ⟨hc, s, hs, rfl⟩ := h.sealed f hsl
    rw [Component.switcher_some hs]
    exact .inl ⟨rfl, hc⟩
  | none =>
    refine .inr ⟨rfl, ?_⟩
    cases hsw : w.component.sw with
    | some s => rw [h.found s hsw hsl, Component.switcher_some hsw, Option.getD_some]
    | none =>
      rw [h.unused hsw, Component.switcher_none hsw, Option.getD_none]
      rfl

theorem Inv.unaffected (h : w.Inv) (hsl : w.sealed ≠ none)
    (hc : ∀ frameLen, call ≠ .SealFrame frameLen) (edited : Option MajorFrame) :
    ({ w.component with pending := edited }.call call).1 = (w.component.call call).1 ∧
      ({ w.component with pending := edited }.call call).2.sw = (w.component.call call).2.sw := by
  obtain ⟨f, hf⟩ := Option.ne_none_iff_exists'.mp hsl
  obtain ⟨-, s, hs, -⟩ := h.sealed f hf
  have hsm : Component.switcher { w.component with pending := edited } = w.component.switcher := by
    rw [Component.switcher_some hs]
    exact Component.switcher_some hs
  by_cases hu : call.uses = true
  · obtain ⟨act, -, ha⟩ := Component.call_uses hu
    rw [ha, ha]
    simp [Component.onSwitcher, hsm]
  · cases call with
    | SetWindow idx pid off budget =>
      rw [Component.call_setWindow_sw, Component.call_setWindow_sw]
      refine ⟨?_, rfl⟩
      simp only [Component.call]
      split <;> rfl
    | SealFrame frameLen => exact absurd rfl (hc frameLen)
    | _ => exact absurd rfl hu

theorem Inv.sound_iff (h : w.Inv) : w.Sound call ↔ w.Validated call := by
  constructor
  · intro hsn hd
    rcases h.frame_cases with ⟨hsl, -⟩ | ⟨-, hfn⟩
    · exact .inl (by rw [hsl]; exact Option.some_ne_none _)
    · exact .inr (by rw [hfn]; exact hsn.checked hd)
  · intro hv
    have hch : call.drives = true → w.component.switcher.frame.check = true := by
      intro hd
      rcases h.frame_cases with ⟨-, hch⟩ | ⟨hn, hfn⟩
      · exact hch
      · rw [← hfn]
        exact (hv hd).resolve_left fun hne => hne hn
    refine ⟨hch, fun hd => ?_, fun _ f hf => ?_, fun hne hc => h.unaffected hne hc⟩
    · have hvl := MajorFrame.valid_of_check (hch hd)
      have hp := hvl.budget_pos w.component.switcher.cur
      have hle := hvl.windowEnd_le w.component.switcher.cur
      have hlt := w.component.switcher.frame.frameLen.toNat_lt
      refine ⟨?_, by omega⟩
      rw [MajorFrame.windowEnd]
      omega
    · obtain ⟨-, s, hs, hfr⟩ := h.sealed f hf
      rw [Component.switcher_some hs, hfr]

end Watched

theorem unvalidated_frame_iff (calls : List Call) :
    Along Watched.step Watched.Sound Watched.init calls ↔
      Along Watched.step Watched.Validated Watched.init calls := by
  have hi := Watched.throughout_inv calls
  refine hi.along_iff fun w call next h _ => ?_
  exact h.sound_iff

-- A tick before any seal runs on the table of zeros.
theorem tick_runs_zero_frame : ¬ Along Watched.step Watched.Sound Watched.init [.Tick 0] ∧
      Watched.init.component.switcher.frame.check = false ∧
      Watched.init.component.switcher.frame.windowEnd 0 = 0 := by
  refine ⟨fun h => ?_, by decide, by decide⟩
  exact absurd ((h _ rfl).1.checked rfl) (by decide)

end Gale.PartitionSwitch
