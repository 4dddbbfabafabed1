import Gale.PartitionSwitch.Theorems
import Gale.Lib.Past

namespace Gale.PartitionSwitch

open Lib

inductive Input where
  | Tick (t : UInt32)
  | RunSwitch

structure Driven where
  switcher : Switcher
  seams : List Seam

namespace Seam

def swapped : Seam → Option UInt32
  | .RegionSwap part => some part
  | _ => none

def resumed : Seam → Option UInt32
  | .CtxResume part => some part
  | _ => none

end Seam

def lastSwapped (seams : List Seam) : Option UInt32 := (seams.filterMap Seam.swapped).getLast?

def lastResumed (seams : List Seam) : Option UInt32 := (seams.filterMap Seam.resumed).getLast?

def SavesResumed (seams : List Seam) : Prop :=
  ∀ before call after, seams = before ++ call :: after →
    ∀ part resumed, call = .CtxSave part → lastResumed before = some resumed → part = resumed

namespace Driven

def new (frame : MajorFrame) : Driven := ⟨.new frame, []⟩

def step (d : Driven) : Input → Option Driven
  | .Tick t => some { d with switcher := (d.switcher.tick t).2 }
  | .RunSwitch => some ⟨d.switcher.runSwitch.1, d.seams ++ d.switcher.runSwitch.2⟩

def owner (d : Driven) : UInt32 := d.switcher.frame.partitionId d.switcher.cur

def incoming (d : Driven) : UInt32 := d.switcher.frame.partitionId (nextWindow d.switcher.cur)

-- Once there was a switch, the running partition is the one whose regions are
-- loaded and whose context was resumed.
structure Loaded (d : Driven) : Prop where
  saves : SavesResumed d.seams
  running : d.seams ≠ [] → d.switcher.phase = .Running →
    lastSwapped d.seams = some d.owner ∧ lastResumed d.seams = some d.owner

-- run_switch is called when a tick has asked for it, or the next window belongs
-- to the same partition.
def Asked (d : Driven) : Input → Prop
  | .Tick _ => True
  | .RunSwitch => d.switcher.phase = .SaveCtx ∨ d.incoming = d.owner

end Driven

section Seams

variable (seams : List Seam) (saved swapped resumed : UInt32)

theorem lastSwapped_switch :
    lastSwapped (seams ++ [.CtxSave saved, .RegionSwap swapped, .CtxResume resumed]) = some swapped := by
  rw [lastSwapped, List.filterMap_append]
  exact List.getLast?_concat

theorem lastResumed_switch :
    lastResumed (seams ++ [.CtxSave saved, .RegionSwap swapped, .CtxResume resumed]) = some resumed := by
  rw [lastResumed, List.filterMap_append]
  exact List.getLast?_concat

theorem savesResumed_snoc (call : Seam) : SavesResumed (seams ++ [call]) ↔ SavesResumed seams ∧
      ∀ part resumed, call = .CtxSave part → lastResumed seams = some resumed → part = resumed :=
  forall_split_snoc

theorem savesResumed_switch : SavesResumed (seams ++ [.CtxSave saved, .RegionSwap swapped, .CtxResume resumed]) ↔
      SavesResumed seams ∧ ∀ last, lastResumed seams = some last → saved = last := by
  have hsp : seams ++ [.CtxSave saved, .RegionSwap swapped, .CtxResume resumed] =
      seams ++ [.CtxSave saved] ++ [.RegionSwap swapped] ++ [.CtxResume resumed] := by
    simp
  rw [hsp, savesResumed_snoc, savesResumed_snoc, savesResumed_snoc]
  constructor
  · rintro ⟨⟨⟨hsm, hs⟩, -⟩, -⟩
    exact ⟨hsm, fun last hl => hs saved last rfl hl⟩
  · rintro ⟨hsm, hs⟩
    refine ⟨⟨⟨hsm, fun part last hc hl => ?_⟩, nofun⟩, nofun⟩
    cases hc
    exact hs last hl

end Seams

namespace Switcher

variable {s : Switcher}

theorem tick_cases (s : Switcher) (t : UInt32) : (s.tick t).2 = s ∨
      s.phase = .Running ∧ (s.tick t).2 = { s with phase := .SaveCtx, swapped := false } := by
  unfold tick
  split
  next hp =>
    dsimp only
    split
    next => exact .inr ⟨hp, rfl⟩
    next => exact .inl rfl
  next => exact .inl rfl

theorem runSwitch_saveCtx (h : s.phase = .SaveCtx) :
    s.runSwitch.1 = { s with cur := nextWindow s.cur, phase := .Running, swapped := true } := by
  simp [runSwitch, markSaved, markSwapped, markResumed, h]

theorem runSwitch_running (h : s.phase = .Running) : s.runSwitch.1 = s := by
  simp [runSwitch, markSaved, markSwapped, markResumed, h]

end Switcher

namespace Driven

variable {d next : Driven} {a : Input}

-- The invariant: between the calls the machine runs or is asked to switch, and
-- what is loaded is what the current window needs.
structure Inv (d : Driven) : Prop where
  phase : d.switcher.phase = .Running ∨ d.switcher.phase = .SaveCtx
  saves : SavesResumed d.seams
  current : d.seams ≠ [] → lastSwapped d.seams = some d.owner ∧ lastResumed d.seams = some d.owner

theorem inv_new (frame : MajorFrame) : (new frame).Inv where
  phase := .inl rfl
  saves := by
    intro before call after h
    simp [new] at h
  current := fun h => absurd rfl h

theorem Inv.loaded (h : d.Inv) : d.Loaded := ⟨h.saves, fun hne _ => h.current hne⟩

theorem Inv.eq_owner (h : d.Inv) {last : UInt32} (hl : lastResumed d.seams = some last) : last = d.owner := by
  have hne : d.seams ≠ [] := by
    intro hn
    rw [hn] at hl
    cases hl
  rw [(h.current hne).2] at hl
  exact (Option.some.inj hl).symm

theorem Inv.tick (h : d.Inv) (t : UInt32) : Inv { d with switcher := (d.switcher.tick t).2 } := by
  rcases d.switcher.tick_cases t with hsm | ⟨hp, hs⟩
  · rw [hsm]
    exact h
  · rw [hs]
    exact ⟨.inr rfl, h.saves, h.current⟩

theorem Inv.runSwitch (h : d.Inv) (ha : d.Asked .RunSwitch) :
    Inv ⟨d.switcher.runSwitch.1, d.seams ++ d.switcher.runSwitch.2⟩ := by
  have hsv : SavesResumed (d.seams ++ d.switcher.runSwitch.2) :=
    (savesResumed_switch _ _ _ _).mpr ⟨h.saves, fun last hl => (h.eq_owner hl).symm⟩
  have hsw : lastSwapped (d.seams ++ d.switcher.runSwitch.2) = some d.incoming :=
    lastSwapped_switch _ _ _ _
  have hrs : lastResumed (d.seams ++ d.switcher.runSwitch.2) = some d.incoming :=
    lastResumed_switch _ _ _ _
  rcases h.phase with hr | hs
  · have hsm : d.incoming = d.owner :=
      ha.resolve_left (by rw [hr]; decide)
    rw [Switcher.runSwitch_running hr]
    rw [hsm] at hsw hrs
    exact ⟨.inl hr, hsv, fun _ => ⟨hsw, hrs⟩⟩
  · rw [Switcher.runSwitch_saveCtx hs]
    exact ⟨.inl rfl, hsv, fun _ => ⟨hsw, hrs⟩⟩

theorem Inv.step (h : d.Inv) (ha : d.Asked a) (hs : d.step a = some next) : next.Inv := by
  cases a with
  | Tick t =>
    cases hs
    exact h.tick t
  | RunSwitch =>
    cases hs
    exact h.runSwitch ha

theorem Inv.breaks (h : d.Inv) (ha : ¬ d.Asked a) (hs : d.step a = some next) : ¬ next.Loaded := by
  cases a with
  | Tick t => exact absurd trivial ha
  | RunSwitch =>
    obtain ⟨hp, ho⟩ := not_or.mp ha
    have hr := h.phase.resolve_right hp
    cases hs
    intro hl
    have hn := Switcher.runSwitch_running hr
    have hls := (hl.running (by simp [Switcher.runSwitch]) (by rw [hn]; exact hr)).1
    have hsw : lastSwapped (d.seams ++ d.switcher.runSwitch.2) = some d.incoming :=
      lastSwapped_switch _ _ _ _
    rw [hsw] at hls
    refine ho ((Option.some.inj hls).trans ?_)
    simp [owner, hn]

end Driven

theorem running_is_loaded_iff (frame : MajorFrame) (inputs : List Input) :
    Throughout Driven.step Driven.Loaded (Driven.new frame) inputs ↔
      Along Driven.step Driven.Asked (Driven.new frame) inputs :=
  throughout_iff_along Driven.Inv (fun _ h => h.loaded) (fun _ _ _ h ha hs => h.step ha hs)
    (fun _ _ _ h ha hs => h.breaks ha hs) (Driven.inv_new frame) inputs

-- A second run_switch after a switch: the partition of window 1 runs with the
-- regions and the context of the one of window 2.
theorem second_switch_loads_other : oneTickWindows.check = true ∧
      ∃ final, run Driven.step (Driven.new oneTickWindows) [.Tick 0, .RunSwitch, .RunSwitch] =
          some final ∧
        final.switcher.phase = .Running ∧ final.owner = 11 ∧ lastSwapped final.seams = some 12 ∧
        lastResumed final.seams = some 12 ∧ ¬ final.Loaded := by
  refine ⟨by decide, _, rfl, by decide, by decide, by decide, by decide, fun h => ?_⟩
  exact absurd (h.running (by decide) (by decide)).1 (by decide)

end Gale.PartitionSwitch
