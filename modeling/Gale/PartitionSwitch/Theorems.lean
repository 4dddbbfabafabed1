import Gale.PartitionSwitch

namespace Gale.PartitionSwitch

theorem window_cases (w : Fin MAX_WINDOWS) : w = 0 ∨ w = 1 ∨ w = 2 ∨ w = 3 := by
  revert w
  decide

namespace MajorFrame

def windowEnd (f : MajorFrame) (w : Fin MAX_WINDOWS) : Nat :=
  (f.offset w).toNat + (f.budget w).toNat

-- What check decides: the windows are not empty, follow each other and fill the frame.
structure Valid (f : MajorFrame) : Prop where
  start : (f.offset 0).toNat = 0
  budget_pos : ∀ w, 0 < (f.budget w).toNat
  end_zero : f.windowEnd 0 = (f.offset 1).toNat
  end_one : f.windowEnd 1 = (f.offset 2).toNat
  end_two : f.windowEnd 2 = (f.offset 3).toNat
  end_three : f.windowEnd 3 = f.frameLen.toNat

theorem toUInt64_add_eq (a b c : UInt32) : a.toUInt64 + b.toUInt64 = c.toUInt64 ↔ a.toNat + b.toNat = c.toNat := by
  have ha := a.toNat_lt
  have hb := b.toNat_lt
  rw [← UInt64.toNat_inj, UInt64.toNat_add]
  simp only [UInt32.toNat_toUInt64]
  rw [Nat.mod_eq_of_lt (by omega)]

theorem valid_of_check {f : MajorFrame} (h : f.check = true) : f.Valid := by
  simp only [check, Bool.and_eq_true, decide_eq_true_eq, toUInt64_add_eq] at h
  obtain ⟨⟨⟨⟨⟨⟨⟨⟨hs, hb0⟩, hb1⟩, hb2⟩, hb3⟩, h0⟩, h1⟩, h2⟩, h3⟩ := h
  refine ⟨by rw [hs]; rfl, fun w => ?_, h0, h1, h2, h3⟩
  rcases window_cases w with rfl | rfl | rfl | rfl
  · exact UInt32.lt_iff_toNat_lt.mp hb0
  · exact UInt32.lt_iff_toNat_lt.mp hb1
  · exact UInt32.lt_iff_toNat_lt.mp hb2
  · exact UInt32.lt_iff_toNat_lt.mp hb3

def InWindow (f : MajorFrame) (w : Fin MAX_WINDOWS) (t : Nat) : Prop :=
  (f.offset w).toNat ≤ t ∧ t < f.windowEnd w

variable {f : MajorFrame}

theorem Valid.inWindow_currentWindow (h : f.Valid) {t : UInt32}
    (ht : t.toNat < f.frameLen.toNat) : f.InWindow (f.currentWindow t) t.toNat := by
  obtain ⟨hs, _, h0, h1, h2, h3⟩ := h
  simp only [currentWindow, UInt32.lt_iff_toNat_lt]
  split_ifs <;> constructor <;> omega

theorem Valid.inWindow_unique (h : f.Valid) {w w' : Fin MAX_WINDOWS} {t : Nat}
    (hw : f.InWindow w t) (hw' : f.InWindow w' t) : w = w' := by
  obtain ⟨hs, hb, h0, h1, h2, h3⟩ := h
  simp only [InWindow, windowEnd] at *
  rcases window_cases w with rfl | rfl | rfl | rfl <;>
    rcases window_cases w' with rfl | rfl | rfl | rfl <;> first | rfl | omega

theorem Valid.inWindow_next (h : f.Valid) {w : Fin MAX_WINDOWS} {t : Nat}
    (he : t + 1 = f.windowEnd w) : f.InWindow (nextWindow w) ((t + 1) % f.frameLen.toNat) := by
  obtain ⟨hs, hb, h0, h1, h2, h3⟩ := h
  have hb0 := hb 0
  have hb1 := hb 1
  have hb2 := hb 2
  have hb3 := hb 3
  rw [he]
  rcases window_cases w with rfl | rfl | rfl | rfl
  · show f.InWindow 1 _
    simp only [InWindow, windowEnd] at *
    rw [Nat.mod_eq_of_lt (by omega)]
    omega
  · show f.InWindow 2 _
    simp only [InWindow, windowEnd] at *
    rw [Nat.mod_eq_of_lt (by omega)]
    omega
  · show f.InWindow 3 _
    simp only [InWindow, windowEnd] at *
    rw [Nat.mod_eq_of_lt (by omega)]
    omega
  · show f.InWindow 0 _
    rw [h3, Nat.mod_self]
    simp only [InWindow, windowEnd] at *
    omega

theorem Valid.windowEnd_le (h : f.Valid) (w : Fin MAX_WINDOWS) : f.windowEnd w ≤ f.frameLen.toNat := by
  obtain ⟨_, _, h0, h1, h2, h3⟩ := h
  simp only [windowEnd] at *
  rcases window_cases w with rfl | rfl | rfl | rfl <;> omega

def windowAt (f : MajorFrame) (n : Nat) : Fin MAX_WINDOWS :=
  f.currentWindow (UInt32.ofNat (n % f.frameLen.toNat))

theorem Valid.frameLen_pos (h : f.Valid) : 0 < f.frameLen.toNat := by
  have := h.windowEnd_le 0
  have := h.budget_pos 0
  simp only [windowEnd] at *
  omega

theorem Valid.toNat_tick (h : f.Valid) (n : Nat) :
    (UInt32.ofNat (n % f.frameLen.toNat)).toNat = n % f.frameLen.toNat :=
  UInt32.toNat_ofNat_of_lt' ((Nat.mod_lt n h.frameLen_pos).trans f.frameLen.toNat_lt)

theorem Valid.inWindow_windowAt (h : f.Valid) (n : Nat) : f.InWindow (f.windowAt n) (n % f.frameLen.toNat) := by
  have hlt := Nat.mod_lt n h.frameLen_pos
  have hin := h.inWindow_currentWindow (t := UInt32.ofNat (n % f.frameLen.toNat))
    (by rwa [h.toNat_tick])
  rwa [h.toNat_tick] at hin

theorem Valid.windowAt_succ (h : f.Valid) (n : Nat) : f.windowAt (n + 1) =
      if n % f.frameLen.toNat + 1 = f.windowEnd (f.windowAt n) then nextWindow (f.windowAt n)
      else f.windowAt n := by
  have hin := h.inWindow_windowAt n
  have hs := h.inWindow_windowAt (n + 1)
  rw [← Nat.mod_add_mod] at hs
  apply h.inWindow_unique hs
  split
  · next he => exact h.inWindow_next he
  · next he =>
      have hle := h.windowEnd_le (f.windowAt n)
      obtain ⟨hl, hh⟩ := hin
      rw [Nat.mod_eq_of_lt (by omega)]
      exact ⟨by omega, by omega⟩

end MajorFrame

theorem nextWindow_ne (w : Fin MAX_WINDOWS) : nextWindow w ≠ w := by
  revert w
  decide

namespace Switcher

variable (s : Switcher)

theorem tick_frame (t : UInt32) : (s.tick t).2.frame = s.frame := by
  unfold tick
  dsimp only
  split_ifs <;> rfl

theorem markSaved_frame : s.markSaved.2.frame = s.frame := by
  unfold markSaved
  split <;> rfl

theorem markSwapped_frame : s.markSwapped.2.frame = s.frame := by
  unfold markSwapped
  split <;> rfl

theorem markResumed_frame : s.markResumed.2.frame = s.frame := by
  unfold markResumed
  split <;> rfl

theorem runSwitch_frame : s.runSwitch.1.frame = s.frame := by
  simp [runSwitch, markResumed_frame, markSwapped_frame, markSaved_frame]

end Switcher

theorem Switcher.runSwitch_tick (s : Switcher) : { s with phase := .SaveCtx, swapped := false }.runSwitch.1 =
      { s with cur := nextWindow s.cur, phase := .Running, swapped := true } := by
  simp [runSwitch, markSaved, markSwapped, markResumed]

theorem tick_boundary {f : MajorFrame} (h : f.Valid) (w : Fin MAX_WINDOWS) (t : UInt32) :
    t = f.offset w + f.budget w - 1 ↔ t.toNat + 1 = f.windowEnd w := by
  have hle := h.windowEnd_le w
  have hlt := f.frameLen.toNat_lt
  have hp := h.budget_pos w
  simp only [MajorFrame.windowEnd] at *
  have hs : (f.offset w + f.budget w).toNat = (f.offset w).toNat + (f.budget w).toNat := by
    rw [UInt32.toNat_add, Nat.mod_eq_of_lt (by omega)]
  have ho : (1 : UInt32) ≤ f.offset w + f.budget w := by
    rw [UInt32.le_iff_toNat_le, hs]
    exact Nat.le_add_left_of_le hp
  rw [← UInt32.toNat_inj, UInt32.toNat_sub_of_le _ _ ho, hs]
  show t.toNat = _ - 1 ↔ _
  omega

def switchCalls (f : MajorFrame) (w w' : Fin MAX_WINDOWS) : List Seam :=
  if w = w' then []
  else [.CtxSave (f.partitionId w), .RegionSwap (f.partitionId w'), .CtxResume (f.partitionId w')]

theorem onTick_window {f : MajorFrame} (h : f.Valid) {s : Switcher} (calls : List Seam) {n : Nat}
    (hf : s.frame = f) (hc : s.cur = f.windowAt n) (hp : s.phase = .Running) :
    let state := onTick (s, calls) (UInt32.ofNat (n % f.frameLen.toNat))
    state.1.frame = f ∧ state.1.cur = f.windowAt (n + 1) ∧ state.1.phase = .Running ∧
      state.2 = calls ++ switchCalls f (f.windowAt n) (f.windowAt (n + 1)) := by
  subst hf
  have hb := tick_boundary h s.cur (UInt32.ofNat (n % s.frame.frameLen.toNat))
  rw [h.toNat_tick] at hb
  rw [h.windowAt_succ, ← hc]
  by_cases he : n % s.frame.frameLen.toNat + 1 = s.frame.windowEnd s.cur
  · have ht : s.tick (UInt32.ofNat (n % s.frame.frameLen.toNat)) =
        (true, { s with phase := .SaveCtx, swapped := false }) := by
      simp [Switcher.tick, hp, if_pos (hb.mpr he)]
    simp only [onTick, ht, if_pos he, switchCalls, (nextWindow_ne s.cur).symm, if_false, Switcher.runSwitch_tick]
    exact ⟨trivial, trivial, trivial, rfl⟩
  · have ht : s.tick (UInt32.ofNat (n % s.frame.frameLen.toNat)) = (false, s) := by
      simp [Switcher.tick, hp, if_neg (mt hb.mp he)]
    simp only [onTick, ht, if_neg he, switchCalls, if_true, List.append_nil]
    exact ⟨trivial, trivial, hp, trivial⟩

theorem temporal_isolation (f : MajorFrame) (hcheck : f.check = true) (n : Nat) :
    let state := drive f n
    state.1.phase = .Running ∧ state.1.cur = f.currentWindow (UInt32.ofNat (n % f.frameLen.toNat)) ∧
      state.2 = (List.range n).flatMap fun i =>
        switchCalls f (f.currentWindow (UInt32.ofNat (i % f.frameLen.toNat)))
          (f.currentWindow (UInt32.ofNat ((i + 1) % f.frameLen.toNat))) := by
  have hv := MajorFrame.valid_of_check hcheck
  suffices hd : (drive f n).1.frame = f ∧ (drive f n).1.cur = f.windowAt n ∧
      (drive f n).1.phase = .Running ∧ (drive f n).2 =
        (List.range n).flatMap fun i => switchCalls f (f.windowAt i) (f.windowAt (i + 1)) from
    ⟨hd.2.2.1, hd.2.1, hd.2.2.2⟩
  induction n with
  | zero =>
    have hz := hv.inWindow_windowAt 0
    have hfr : f.InWindow 0 0 := by
      refine ⟨hv.start.le, ?_⟩
      have := hv.budget_pos 0
      simp only [MajorFrame.windowEnd]
      omega
    exact ⟨rfl, hv.inWindow_unique hfr hz, rfl, rfl⟩
  | succ n ih =>
    obtain ⟨hf, hcr, hp, hc⟩ := ih
    have hs := onTick_window hv (drive f n).2 hf hcr hp
    rw [List.range_succ, List.flatMap_append, ← hc]
    simpa [drive] using hs

def oneTickWindows : MajorFrame where
  partitionId := fun w => UInt32.ofNat (10 + w)
  offset := fun w => UInt32.ofNat w
  budget := fun _ => 1
  frameLen := 4

theorem temporal_isolation_oneTickWindows :
    oneTickWindows.check = true ∧ (drive oneTickWindows 5).1.phase = .Running ∧
      (drive oneTickWindows 5).2.take 3 = [.CtxSave 10, .RegionSwap 11, .CtxResume 11] := by
  obtain ⟨hp, _, hc⟩ := temporal_isolation oneTickWindows (by decide) 5
  exact ⟨by decide, hp, by rw [hc]; decide⟩

end Gale.PartitionSwitch
