import Gale.PartitionSwitch.Seams
import Gale.MpuSwitch.Isolation

namespace Gale.PartitionSwitch

open Lib
open MpuSwitch

-- The region_swap seam wired to switch_to_partition on a table that was built from
-- requests: the partition number is one of the table, the indices stay inside it, and
-- what is programmed are the regions added for that partition, all of them and no others.
structure Executes (checked : Bool) (requests : List Request) (part : UInt32) : Prop where
  below : part.toNat < MAX_PARTITIONS
  inside : ∀ r, ∃ i, RegionTable.slotIndex checked part r = some i ∧ i < TABLE_SLOTS
  programs : ∀ mpu, ∃ after,
    (Builder.build requests).table.switchToPartition checked part mpu = some after ∧
      (∀ r, after.regions r = ⟨0, 0⟩ ∨
        ∃ q ∈ (Builder.build requests).accepted, q.part = part ∧ after.regions r = q.region) ∧
      ∀ q ∈ (Builder.build requests).accepted, q.part = part → ∃ r, after.regions r = q.region

def Driven.Executed (checked : Bool) (requests : List Request) (d : Driven) : Prop :=
  ∀ part, .RegionSwap part ∈ d.seams → Executes checked requests part

section Index

variable {checked : Bool} {part : UInt32}

theorem slotIndex_of_lt (checked : Bool) (hp : part.toNat < MAX_PARTITIONS) (r : Fin MAX_REGIONS) :
    RegionTable.slotIndex checked part r = some (part.toNat * MAX_REGIONS + r) ∧
      part.toNat * MAX_REGIONS + r < TABLE_SLOTS := by
  have hlt : part.toNat * 8 + r.val < 32 := by
    have hr := r.isLt
    simp only [MAX_REGIONS, MAX_PARTITIONS] at hr hp
    omega
  refine ⟨if_pos ?_, hlt⟩
  exact Nat.lt_trans hlt (by decide)

theorem programPartitionAny_of_lt (t : RegionTable) (hp : part.toNat < MAX_PARTITIONS) :
    t.programPartitionAny checked part = some (t.programPartition ⟨part.toNat, hp⟩) := by
  have hrg : ∀ r : Fin MAX_REGIONS, ((RegionTable.slotIndex checked part r).bind fun i =>
        if h : i < TABLE_SLOTS then some (t.slotWrite ⟨i, h⟩ r) else none) =
        some (t.regionWrite ⟨part.toNat, hp⟩ r) := by
    intro r
    obtain ⟨hi, hlt⟩ := slotIndex_of_lt checked hp r
    rw [hi, Option.bind_some, dif_pos hlt]
    rfl
  have hr : ((List.finRange MAX_REGIONS).mapM fun r =>
      (RegionTable.slotIndex checked part r).bind fun i =>
        if h : i < TABLE_SLOTS then some (t.slotWrite ⟨i, h⟩ r) else none) =
        some ((List.finRange MAX_REGIONS).map (t.regionWrite ⟨part.toNat, hp⟩)) := by
    simp only [hrg]
    exact List.mapM_pure
  simp only [RegionTable.programPartitionAny, Option.bind_eq_bind, hr]
  rfl

theorem executes_of_lt (requests : List Request) (hp : part.toNat < MAX_PARTITIONS) :
    Executes checked requests part := by
  have hi := Builder.inv_build requests
  have hpr : part = UInt32.ofNat part.toNat := by simp
  have ht : ∀ q, (∃ slot, (Builder.build requests).table.request ⟨part.toNat, hp⟩ slot = some q) ↔
      q ∈ (Builder.build requests).accepted ∧ q.part = part := by
    intro q
    rw [hi.table ⟨part.toNat, hp⟩ q, ← hpr]
  refine ⟨hp, fun r => ⟨_, slotIndex_of_lt checked hp r⟩, fun mpu => ?_⟩
  have hwf : ∀ r q, (Builder.build requests).table.request ⟨part.toNat, hp⟩ r = some q →
      q.WellFormed := fun r q hq => hi.wellFormed q ((ht q).mp ⟨r, hq⟩).1
  obtain ⟨-, hrg⟩ := RegionTable.applyProgram_programPartition _ hwf mpu
  refine ⟨_, by rw [RegionTable.switchToPartition, programPartitionAny_of_lt _ hp]; rfl, ?_, ?_⟩
  · intro r
    rw [hrg, RegionTable.slotRegion]
    split
    next q hq => exact .inr ⟨q, ((ht q).mp ⟨r, hq⟩).1, ((ht q).mp ⟨r, hq⟩).2, rfl⟩
    next => exact .inl rfl
  · intro q hq hqp
    obtain ⟨r, hr⟩ := (ht q).mpr ⟨hq, hqp⟩
    refine ⟨r, ?_⟩
    rw [hrg, RegionTable.slotRegion, hr]

end Index

namespace Driven

variable {frame : MajorFrame} {d next : Driven} {a : Input}

structure Owned (frame : MajorFrame) (d : Driven) : Prop where
  frame_eq : d.switcher.frame = frame
  swaps : ∀ part, .RegionSwap part ∈ d.seams → ∃ w, part = frame.partitionId w

theorem owned_new (frame : MajorFrame) : Owned frame (new frame) := ⟨rfl, nofun⟩

theorem Owned.step (h : Owned frame d) (hs : d.step a = some next) : Owned frame next := by
  cases a with
  | Tick t =>
    cases hs
    exact ⟨(d.switcher.tick_frame t).trans h.frame_eq, h.swaps⟩
  | RunSwitch =>
    cases hs
    refine ⟨?_, fun part hp => ?_⟩
    · exact d.switcher.runSwitch_frame.trans h.frame_eq
    · rcases List.mem_append.mp hp with ho | hn
      · exact h.swaps part ho
      · simp only [Switcher.runSwitch, h.frame_eq, List.mem_cons, reduceCtorEq, Seam.RegionSwap.injEq,
          List.not_mem_nil, or_false, false_or] at hn
        exact ⟨_, hn⟩

theorem run_window (hr : d.switcher.phase = .Running) :
    ∃ t next, run step d [.Tick t, .RunSwitch] = some next ∧ next.switcher.phase = .Running ∧
      next.switcher.frame = d.switcher.frame ∧ next.switcher.cur = nextWindow d.switcher.cur ∧
      .RegionSwap d.incoming ∈ next.seams := by
  obtain ⟨s, seams⟩ := d
  have ht : (s.tick (s.frame.offset s.cur + s.frame.budget s.cur - 1)).2 =
      { s with phase := .SaveCtx, swapped := false } := by
    have hp : s.phase = .Running := hr
    simp [Switcher.tick, hp]
  have hrn : run step ⟨s, seams⟩ [.Tick (s.frame.offset s.cur + s.frame.budget s.cur - 1), .RunSwitch] =
      some ⟨{ s with cur := nextWindow s.cur, phase := .Running, swapped := true },
        seams ++ [.CtxSave (s.frame.partitionId s.cur), .RegionSwap (s.frame.partitionId (nextWindow s.cur)),
          .CtxResume (s.frame.partitionId (nextWindow s.cur))]⟩ := by
    simp only [run, step, Option.bind_some, ht, Switcher.runSwitch_tick]
    rfl
  exact ⟨_, _, hrn, rfl, rfl, rfl, by simp [incoming]⟩

theorem run_windows (frame : MajorFrame) (n : Nat) :
    ∃ ins d, run step (new frame) ins = some d ∧ d.switcher.phase = .Running ∧
      d.switcher.frame = frame ∧ d.switcher.cur = nextWindow^[n] 0 := by
  induction n with
  | zero => exact ⟨[], _, rfl, rfl, rfl, rfl⟩
  | succ n ih =>
    obtain ⟨ins, d, hrn, hr, hf, hc⟩ := ih
    obtain ⟨t, next, hn, hp, hs, hm, -⟩ := run_window hr
    refine ⟨ins ++ [.Tick t, .RunSwitch], next, run_append_eq_some.mpr ⟨d, hrn, hn⟩, hp, hs.trans hf, ?_⟩
    rw [hm, hc, Function.iterate_succ_apply']

theorem exists_before (w : Fin MAX_WINDOWS) : ∃ n, nextWindow (nextWindow^[n] 0) = w := by
  rcases window_cases w with rfl | rfl | rfl | rfl
  · exact ⟨3, rfl⟩
  · exact ⟨0, rfl⟩
  · exact ⟨1, rfl⟩
  · exact ⟨2, rfl⟩

theorem exists_swap (frame : MajorFrame) (w : Fin MAX_WINDOWS) :
    ∃ ins d, run step (new frame) ins = some d ∧ .RegionSwap (frame.partitionId w) ∈ d.seams := by
  obtain ⟨n, hn⟩ := exists_before w
  obtain ⟨ins, d, hrn, hr, hf, hc⟩ := run_windows frame n
  obtain ⟨t, next, hnx, -, -, -, hm⟩ := run_window hr
  refine ⟨ins ++ [.Tick t, .RunSwitch], next, run_append_eq_some.mpr ⟨d, hrn, hnx⟩, ?_⟩
  rwa [incoming, hf, hc, hn] at hm

end Driven

theorem frame_executable_iff (checked : Bool) (frame : MajorFrame) : (∀ requests inputs,
      Throughout Driven.step (Driven.Executed checked requests) (Driven.new frame) inputs) ↔
      ∀ w, (frame.partitionId w).toNat < MAX_PARTITIONS := by
  constructor
  · intro h w
    obtain ⟨inputs, d, hr, hm⟩ := Driven.exists_swap frame w
    exact (((h [] inputs).last hr) _ hm).below
  · intro h requests inputs
    have ho : Throughout Driven.step (Driven.Owned frame) (Driven.new frame) inputs :=
      throughout_of_step (fun _ _ _ ho hs => ho.step hs) (Driven.owned_new frame) inputs
    refine ho.mono fun d ho part hp => ?_
    obtain ⟨w, rfl⟩ := ho.swaps part hp
    exact executes_of_lt requests (h w)

-- An accepted frame whose second partition has the number 11: the first switch reads past
-- the table. And with a number of 2^29 the index wraps to the slots of partition 0.
theorem accepted_frame_not_executable : oneTickWindows.check = true ∧
      ¬ Throughout Driven.step (Driven.Executed true []) (Driven.new oneTickWindows)
        [.Tick 0, .RunSwitch] ∧
      (∀ (t : RegionTable) checked, t.programPartitionAny checked 11 = none) ∧
      ∀ t : RegionTable, t.programPartitionAny false 0x20000000 = some (t.programPartition 0) := by
  refine ⟨by decide, fun h => ?_, fun t checked => ?_, fun t => ?_⟩
  · exact absurd ((h.last rfl) 11 (by decide)).below (by decide)
  · cases checked <;> rfl
  · rfl

end Gale.PartitionSwitch
