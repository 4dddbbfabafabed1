import Gale.Kernel
import Gale.Lib.Run

namespace Gale.Timeslice

open Function Lib

-- From src/timeslice.rs.
def timesliceTickFullDecide (ticksRemaining sliceTicks : Nat) (isCooperative : Bool) : Bool × Nat :=
  if sliceTicks = 0 then (false, ticksRemaining)
  else if isCooperative then (false, ticksRemaining)
  else if ticksRemaining = 0 then (true, sliceTicks)
  else (false, ticksRemaining)

-- The deadline that z_add_timeout gives K_TICKS(ticks): -1 is K_FOREVER, and less than that
-- counts from the start of the clock.
def zAddTimeout (now : Nat) (ticks : Int) : Option Nat :=
  if ticks = -1 then none
  else if 0 ≤ ticks then some (now + ticks.toNat + 1)
  else some (max (now + 1) (-2 - ticks).toNat)

-- What the scheduler reads of a thread when it is called; preemptible also depends on the
-- lock of the scheduler.
structure Thread where
  prio : Int
  preemptible : Bool
  prevented : Bool
  idle : Bool

-- From zephyr/gale_timeslice.c, with CONFIG_TIMESLICE_PER_THREAD, on one CPU.
-- Beside the code's own: since when the current thread has its turn, and for which thread
-- the time slice was reset last.
structure State where
  now : Nat
  sliceTicks : Int
  sliceMaxPrio : Int
  threadTicks : Tid → Int
  timeout : Option Nat
  expired : Bool
  current : Tid
  since : Nat
  resetFor : Tid

inductive Op where
  -- after is what the slice_expired handler leaves
  | Tick (pending : Bool) (after : Tid → Thread)
  | Switch (thread : Tid)
  | SchedTimeSliceSet (slice prio : Int)
  | ThreadTimeSliceSet (thread : Tid) (ticks : Int)

namespace State

def sliceTime (s : State) (thread : Tid) : Int :=
  if s.threadTicks thread ≠ 0 then s.threadTicks thread else s.sliceTicks

def zTimeSliceSize (view : Tid → Thread) (s : State) (thread : Tid) : Int :=
  if (view thread).prevented ∨ (view thread).idle ∨ s.sliceTime thread = 0 then 0
  else if s.threadTicks thread ≠ 0 then s.threadTicks thread
  else if (view thread).preemptible ∧ ¬ (view thread).prio < s.sliceMaxPrio then s.sliceTicks
  else 0

def zResetTimeSlice (view : Tid → Thread) (s : State) (thread : Tid) : State :=
  let sliceSize := s.zTimeSliceSize view thread
  { s with
    timeout := if sliceSize ≠ 0 then zAddTimeout s.now (sliceSize - 1) else none
    expired := false
    resetFor := thread }

-- slice_timeout at the tick of the deadline
def announce (s : State) : State :=
  if s.timeout = some (s.now + 1) then { s with now := s.now + 1, timeout := none, expired := true }
  else { s with now := s.now + 1 }

def tickDecide (view : Tid → Thread) (s : State) : Bool :=
  (timesliceTickFullDecide (if s.expired then 0 else 1)
    (s.zTimeSliceSize view s.current % 4294967296).toNat !(view s.current).preemptible).1

-- Whether the current thread is moved to the end of its queue, and the state after.
def zTimeSlice (view after : Tid → Thread) (pending : Bool) (s : State) : Bool × State :=
  if pending then (false, s.zResetTimeSlice view s.current)
  else if s.tickDecide view then
    let moved := !(after s.current).prevented
    (moved, { s with since := if moved then s.now else s.since }.zResetTimeSlice after s.current)
  else (false, s)

def kSchedTimeSliceSet (msToTicks : Int → Int) (view : Tid → Thread) (s : State) (slice prio : Int) :
    State :=
  let s := { s with sliceTicks := msToTicks slice, sliceMaxPrio := prio }
  if s.threadTicks s.current = 0 then { s with since := s.now }.zResetTimeSlice view s.current else s

def kThreadTimeSliceSet (view : Tid → Thread) (s : State) (thread : Tid) (ticks : Int) : State :=
  { s with
    threadTicks := update s.threadTicks thread ticks
    since := if thread = s.current then s.now else s.since }.zResetTimeSlice view thread

def call (msToTicks : Int → Int) (s : State) : (Tid → Thread) × Op → State
  | (view, .Tick pending after) => (s.announce.zTimeSlice view after pending).2
  | (view, .Switch thread) =>
    { s with current := thread, since := s.now }.zResetTimeSlice view thread
  | (view, .SchedTimeSliceSet slice prio) => s.kSchedTimeSliceSet msToTicks view slice prio
  | (view, .ThreadTimeSliceSet thread ticks) => s.kThreadTimeSliceSet view thread ticks

def step (msToTicks : Int → Int) (s : State) (input : (Tid → Thread) × Op) : Option State :=
  some (s.call msToTicks input)

def Moves (s : State) : (Tid → Thread) × Op → Prop
  | (view, .Tick pending after) => (s.announce.zTimeSlice view after pending).1 = true
  | _ => False

def HadTurn (s : State) (view : Tid → Thread) : Prop :=
  s.zTimeSliceSize view s.current ≤ (s.now + 1 - s.since : Int)

def InTurn (s : State) (input : (Tid → Thread) × Op) : Prop :=
  s.Moves input → (input.1 s.current).preemptible = true ∧ s.HadTurn input.1

def boot (s : State) : State := { s with timeout := none, expired := false, since := s.now }

-- A time slice that was reset for the current thread does not end before its turn.
structure Inv (s : State) : Prop where
  since : s.since ≤ s.now
  timeout : s.resetFor = s.current → ∀ deadline, s.timeout = some deadline →
    s.since + s.sliceTime s.current ≤ deadline
  expired : s.resetFor = s.current → s.expired = true → s.since + s.sliceTime s.current ≤ s.now

end State

theorem le_zAddTimeout {now deadline : Nat} {size : Int}
    (h : zAddTimeout now (size - 1) = some deadline) : now + size ≤ deadline := by
  unfold zAddTimeout at h
  split_ifs at h <;> cases h <;> omega

namespace State

variable {view : Tid → Thread} {s : State} {thread : Tid}

theorem zTimeSliceSize_cases (view : Tid → Thread) (s : State) (thread : Tid) :
    s.zTimeSliceSize view thread = 0 ∨ s.zTimeSliceSize view thread = s.sliceTime thread := by
  unfold zTimeSliceSize sliceTime
  split_ifs <;> simp

theorem tickDecide_eq_true (h : s.tickDecide view = true) :
    s.expired = true ∧ (view s.current).preemptible = true := by
  cases he : s.expired <;> cases hp : (view s.current).preemptible <;>
    simp [tickDecide, timesliceTickFullDecide, he, hp] at h ⊢

theorem zResetTimeSlice_inv (view : Tid → Thread) (thread : Tid) (hs : s.since ≤ s.now) :
    (s.zResetTimeSlice view thread).Inv where
  since := hs
  timeout := by
    rintro (rfl : thread = s.current) deadline hd
    obtain ⟨hz, ht⟩ := Option.ite_none_right_eq_some.mp hd
    have hle := le_zAddTimeout ht
    rw [(zTimeSliceSize_cases view s s.current).resolve_left hz] at hle
    change s.since + s.sliceTime s.current ≤ _
    omega
  expired := fun _ h => nomatch h

theorem Inv.announce (h : s.Inv) : s.announce.Inv := by
  unfold State.announce
  split
  · next ht =>
    refine ⟨Nat.le_succ_of_le h.since, nofun, fun hr _ => ?_⟩
    exact h.timeout hr _ ht
  · refine ⟨Nat.le_succ_of_le h.since, h.timeout, fun hr he => ?_⟩
    have hle := h.expired hr he
    change s.since + s.sliceTime s.current ≤ ((s.now + 1 : Nat) : Int)
    omega

theorem Inv.zTimeSlice (view after : Tid → Thread) (pd : Bool) (h : s.Inv) : (s.zTimeSlice view after pd).2.Inv := by
  unfold State.zTimeSlice
  split
  · exact zResetTimeSlice_inv view s.current h.since
  · split
    · refine zResetTimeSlice_inv after s.current ?_
      have hs := h.since
      simp only
      split <;> omega
    · exact h

theorem Inv.kSchedTimeSliceSet (msToTicks : Int → Int) (view : Tid → Thread) (slice prio : Int)
    (h : s.Inv) : (s.kSchedTimeSliceSet msToTicks view slice prio).Inv := by
  simp only [State.kSchedTimeSliceSet]
  split
  · exact zResetTimeSlice_inv view _ (Nat.le_refl _)
  · next hn =>
    have heq : sliceTime { s with sliceTicks := msToTicks slice, sliceMaxPrio := prio } s.current =
        s.sliceTime s.current := by
      rw [sliceTime, sliceTime, if_pos hn, if_pos hn]
    refine ⟨h.since, fun hr deadline hd => ?_, fun hr he => ?_⟩
    · exact heq ▸ h.timeout hr deadline hd
    · exact heq ▸ h.expired hr he

theorem Inv.call (msToTicks : Int → Int) (a : (Tid → Thread) × Op) (h : s.Inv) : (s.call msToTicks a).Inv := by
  obtain ⟨view, op⟩ := a
  cases op with
  | Tick pd after => exact h.announce.zTimeSlice view after pd
  | Switch thread => exact zResetTimeSlice_inv view thread (Nat.le_refl _)
  | SchedTimeSliceSet slice prio => exact h.kSchedTimeSliceSet msToTicks view slice prio
  | ThreadTimeSliceSet thread tk =>
    refine zResetTimeSlice_inv view thread ?_
    have hs := h.since
    simp only
    split <;> omega

theorem boot_inv (s : State) : s.boot.Inv :=
  ⟨Nat.le_refl _, nofun, nofun⟩

theorem announce_current (s : State) : s.announce.current = s.current := by
  unfold announce
  split <;> rfl

theorem tickDecide_of_moved {view after : Tid → Thread} {pd : Bool}
    (h : (s.zTimeSlice view after pd).1 = true) : s.tickDecide view = true := by
  by_contra hd
  rw [zTimeSlice, if_neg hd] at h
  split at h <;> cases h

theorem moves_cases {a : (Tid → Thread) × Op} (h : s.Moves a) :
    s.announce.expired = true ∧ (a.1 s.current).preemptible = true := by
  obtain ⟨view, op⟩ := a
  cases op with
  | Tick pd after =>
    have hc := tickDecide_eq_true (tickDecide_of_moved h)
    rwa [announce_current] at hc
  | Switch _ | SchedTimeSliceSet _ _ | ThreadTimeSliceSet _ _ => exact h.elim

theorem Inv.hadTurn (view : Tid → Thread) (h : s.Inv) (hr : s.resetFor = s.current)
    (he : s.announce.expired = true) : s.HadTurn view := by
  have hs := h.since
  have hle : s.since + s.sliceTime s.current ≤ s.now + 1 := by
    unfold State.announce at he
    split_ifs at he with ht
    · exact h.timeout hr _ ht
    · have hle := h.expired hr he
      omega
  unfold HadTurn
  rcases zTimeSliceSize_cases view s s.current with hz | hz <;> omega

-- The turn is kept unless the time slice was last reset for a thread that is not running.
theorem Inv.inTurn_iff {a : (Tid → Thread) × Op} (h : s.Inv) :
    s.InTurn a ↔ (s.resetFor ≠ s.current → s.Moves a → s.HadTurn a.1) := by
  refine ⟨fun ht _ hm => (ht hm).2, fun ht hm => ?_⟩
  obtain ⟨he, hp⟩ := moves_cases hm
  refine ⟨hp, ?_⟩
  by_cases hr : s.resetFor = s.current
  · exact h.hadTurn a.1 hr he
  · exact ht hr hm

end State

-- Thread 1 runs with a slice of 10 ticks; after one of them thread 2 is given a slice of 1.
def plain : Tid → Thread := fun _ => ⟨0, true, false, false⟩

def early : List ((Tid → Thread) × Op) :=
  [(plain, .Switch 1), (plain, .Tick false plain), (plain, .ThreadTimeSliceSet 2 1)]

end Gale.Timeslice
