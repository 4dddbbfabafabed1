import Gale.Kernel
import Gale.Lib.Run

namespace Gale.Timeouts

open Lib

-- From src/timeout.rs. Ticks are u64, and the last of them never comes.
def K_FOREVER_TICKS : Nat := 2 ^ 64 - 1

def K_NO_WAIT_TICKS : Nat := 0

structure Timeout where
  deadline : Nat
  active : Bool
  currentTick : Nat

inductive Call where
  | Add (duration : Nat)
  | AddAbsolute (deadline : Nat)
  | Abort
  | Announce (ticks : Nat)

namespace Timeout

def init (currentTick : Nat) : Timeout := ⟨0, false, currentTick⟩

def add (t : Timeout) (duration : Nat) : Except Int Nat × Timeout :=
  if K_FOREVER_TICKS - t.currentTick ≤ duration then (.error EINVAL, t)
  else (.ok (t.currentTick + duration), { t with deadline := t.currentTick + duration, active := true })

def addAbsolute (t : Timeout) (deadline : Nat) : Except Int Nat × Timeout :=
  if deadline < t.currentTick ∨ K_FOREVER_TICKS ≤ deadline then (.error EINVAL, t)
  else (.ok deadline, { t with deadline := deadline, active := true })

def abort (t : Timeout) : Int × Timeout :=
  if t.active then (OK, { t with active := false }) else (EINVAL, t)

def announce (t : Timeout) (ticks : Nat) : Except Int Bool × Timeout :=
  if K_FOREVER_TICKS - t.currentTick ≤ ticks then (.error EINVAL, t)
  else
    let t := { t with currentTick := t.currentTick + ticks }
    if t.active = true ∧ t.deadline ≠ K_FOREVER_TICKS ∧ t.deadline ≤ t.currentTick then
      (.ok true, { t with active := false })
    else (.ok false, t)

def timepointCalc (t : Timeout) (duration : Nat) : Except Int Nat :=
  if K_FOREVER_TICKS - t.currentTick ≤ duration then .error EINVAL
  else .ok (t.currentTick + duration)

def timepointTimeout (t : Timeout) (timepoint : Nat) : Nat :=
  if timepoint = K_FOREVER_TICKS then K_FOREVER_TICKS
  else if timepoint = K_NO_WAIT_TICKS then 0
  else if t.currentTick < timepoint then timepoint - t.currentTick
  else 0

def next (t : Timeout) : Call → Timeout
  | .Add duration => (t.add duration).2
  | .AddAbsolute deadline => (t.addAbsolute deadline).2
  | .Abort => t.abort.2
  | .Announce ticks => (t.announce ticks).2

def step (t : Timeout) (call : Call) : Option Timeout := some (t.next call)

variable {t armed s : Timeout} {d ticks : Nat} {call : Call} {past : List Call}

def Sets (t : Timeout) (d : Nat) : Call → Prop
  | .Add duration => (t.add duration).1 = .ok d
  | .AddAbsolute deadline => (t.addAbsolute deadline).1 = .ok d
  | _ => False

def Accepts (t : Timeout) (ticks : Nat) : Prop := t.currentTick + ticks < K_FOREVER_TICKS

instance : Decidable (Accepts t ticks) := Nat.decLt _ _

def Fires (t : Timeout) (ticks : Nat) : Prop := (t.announce ticks).1 = .ok true

def Quiet (t : Timeout) (call : Call) : Prop := ∀ d, ¬ t.Sets d call

-- The call is no abort, and no accepted announce with which the time gets to d.
def Before (d : Nat) (t : Timeout) : Call → Prop
  | .Abort => False
  | .Announce ticks => t.Accepts ticks → t.currentTick + ticks < d
  | _ => True

theorem refuses_iff : K_FOREVER_TICKS - t.currentTick ≤ ticks ↔ ¬ t.Accepts ticks := by
  unfold Accepts
  omega

theorem next_of_sets (h : t.Sets d call) :
    t.next call = { t with deadline := d, active := true } ∧ d < K_FOREVER_TICKS := by
  cases call with
  | Add duration =>
    simp only [Sets, add] at h
    split at h <;> cases h
    next hf =>
      simp only [next, add, if_neg hf, true_and]
      omega
  | AddAbsolute deadline =>
    simp only [Sets, addAbsolute] at h
    split at h <;> cases h
    next hf =>
      simp only [next, addAbsolute, if_neg hf, true_and]
      omega
  | Abort | Announce ticks => cases h

theorem announce_refused (h : ¬ t.Accepts ticks) : t.announce ticks = (.error EINVAL, t) :=
  if_pos (refuses_iff.mpr h)

theorem announce_accepted (h : t.Accepts ticks) (hf : t.deadline ≠ K_FOREVER_TICKS) : t.announce ticks =
      if t.active = true ∧ t.deadline ≤ t.currentTick + ticks then
        (.ok true, ⟨t.deadline, false, t.currentTick + ticks⟩)
      else (.ok false, ⟨t.deadline, t.active, t.currentTick + ticks⟩) := by
  simp only [announce, if_neg (fun hle => refuses_iff.mp hle h), hf, ne_eq, not_false_eq_true, true_and]

theorem fires_iff (hf : t.deadline ≠ K_FOREVER_TICKS) :
    t.Fires ticks ↔ t.Accepts ticks ∧ t.deadline ≤ t.currentTick + ticks ∧ t.active = true := by
  by_cases ha : t.Accepts ticks
  · rw [Fires, announce_accepted ha hf]
    split
    · simp_all
    · simp only [Except.ok.injEq, Bool.false_eq_true, false_iff]
      tauto
  · simp [Fires, announce_refused ha, ha]

theorem next_of_quiet (hf : t.deadline ≠ K_FOREVER_TICKS) (h : t.Quiet call) : (t.next call).deadline = t.deadline ∧
      ((t.next call).active = true ↔ t.active = true ∧ t.Before t.deadline call) := by
  cases call with
  | Add duration =>
    have hr : K_FOREVER_TICKS - t.currentTick ≤ duration := by
      by_contra hfits
      exact h (t.currentTick + duration) (by simp only [Sets, add, if_neg hfits])
    simp only [next, add, if_pos hr, Before, and_true]
  | AddAbsolute deadline =>
    have hr : deadline < t.currentTick ∨ K_FOREVER_TICKS ≤ deadline := by
      by_contra hfits
      exact h deadline (by simp only [Sets, addAbsolute, if_neg hfits])
    simp only [next, addAbsolute, if_pos hr, Before, and_true]
  | Abort => cases hac : t.active <;> simp [next, abort, Before, hac]
  | Announce ticks =>
    by_cases ha : t.Accepts ticks
    · simp only [next, Before, ha, forall_const, announce_accepted ha hf]
      split <;> simp_all
    · simp [next, Before, ha, announce_refused ha]

theorem run_of_quiet (hf : t.deadline ≠ K_FOREVER_TICKS) (hq : Along step Quiet t past)
    (hrn : run step t past = some s) : s.deadline = t.deadline ∧
      (s.active = true ↔ t.active = true ∧ Along step (Before t.deadline) t past) := by
  induction past generalizing t with
  | nil =>
    cases hrn
    simp [Along]
  | cons call rest ih =>
    obtain ⟨hc, hr⟩ := hq _ rfl
    obtain ⟨hs, ha⟩ := next_of_quiet hf hc
    obtain ⟨_, hn, hrn⟩ := run_cons_eq_some.mp hrn
    cases hn
    obtain ⟨hl, hk⟩ := ih (hs ▸ hf) hr hrn
    refine ⟨hl.trans hs, ?_⟩
    rw [hk, ha, hs, and_assoc]
    simp [Along, step]

theorem run_announces (ss : List Nat) (hf : t.Accepts ss.sum) :
    ∃ s, run step t (ss.map .Announce) = some s ∧ s.currentTick = t.currentTick + ss.sum ∧
      Along step Quiet t (ss.map .Announce) ∧
      (Along step (Before d) t (ss.map .Announce) ↔ ss = [] ∨ t.currentTick + ss.sum < d) := by
  induction ss generalizing t with
  | nil => exact ⟨t, rfl, rfl, trivial, by simp [Along]⟩
  | cons ticks rest ih =>
    simp only [List.sum_cons, Accepts] at hf
    have ha : t.Accepts ticks := by unfold Accepts; omega
    have ht : (t.next (.Announce ticks)).currentTick = t.currentTick + ticks := by
      simp only [next, announce, if_neg (fun hle => refuses_iff.mp hle ha)]
      split <;> rfl
    obtain ⟨s, hr, hl, hq, hb⟩ := ih (t := t.next (.Announce ticks))
      (by rw [Accepts, ht]; omega)
    refine ⟨s, run_cons_eq_some.mpr ⟨_, rfl, hr⟩, ?_, ?_, ?_⟩
    · rw [hl, ht, List.sum_cons, Nat.add_assoc]
    · rintro _ ⟨⟩
      exact ⟨fun _ h => h, hq⟩
    · simp only [List.map_cons, Along, step, Option.some.injEq, forall_eq', hb, ht, Before,
        ha, forall_const, reduceCtorEq, false_or, List.sum_cons]
      cases rest <;> simp
      omega

theorem fires_once_when_due (hset : t.Sets d call) (harmed : t.next call = armed) :
    (∀ past s, run step armed past = some s → Along step Quiet armed past → ∀ ticks,
      (s.Fires ticks ↔ s.Accepts ticks ∧ d ≤ s.currentTick + ticks ∧ Along step (Before d) armed past) ∧
      (s.Fires ticks → ∀ more s' ticks', run step s (.Announce ticks :: more) = some s' →
        Along step Quiet s (.Announce ticks :: more) → ¬ s'.Fires ticks')) ∧
    ∀ earlier ticks, armed.Accepts (earlier.sum + ticks) →
      ∃ s, run step armed (earlier.map .Announce) = some s ∧
        (s.Fires ticks ↔ d ≤ armed.currentTick + earlier.sum + ticks ∧
          (earlier = [] ∨ armed.currentTick + earlier.sum < d)) := by
  obtain ⟨hn, hlt⟩ := next_of_sets hset
  obtain rfl : _ = armed := hn.symm.trans harmed
  have hf : d ≠ K_FOREVER_TICKS := Nat.ne_of_lt hlt
  have hfr {past : List Call} {s : Timeout}
      (hr : run step { t with deadline := d, active := true } past = some s)
      (hq : Along step Quiet { t with deadline := d, active := true } past) (ticks : Nat) :
      s.deadline = d ∧ (s.Fires ticks ↔ s.Accepts ticks ∧ d ≤ s.currentTick + ticks ∧
        Along step (Before d) { t with deadline := d, active := true } past) := by
    obtain ⟨hs, hac⟩ := run_of_quiet hf hq hr
    have hd : s.deadline = d := hs
    refine ⟨hd, ?_⟩
    rw [fires_iff (hd ▸ hf), hd, hac]
    simp
  refine ⟨fun past s hr hq ticks => ⟨(hfr hr hq ticks).2, ?_⟩,
    fun earlier ticks hft => ?_⟩
  · intro hfd more s' ticks' hm hqt hagain
    obtain ⟨hd, hi⟩ := hfr hr hq ticks
    obtain ⟨ha, hdu, -⟩ := hi.mp hfd
    obtain ⟨hs, hac⟩ := run_of_quiet (hd ▸ hf) hqt hm
    obtain ⟨-, -, hst⟩ := (fires_iff (hs ▸ hd ▸ hf)).mp hagain
    -- still active after more, it would have waited on through the announce that fired
    have hb := ((hac.mp hst).2 _ rfl).1 ha
    omega
  · have hsm : ({ t with deadline := d, active := true } : Timeout).Accepts earlier.sum := by
      unfold Accepts at hft ⊢
      omega
    obtain ⟨s, hr, ht, hq, hb⟩ := run_announces (d := d) earlier hsm
    refine ⟨s, hr, ?_⟩
    have ha : s.Accepts ticks := by
      unfold Accepts at hft ⊢
      omega
    rw [(hfr hr hq ticks).2, hb, ht]
    exact and_iff_right ha

theorem seven_is_due_after_two_ticks : (init 5).Sets 7 (.Add 2) ∧
    ∃ s, run step ⟨7, true, 5⟩ [.Announce 1] = some s ∧ (s.Fires 1 ↔ 7 ≤ 5 + 1 + 1 ∧ 5 + 1 < 7) := by
  have hs : (init 5).Sets 7 (.Add 2) := rfl
  obtain ⟨s, hr, hf⟩ := (fires_once_when_due hs rfl).2 [1] 1 (by decide)
  exact ⟨hs, s, hr, by simpa [next, add, init, K_FOREVER_TICKS] using hf⟩

theorem refused_announce_when_due : (init 0).Sets 0 (.Add 0) ∧
    0 ≤ (((init 0).next (.Add 0)).next (.Announce K_FOREVER_TICKS)).currentTick ∧
    ¬ ((init 0).next (.Add 0)).Fires K_FOREVER_TICKS := by
  refine ⟨rfl, Nat.zero_le _, ?_⟩
  have hr : ¬ ((init 0).next (.Add 0)).Accepts K_FOREVER_TICKS := by decide
  simp [Fires, announce_refused hr]

-- What a duration turned into a timepoint and back gives once more ticks are announced.
def RoundTrip (t : Timeout) (duration : Nat) : Prop :=
  duration = K_FOREVER_TICKS ∨ duration = K_NO_WAIT_TICKS ∨ t.Accepts duration →
    ∃ timepoint, t.timepointCalc duration = .ok timepoint ∧
      ∀ (later : List Nat) s, run step t (later.map .Announce) = some s → s.timepointTimeout timepoint =
          if duration = K_FOREVER_TICKS then K_FOREVER_TICKS
          else if duration = K_NO_WAIT_TICKS then K_NO_WAIT_TICKS
          else duration - (s.currentTick - t.currentTick)

theorem next_goes_forward (t : Timeout) (call : Call) :
    t.currentTick ≤ (t.next call).currentTick ∧ (t.Accepts 0 → (t.next call).Accepts 0) := by
  cases call with
  | Announce ticks =>
    simp only [next, announce, Accepts]
    split
    · exact ⟨Nat.le_refl _, id⟩
    · split <;> simp only <;> omega
  | _ =>
    simp only [next, add, addAbsolute, abort, Accepts]
    split <;> exact ⟨Nat.le_refl _, id⟩

theorem run_goes_forward (hr : run step t past = some s) :
    t.currentTick ≤ s.currentTick ∧ (t.Accepts 0 → s.Accepts 0) := by
  induction past generalizing t with
  | nil =>
    cases hr
    exact ⟨Nat.le_refl _, id⟩
  | cons call rest ih =>
    obtain ⟨_, hn, hr⟩ := run_cons_eq_some.mp hr
    cases hn
    have hc := t.next_goes_forward call
    exact ⟨Nat.le_trans hc.1 (ih hr).1, fun h => (ih hr).2 (hc.2 h)⟩

-- K_FOREVER is refused, although it should become the last tick.
theorem timepoint_round_trip_iff {announced : List Nat}
    (hrun : run step (init 0) (announced.map .Announce) = some t) (duration : Nat) :
    t.RoundTrip duration ↔ duration ≠ K_FOREVER_TICKS := by
  have hn : t.Accepts 0 := (run_goes_forward hrun).2 (by decide)
  constructor
  · rintro h rfl
    obtain ⟨timepoint, hc, -⟩ := h (.inl rfl)
    rw [timepointCalc, if_pos (Nat.sub_le _ _)] at hc
    cases hc
  · intro hf hd
    have hft : t.currentTick + duration < K_FOREVER_TICKS := by
      rcases hd with hfr | rfl | hft
      · exact absurd hfr hf
      · exact hn
      · exact hft
    refine ⟨t.currentTick + duration, if_neg (by omega), fun later s hl => ?_⟩
    have hle := (run_goes_forward hl).1
    rw [if_neg hf, timepointTimeout, if_neg (Nat.ne_of_lt hft)]
    have hz : K_NO_WAIT_TICKS = 0 := rfl
    split_ifs <;> omega

theorem round_trip_of_ten_ticks : (init 0).RoundTrip 10 := by
  have hr : run step (init 0) (([] : List Nat).map .Announce) = some (init 0) := rfl
  exact (timepoint_round_trip_iff hr 10).mpr (by decide)

theorem forever_is_refused : run step (init 0) [] = some (init 0) ∧
    (init 0).timepointCalc K_FOREVER_TICKS = .error EINVAL ∧ ¬ (init 0).RoundTrip K_FOREVER_TICKS := by
  have hc : (init 0).timepointCalc K_FOREVER_TICKS = .error EINVAL := rfl
  refine ⟨rfl, hc, fun h => ?_⟩
  obtain ⟨timepoint, hok, -⟩ := h (.inl rfl)
  cases hc.symm.trans hok

end Timeout

end Gale.Timeouts
