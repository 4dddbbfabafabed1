import Gale.HealthMonitor

namespace Gale.HealthMonitor

inductive Event where
  | Fault (f : Fault)
  | Restart (obs : Obs)
  | Quiet (obs : Obs)

-- The monitor with two counts no transition reads: the restarts it accepted
-- and the quiet calls whose observation cleared every gate.
structure Watch where
  hm : Hm
  restarts : Nat
  quiet : Nat

namespace Watch

def init : Watch where
  hm := Hm.init
  restarts := 0
  quiet := 0

def step (w : Watch) : Event → Watch
  | .Fault f => { w with hm := w.hm.onFault f }
  | .Restart obs =>
    { w with
      hm := (w.hm.tryRestart obs).1
      restarts := w.restarts + if (w.hm.tryRestart obs).2 then 1 else 0 }
  | .Quiet obs =>
    { w with
      hm := w.hm.onQuiet obs
      quiet := w.quiet + if allClear obs then 1 else 0 }

def after (events : List Event) : Watch := events.foldl step init

end Watch

namespace Hm

theorem onFault_remaining (hm : Hm) (f : Fault) : (hm.onFault f).restartsRemaining ≤ hm.restartsRemaining := by
  unfold onFault
  split
  · exact Nat.le_refl _
  · split
    · exact Nat.zero_le _
    · exact Nat.sub_le _ _
  · split
    · exact Nat.zero_le _
    · exact Nat.le_refl _
  · exact Nat.le_refl _

theorem onFault_streak (hm : Hm) (f : Fault) : (hm.onFault f).quietStreak ≤ hm.quietStreak := by
  unfold onFault
  split
  · exact Nat.zero_le _
  · split <;> exact Nat.le_refl _
  · split <;> exact Nat.le_refl _
  · exact Nat.le_refl _

theorem tryRestart_cases (hm : Hm) (obs : Obs) : (hm.tryRestart obs = (hm, false)) ∨
    (hm.state = .Degraded ∧ 1 ≤ hm.restartsRemaining ∧ allClear obs = true ∧ hm.tryRestart obs = ({ hm with
            state := .Normal
            restartsRemaining := hm.restartsRemaining - 1
            quietStreak := 0 }, true)) := by
  unfold tryRestart
  split
  · next h =>
    split
    · next hc => exact .inr ⟨h.1, h.2, hc, rfl⟩
    · exact .inl rfl
  · exact .inl rfl

theorem onQuiet_cases (hm : Hm) (obs : Obs) : (hm.onQuiet obs).restartsRemaining = hm.restartsRemaining ∧
      (hm.onQuiet obs).quietStreak ≤ hm.quietStreak + (if allClear obs then 1 else 0) ∨
    allClear obs = true ∧ COOLDOWN_QUIET ≤ hm.quietStreak + 1 ∧
      (hm.onQuiet obs).restartsRemaining = MAX_RESTARTS ∧ (hm.onQuiet obs).quietStreak = 0 := by
  unfold onQuiet
  split
  · split
    · next hc =>
      split
      · next hf => exact .inr ⟨hc, hf, rfl, rfl⟩
      · exact .inl ⟨rfl, by simp⟩
    · exact .inl ⟨rfl, Nat.zero_le _⟩
  · exact .inl ⟨rfl, Nat.le_add_right _ _⟩

end Hm

namespace Watch

-- Every refill is paid by four clear calls that no other refill uses, and
-- buys at most three restarts.
def Funded (w : Watch) : Prop :=
  ∃ refills, w.restarts + w.hm.restartsRemaining ≤ MAX_RESTARTS + MAX_RESTARTS * refills ∧
    COOLDOWN_QUIET * refills + w.hm.quietStreak ≤ w.quiet

variable {w : Watch}

theorem Funded.fault (f : Fault) (h : w.Funded) : (w.step (.Fault f)).Funded := by
  obtain ⟨rf, hs, hp⟩ := h
  have hr := w.hm.onFault_remaining f
  have hst := w.hm.onFault_streak f
  refine ⟨rf, ?_, ?_⟩
  · simp only [step]
    omega
  · simp only [step]
    omega

theorem Funded.restart (obs : Obs) (h : w.Funded) : (w.step (.Restart obs)).Funded := by
  obtain ⟨rf, hs, hp⟩ := h
  refine ⟨rf, ?_⟩
  rcases w.hm.tryRestart_cases obs with heq | ⟨_, hc, _, heq⟩
  · simp only [step, heq]
    exact ⟨hs, hp⟩
  · simp only [step, heq, if_true]
    omega

theorem Funded.quiet (obs : Obs) (h : w.Funded) : (w.step (.Quiet obs)).Funded := by
  obtain ⟨refills, hsp, hp⟩ := h
  rcases w.hm.onQuiet_cases obs with ⟨hr, hs⟩ | ⟨hc, hf, hr, hs⟩
  · refine ⟨refills, ?_, ?_⟩
    · simp only [step, hr]
      exact hsp
    · simp only [step]
      omega
  · have hrf : w.restarts ≤ MAX_RESTARTS + MAX_RESTARTS * refills := by omega
    refine ⟨refills + 1, ?_, ?_⟩
    · simp only [step, hr, Nat.mul_succ]
      omega
    · simp only [step, hs, hc, if_true, Nat.mul_succ]
      omega

theorem Funded.step (h : w.Funded) (event : Event) : (w.step event).Funded := by
  cases event with
  | Fault f => exact h.fault f
  | Restart obs => exact h.restart obs
  | Quiet obs => exact h.quiet obs

theorem after_funded (es : List Event) : (after es).Funded := by
  have hi : init.Funded := ⟨0, Nat.le_refl _, Nat.le_refl _⟩
  exact List.foldlRecOn es Watch.step hi (fun _ h event _ => h.step event)

theorem step_latched (h : w.hm.isFailsafeLatched = true) (event : Event) :
    (w.step event).hm.isFailsafeLatched = true ∧ (w.step event).hm.cause = w.hm.cause := by
  have hst : w.hm.state = .PartitionFailsafe ∨ w.hm.state = .CrossCoreTrip := by
    simpa [Hm.isFailsafeLatched] using h
  cases event with
  | Fault f =>
    rcases hst with hs | hs
    · simp only [step, Hm.onFault, hs]
      split
      · exact ⟨rfl, rfl⟩
      · exact ⟨h, rfl⟩
    · simp only [step, Hm.onFault, hs]
      exact ⟨h, trivial⟩
  | Restart obs =>
    rcases w.hm.tryRestart_cases obs with heq | ⟨hd, _⟩
    · simp only [step, heq]
      exact ⟨h, trivial⟩
    · rcases hst with hs | hs <;> rw [hs] at hd <;> cases hd
  | Quiet obs =>
    have hn : w.hm.state ≠ .Normal := by
      rcases hst with hs | hs <;> rw [hs] <;> decide
    simp only [step, Hm.onQuiet, if_neg hn]
    exact ⟨h, trivial⟩

theorem foldl_latched (es : List Event) (h : w.hm.isFailsafeLatched = true) :
    (es.foldl Watch.step w).hm.isFailsafeLatched = true ∧ (es.foldl Watch.step w).hm.cause = w.hm.cause := by
  induction es generalizing w with
  | nil => exact ⟨h, rfl⟩
  | cons event es ih =>
    obtain ⟨hl, hc⟩ := step_latched h event
    obtain ⟨hr, hk⟩ := ih hl
    exact ⟨hr, hk.trans hc⟩

theorem restart_rate_and_latch (events : List Event) :
    (after events).restarts ≤ 3 + 3 * ((after events).quiet / 4) ∧
    ((after events).hm.isFailsafeLatched = true → ∀ later,
        (after (events ++ later)).hm.state ≠ .Normal ∧
        (after (events ++ later)).hm.state ≠ .Degraded ∧
        (after (events ++ later)).hm.cause = (after events).hm.cause) := by
  constructor
  · obtain ⟨refills, hsp, hp⟩ := after_funded events
    simp only [MAX_RESTARTS, COOLDOWN_QUIET] at hsp hp
    omega
  · intro hl later
    have ha : after (events ++ later) = later.foldl step (after events) := List.foldl_append
    obtain ⟨hst, hc⟩ := foldl_latched later hl
    rw [← ha] at hst hc
    refine ⟨?_, ?_, hc⟩
    · intro hs
      simp [Hm.isFailsafeLatched, hs] at hst
    · intro hs
      simp [Hm.isFailsafeLatched, hs] at hst

end Watch

end Gale.HealthMonitor
