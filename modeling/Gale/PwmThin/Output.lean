import Gale.PwmThin
import Gale.Lib.Bits
import Gale.Lib.Run

namespace Gale.PwmThin

open Lib

inductive Call where
  | Configure (psc period : UInt32)
  | SetDuty (duty period : UInt32)
  | Start
  | Failsafe

structure Timer where
  word : UInt32
  regs : Regs

-- What the pin depends on: the decoded word, the compare and auto-reload
-- registers, and the main output enable.
structure Stage where
  phase : Phase
  duty : UInt32
  ccr : UInt32
  arr : UInt32
  moe : Bool

namespace Stage

def off : Stage where
  phase := .Off
  duty := 0
  ccr := 0
  arr := 0
  moe := false

def step (s : Stage) : Call → Option Stage
  | .Configure _ period =>
    match s.phase with
    | .Off | .Safe => some { s with phase := .Configured, duty := 0, arr := period &&& MAX_16 }
    | _ => some s
  | .SetDuty duty period =>
    match s.phase with
    | .Configured | .Running =>
      some { s with duty := clampDuty duty period, ccr := clampDuty duty period }
    | _ => some s
  | .Start =>
    match s.phase with
    | .Configured => some { s with phase := .Running, moe := true }
    | _ => some s
  | .Failsafe => some { s with phase := .Safe, duty := 0, moe := false }

def InPeriod (s : Stage) : Prop := s.moe = true → s.ccr ≤ s.arr ∧ s.ccr = s.duty

def Agrees (s : Stage) : Call → Prop
  | .SetDuty duty period =>
    s.phase = .Running → duty &&& MAX_16 ≤ s.arr ∨ period &&& MAX_16 ≤ s.arr
  | .Start => s.phase = .Configured → s.ccr ≤ s.arr ∧ s.ccr = s.duty
  | _ => True

structure Inv (s : Stage) : Prop where
  inPeriod : s.InPeriod
  moe_iff : s.moe = true ↔ s.phase = .Running

end Stage

theorem clampDuty_le_iff (duty p bound : UInt32) :
    clampDuty duty p ≤ bound ↔ duty &&& MAX_16 ≤ bound ∨ p &&& MAX_16 ≤ bound := by
  simp only [clampDuty, gt_iff_lt, UInt32.lt_iff_toNat_lt, UInt32.le_iff_toNat_le]
  split
  · omega
  · omega

namespace Stage

theorem step_cases {s next : Stage} {call : Call} (hs : s.step call = some next) : (next = s ∧ s.Agrees call) ∨
    (∃ psc p, call = .Configure psc p ∧ (s.phase = .Off ∨ s.phase = .Safe) ∧
      next = { s with phase := .Configured, duty := 0, arr := p &&& MAX_16 }) ∨
    (∃ duty p, call = .SetDuty duty p ∧ (s.phase = .Configured ∨ s.phase = .Running) ∧
      next = { s with duty := clampDuty duty p, ccr := clampDuty duty p }) ∨
    (call = .Start ∧ s.phase = .Configured ∧ next = { s with phase := .Running, moe := true }) ∨
    (call = .Failsafe ∧ next = { s with phase := .Safe, duty := 0, moe := false }) := by
  cases call with
  | Configure psc p =>
    simp only [step] at hs
    split at hs
    · next hp => exact .inr (.inl ⟨psc, p, rfl, .inl hp, (Option.some.inj hs).symm⟩)
    · next hp => exact .inr (.inl ⟨psc, p, rfl, .inr hp, (Option.some.inj hs).symm⟩)
    · exact .inl ⟨(Option.some.inj hs).symm, trivial⟩
  | SetDuty duty p =>
    simp only [step] at hs
    split at hs
    · next hp =>
      exact .inr (.inr (.inl ⟨duty, p, rfl, .inl hp, (Option.some.inj hs).symm⟩))
    · next hp =>
      exact .inr (.inr (.inl ⟨duty, p, rfl, .inr hp, (Option.some.inj hs).symm⟩))
    · next ho => exact .inl ⟨(Option.some.inj hs).symm, fun hp => absurd hp ho⟩
  | Start =>
    simp only [step] at hs
    split at hs
    · next hp =>
      exact .inr (.inr (.inr (.inl ⟨rfl, hp, (Option.some.inj hs).symm⟩)))
    · next ho => exact .inl ⟨(Option.some.inj hs).symm, fun hp => absurd hp ho⟩
  | Failsafe => exact .inr (.inr (.inr (.inr ⟨rfl, (Option.some.inj hs).symm⟩)))

theorem Inv.step_inPeriod_iff {s next : Stage} {call : Call} (h : s.Inv)
    (hs : s.step call = some next) : next.InPeriod ↔ s.Agrees call := by
  have hin := h.inPeriod
  rcases step_cases hs with ⟨rfl, ha⟩ | ⟨psc, p, rfl, hph, rfl⟩ |
    ⟨duty, p, rfl, hph, rfl⟩ | ⟨rfl, hph, rfl⟩ | ⟨rfl, rfl⟩
  · exact iff_of_true hin ha
  · -- Neither phase a configure is accepted in drives the pin.
    have ho : s.moe ≠ true := by
      rw [ne_eq, h.moe_iff]
      rcases hph with hp | hp <;> simp [hp]
    exact iff_of_true (fun hm => absurd hm ho) trivial
  · simp [InPeriod, Agrees, clampDuty_le_iff, h.moe_iff]
  · simp [InPeriod, Agrees, hph]
  · simp [InPeriod, Agrees]

theorem Inv.step_moe_iff {s next : Stage} {call : Call} (h : s.Inv)
    (hs : s.step call = some next) : next.moe = true ↔ next.phase = .Running := by
  rcases step_cases hs with ⟨rfl, _⟩ | ⟨psc, p, _, hph, rfl⟩ |
    ⟨duty, p, _, _, rfl⟩ | ⟨_, _, rfl⟩ | ⟨_, rfl⟩
  · exact h.moe_iff
  · rw [h.moe_iff]
    rcases hph with hp | hp <;> simp [hp]
  · exact h.moe_iff
  · simp
  · simp

theorem off_inv : off.Inv where
  inPeriod := by simp [InPeriod, off]
  moe_iff := by simp [off]

theorem throughout_inPeriod_iff (calls : List Call) :
    Throughout Stage.step InPeriod off calls ↔ Along Stage.step Agrees off calls := by
  refine throughout_iff_along Inv (fun _ h => h.inPeriod) ?_ ?_ off_inv calls
  · intro s call next h ha hs
    exact ⟨(h.step_inPeriod_iff hs).mpr ha, h.step_moe_iff hs⟩
  · intro s call next h ha hs hin
    exact ha ((h.step_inPeriod_iff hs).mp hin)

end Stage

theorem toNat_phEnc_lt (phase : Phase) : (phEnc phase).toNat < 4 := by
  cases phase <;> decide

theorem phDec_phEnc (phase : Phase) : phDec (phEnc phase) = phase := by
  cases phase <;> rfl

theorem toNat_duty_lt (duty : UInt32) : (duty &&& DUTY_MASK).toNat < 2 ^ PHASE_SHIFT.toNat := by
  have hl := Bits.toNat_and_halfword duty
  have hw : 2 ^ PHASE_SHIFT.toNat = 2 ^ 30 := rfl
  rw [hw, DUTY_MASK, hl]
  omega

theorem toNat_pack (p : Pwm) : (pack p).toNat = (phEnc p.phase).toNat * 2 ^ 30 + p.duty.toNat % 2 ^ 16 := by
  have hs : PHASE_SHIFT.toNat < 32 := by decide
  have hf := Bits.toNat_field hs (toNat_phEnc_lt p.phase) (toNat_duty_lt p.duty)
  have hl := Bits.toNat_and_halfword p.duty
  rw [pack, hf, DUTY_MASK, hl]
  rfl

theorem unpack_pack (p : Pwm) : unpack (pack p) = { p with duty := p.duty &&& DUTY_MASK } := by
  have hp : pack p >>> PHASE_SHIFT = phEnc p.phase :=
    Bits.field_shiftRight (by decide) (toNat_phEnc_lt p.phase) (toNat_duty_lt p.duty)
  have hd : pack p &&& DUTY_MASK = p.duty &&& DUTY_MASK := by
    apply UInt32.toNat.inj
    simp only [DUTY_MASK, Bits.toNat_and_halfword, toNat_pack]
    omega
  rw [unpack, hp, hd, phDec_phEnc]

theorem pack_ne_fault (p : Pwm) : pack p ≠ PWM_FAULT := by
  intro h
  have hn := congrArg UInt32.toNat h
  have hf : PWM_FAULT.toNat = 4294967295 := rfl
  rw [toNat_pack, hf] at hn
  omega

theorem halfword_idem (x : UInt32) : x &&& DUTY_MASK &&& DUTY_MASK = x &&& DUTY_MASK := by
  rw [UInt32.and_assoc]
  rfl

theorem clampDuty_halfword (duty period : UInt32) : clampDuty duty period &&& DUTY_MASK = clampDuty duty period := by
  simp only [clampDuty]
  split
  · exact halfword_idem period
  · exact halfword_idem duty

@[simp] theorem wr_offset (regs : Regs) (base off o v : UInt32) :
    wr regs (base + off) v (base + o) = if o = off then v else regs (base + o) := by
  simp only [wr, Function.update_apply, UInt32.add_right_inj]

def mainOutput (bdtr : UInt32) : Bool := bdtr &&& BDTR_MOE ≠ 0

@[simp] theorem mainOutput_zero : mainOutput 0 = false := rfl

@[simp] theorem mainOutput_moe : mainOutput BDTR_MOE = true := rfl

namespace Timer

def reset : Timer where
  word := pack { phase := .Off, duty := 0 }
  regs := fun _ => 0

def kept (t : Timer) (result : UInt32 × Regs) : Timer where
  word := if result.1 = PWM_FAULT then t.word else result.1
  regs := result.2

def step (base : UInt32) (t : Timer) : Call → Option Timer
  | .Configure psc period => some (t.kept (pwmConfigure t.regs base t.word psc period))
  | .SetDuty duty period => some (t.kept (pwmSetDuty t.regs base t.word duty period))
  | .Start => some (t.kept (pwmStart t.regs base t.word))
  | .Failsafe => some (t.kept (pwmFailsafe t.regs base t.word))

def stage (base : UInt32) (t : Timer) : Stage where
  phase := (unpack t.word).phase
  duty := (unpack t.word).duty
  ccr := t.regs (base + CCR1)
  arr := t.regs (base + ARR)
  moe := mainOutput (t.regs (base + BDTR))

-- While the main output is enabled, the compare register is within the period
-- and is the duty of the word.
def InPeriod (base : UInt32) (t : Timer) : Prop :=
  t.regs (base + BDTR) &&& BDTR_MOE ≠ 0 →
    t.regs (base + CCR1) ≤ t.regs (base + ARR) ∧ t.regs (base + CCR1) = (unpack t.word).duty

-- A duty staged on a running output is within the period of the timer, or is
-- clamped to a period within it; a start finds the compare register within the
-- period and equal to the duty of the word.
def Agrees (base : UInt32) (t : Timer) : Call → Prop
  | .SetDuty duty period =>
    (unpack t.word).phase = .Running →
      duty &&& MAX_16 ≤ t.regs (base + ARR) ∨ period &&& MAX_16 ≤ t.regs (base + ARR)
  | .Start =>
    (unpack t.word).phase = .Configured →
      t.regs (base + CCR1) ≤ t.regs (base + ARR) ∧ t.regs (base + CCR1) = (unpack t.word).duty
  | _ => True

variable (base : UInt32) (t : Timer)

theorem stage_inPeriod : (t.stage base).InPeriod ↔ t.InPeriod base := by
  simp [Stage.InPeriod, InPeriod, stage, mainOutput]

theorem stage_agrees (call : Call) : (t.stage base).Agrees call ↔ t.Agrees base call := by
  cases call <;> exact Iff.rfl

theorem stage_kept (p : Pwm) (regs : Regs) : (t.kept (pack p, regs)).stage base =
      { phase := p.phase
        duty := p.duty &&& DUTY_MASK
        ccr := regs (base + CCR1)
        arr := regs (base + ARR)
        moe := mainOutput (regs (base + BDTR)) } := by
  simp [kept, if_neg (pack_ne_fault p), stage, unpack_pack]

theorem kept_fault : t.kept (PWM_FAULT, t.regs) = t := by
  simp [kept]

theorem stage_configure (psc p : UInt32) : (t.kept (pwmConfigure t.regs base t.word psc p)).stage base =
      match (unpack t.word).phase with
      | .Off | .Safe =>
        { t.stage base with phase := .Configured, duty := 0, arr := p &&& MAX_16 }
      | _ => t.stage base := by
  cases hp : (unpack t.word).phase <;>
    simp [pwmConfigure, configure, hp, kept_fault, stage_kept, wr_offset]
  all_goals simp [stage, PSC, ARR, CCMR1, CCER, CR1, EGR, CCR1, BDTR]

theorem stage_setDuty (duty p : UInt32) : (t.kept (pwmSetDuty t.regs base t.word duty p)).stage base =
      match (unpack t.word).phase with
      | .Configured | .Running =>
        { t.stage base with duty := clampDuty duty p, ccr := clampDuty duty p }
      | _ => t.stage base := by
  cases hp : (unpack t.word).phase <;>
    simp [pwmSetDuty, setDuty, hp, kept_fault, stage_kept, wr_offset, clampDuty_halfword]
  all_goals simp [stage, hp, ARR, CCR1, BDTR]

theorem stage_start : (t.kept (pwmStart t.regs base t.word)).stage base =
      match (unpack t.word).phase with
      | .Configured => { t.stage base with phase := .Running, moe := true }
      | _ => t.stage base := by
  have hd : (unpack t.word).duty &&& DUTY_MASK = (unpack t.word).duty := halfword_idem t.word
  cases hp : (unpack t.word).phase <;>
    simp [pwmStart, start, hp, kept_fault, stage_kept, wr_offset, hd]
  simp [stage, ARR, CCR1, BDTR, CR1]

theorem stage_failsafe : (t.kept (pwmFailsafe t.regs base t.word)).stage base =
      { t.stage base with phase := .Safe, duty := 0, moe := false } := by
  simp only [pwmFailsafe, failsafe, stage_kept, wr_offset]
  simp [stage, ARR, CCR1, BDTR, CR1]

theorem simulation : Simulation (step base) Stage.step (stage base) (fun _ => True) where
  keeps := fun _ _ => trivial
  commutes := by
    intro t call _
    have hp : (t.stage base).phase = (unpack t.word).phase := rfl
    cases call with
    | Configure psc p =>
      simp only [step, Option.map_some, stage_configure, Stage.step, hp]
      split <;> rfl
    | SetDuty duty p =>
      simp only [step, Option.map_some, stage_setDuty, Stage.step, hp]
      split <;> rfl
    | Start =>
      simp only [step, Option.map_some, stage_start, Stage.step, hp]
      split <;> rfl
    | Failsafe => simp [step, stage_failsafe, Stage.step]

theorem stage_reset : reset.stage base = Stage.off := by
  simp [stage, reset, unpack_pack, Stage.off]

theorem throughout_stage (calls : List Call) : Throughout (step base) (InPeriod base) reset calls ↔
      Throughout Stage.step Stage.InPeriod Stage.off calls := by
  have ht := @Simulation.throughout_iff _ _ _ _ _ _ _ reset (simulation base)
    Stage.InPeriod calls trivial
  simpa only [stage_inPeriod, stage_reset] using ht

end Timer

end Gale.PwmThin
