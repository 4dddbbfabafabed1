import Gale.DacThin

namespace Gale.DacThin.Channels

open Function Lib

def number (c : Fin 2) : UInt32 := if c = 0 then 0 else 1

-- The registers of the converter as the replay of the writes: a trigger bit
-- moves the holding register of its channel to the output.
structure Regs where
  cr : UInt32
  dhr : Fin 2 → UInt32
  dor : Fin 2 → UInt32

namespace Regs

def reset : Regs where
  cr := 0
  dhr := fun _ => 0
  dor := fun _ => 0

def read (base : UInt32) (regs : Regs) (addr : UInt32) : UInt32 :=
  if addr = base + CR then regs.cr
  else if addr = base + DHR12R1 then regs.dhr 0
  else if addr = base + DHR12R2 then regs.dhr 1
  else if addr = base + DOR1 then regs.dor 0
  else if addr = base + DOR2 then regs.dor 1
  else 0

def write (base : UInt32) (regs : Regs) (addr value : UInt32) : Regs :=
  if addr = base + CR then { regs with cr := value }
  else if addr = base + SWTRIGR then
    { regs with dor := fun c => if value &&& swtrigBit (number c) ≠ 0 then regs.dhr c else regs.dor c }
  else if addr = base + DHR12R1 then { regs with dhr := update regs.dhr 0 value }
  else if addr = base + DHR12R2 then { regs with dhr := update regs.dhr 1 value }
  else regs

end Regs

def device (base : UInt32) : Device Regs Unit where
  read regs _ addr := (regs.read base addr, regs)
  write := Regs.write base

@[simp] theorem device_write (base : UInt32) : (device base).write = Regs.write base := rfl

inductive Op where
  | Enable
  | Load (v : UInt32)
  | Trigger
  | Disable

def Op.call (c : Fin 2) : Op → Call
  | .Enable => .Enable (number c)
  | .Load v => .Load v
  | .Trigger => .Trigger
  | .Disable => .Disable

-- A call of the sequence of a channel. A caller that is given the fault word
-- keeps the word it had, or goes on with the fault word.
structure Input where
  channel : Fin 2
  op : Op
  keeps : Bool

structure State where
  words : Fin 2 → UInt32
  regs : Regs

def init : State where
  words := fun _ => pack .off
  regs := .reset

def step (base : UInt32) (s : State) (input : Input) : Option State :=
  let given := s.words input.channel
  let out := (driver base).outcome (device base) s.regs given (input.op.call input.channel, [])
  out.result.map fun result =>
    { words := update s.words input.channel (if result = DAC_FAULT ∧ input.keeps then given else result)
      regs := out.state }

def crHalf (cr : UInt32) (c : Fin 2) : UInt32 := (cr >>> (16 * number c)) &&& 0xFFFF

namespace State

def phase (s : State) (c : Fin 2) : Phase := (unpack (s.words c)).phase

def owner (s : State) (c : Fin 2) : Fin 2 := if (unpack (s.words c)).channel = 0 then 0 else 1

-- A channel with something loaded or output is enabled and triggered by software.
def Enabled (s : State) : Prop :=
  ∀ c, s.phase c = .Loaded ∨ s.phase c = .Output →
    s.regs.cr &&& crEnableBits (number c) = crEnableBits (number c)

def refused (s : State) (c : Fin 2) (keeps : Bool) : State :=
  { s with words := update s.words c (if keeps then s.words c else DAC_FAULT) }

end State

def Separate (base : UInt32) (s : State) (input : Input) : Prop :=
  ∀ next, step base s input = some next → ∀ other, other ≠ input.channel →
    crHalf next.regs.cr other = crHalf s.regs.cr other ∧ next.regs.dhr other = s.regs.dhr other ∧
      next.regs.dor other = s.regs.dor other

-- A channel is enabled and disabled while the other one is off. The fault word
-- reads as a channel with its output up, so a caller refused while it is off keeps
-- the word it had. And the fault word is a word of channel 1: what channel 0 does
-- with it moves nothing there.
def Apart (s : State) (input : Input) : Prop :=
  let c := input.channel
  match input.op with
  | .Enable => s.phase c = .Off → ∀ other, other ≠ c → s.phase other = .Off
  | .Load v =>
    if s.phase c = .Off then input.keeps = true
    else s.owner c = c ∨ s.regs.dhr (s.owner c) = dhrValue v
  | .Trigger =>
    if s.phase c = .Off then input.keeps = true
    else s.phase c = .Loaded → s.owner c = c ∨ s.regs.dor (s.owner c) = s.regs.dhr (s.owner c)
  | .Disable => ∀ other, other ≠ c → s.phase other = .Off

theorem number_le (c : Fin 2) : number c ≤ MAX_CHANNEL := by
  revert c
  decide

theorem number_inj {c d : Fin 2} : number c = number d ↔ c = d := by
  revert c d
  decide

theorem number_owner (s : State) (c : Fin 2) : number (s.owner c) = (unpack (s.words c)).channel := by
  rcases eq_of_le_max (unpack_channel_le (s.words c)) with hz | ho
  · simp only [State.owner, hz]
    decide
  · simp only [State.owner, ho]
    decide

namespace Regs

variable {base : UInt32} {regs : Regs}

theorem write_cr (v : UInt32) : regs.write base (base + CR) v = { regs with cr := v } := by
  rw [write, if_pos rfl]

theorem write_swtrigr (c : Fin 2) : regs.write base (base + SWTRIGR) (swtrigBit (number c)) =
      { regs with dor := update regs.dor c (regs.dhr c) } := by
  have hcr : SWTRIGR ≠ CR := by decide
  rw [write, if_neg (by rwa [UInt32.add_right_inj]), if_pos rfl]
  congr 1
  funext d
  rw [update_apply]
  by_cases hd : d = c
  · rw [if_pos hd, if_pos ((swtrigBit_and (number_le c) (number_le d)).mpr (by rw [hd])), hd]
  · have hne : number c ≠ number d := fun h => hd (number_inj.mp h).symm
    rw [if_neg hd, if_neg ((swtrigBit_and (number_le c) (number_le d)).not.mpr hne)]

theorem write_dhr (c : Fin 2) (v : UInt32) : regs.write base (base + dhrOffset (number c)) v =
      { regs with dhr := update regs.dhr c v } := by
  obtain ⟨hcr, ht⟩ := dhrOffset_ne (number c)
  rw [write, if_neg (by rwa [UInt32.add_right_inj]), if_neg (by rwa [UInt32.add_right_inj])]
  simp only [UInt32.add_right_inj]
  match c with
  | 0 => exact if_pos (by decide)
  | 1 => exact (if_neg (by decide)).trans (if_pos (by decide))

end Regs

section Step

variable {base : UInt32} {s : State} {c : Fin 2} {keeps : Bool}

theorem step_enable : step base s ⟨c, .Enable, keeps⟩ = some (if s.phase c = .Off then
        { words := update s.words c (pack ⟨.Ready, number c, 0⟩)
          regs := { s.regs with cr := crEnableBits (number c) } }
      else s.refused c keeps) := by
  by_cases ho : s.phase c = .Off
  · have hw : (unpack (s.words c)).phase = .Off ∧ number c ≤ MAX_CHANNEL := ⟨ho, number_le c⟩
    simp [step, Op.call, outcome_enable, if_pos ho, if_pos hw, pack_ne_fault, device_write, Regs.write_cr]
  · have hw : ¬ ((unpack (s.words c)).phase = .Off ∧ number c ≤ MAX_CHANNEL) := fun h => ho h.1
    simp [step, Op.call, outcome_enable, if_neg ho, if_neg hw, State.refused]

theorem step_load (v : UInt32) : step base s ⟨c, .Load v, keeps⟩ = some (if s.phase c = .Off then s.refused c keeps
      else
        { words := update s.words c (pack ⟨.Loaded, number (s.owner c), dhrValue v⟩)
          regs := { s.regs with dhr := update s.regs.dhr (s.owner c) (dhrValue v) } }) := by
  by_cases ho : s.phase c = .Off
  · have hw : (unpack (s.words c)).phase = .Off := ho
    simp [step, Op.call, outcome_load, if_pos ho, if_pos hw, State.refused]
  · have hw : ¬ (unpack (s.words c)).phase = .Off := ho
    simp only [step, Op.call, outcome_load, if_neg ho, if_neg hw, Option.map_some,
      pack_ne_fault, false_and, if_false, device_write, ← number_owner, Regs.write_dhr]
    rfl

theorem step_trigger : step base s ⟨c, .Trigger, keeps⟩ = some (if s.phase c = .Loaded then
        { words := update s.words c (pack ⟨.Output, number (s.owner c), (unpack (s.words c)).value⟩)
          regs := { s.regs with
            dor := update s.regs.dor (s.owner c) (s.regs.dhr (s.owner c)) } }
      else s.refused c keeps) := by
  by_cases hl : s.phase c = .Loaded
  · have hw : (unpack (s.words c)).phase = .Loaded := hl
    simp [step, Op.call, outcome_trigger, if_pos hl, if_pos hw, pack_ne_fault, device_write, ← number_owner, Regs.write_swtrigr]
  · have hw : ¬ (unpack (s.words c)).phase = .Loaded := hl
    simp [step, Op.call, outcome_trigger, if_neg hl, if_neg hw, State.refused]

theorem step_disable : step base s ⟨c, .Disable, keeps⟩ =
      some { words := update s.words c (pack .off), regs := { s.regs with cr := 0 } } := by
  simp [step, Op.call, outcome_disable, pack_ne_fault, device_write, Regs.write_cr]

end Step

structure State.Inv (s : State) : Prop where
  enabled : ∀ c, s.phase c ≠ .Off → s.regs.cr = crEnableBits (number c)
  disabled : (∀ c, s.phase c = .Off) → s.regs.cr = 0

theorem crHalf_crEnableBits {c d : Fin 2} : crHalf (crEnableBits (number c)) d ≠ 0 ↔ d = c := by
  revert c d
  decide

theorem crHalf_zero (c : Fin 2) : crHalf 0 c = 0 := by
  revert c
  decide

theorem crEnableBits_and {c d : Fin 2} :
    crEnableBits (number c) &&& crEnableBits (number d) = crEnableBits (number d) ↔ d = c := by
  revert c d
  decide

theorem crEnableBits_ne_zero (c : Fin 2) : crEnableBits (number c) ≠ 0 := by
  revert c
  decide

theorem phase_update (s : State) (c d : Fin 2) (word : UInt32) (regs : Regs) :
    State.phase ⟨update s.words c word, regs⟩ d =
      if d = c then (unpack word).phase else s.phase d := by
  simp only [State.phase, update_apply]
  split <;> rfl

namespace State.Inv

variable {s : State} {c : Fin 2}

theorem cr_cases (hi : s.Inv) : (∃ c, s.phase c ≠ .Off ∧ s.regs.cr = crEnableBits (number c)) ∨
      (∀ c, s.phase c = .Off) ∧ s.regs.cr = 0 := by
  by_cases ho : ∀ c, s.phase c = .Off
  · exact .inr ⟨ho, hi.disabled ho⟩
  · obtain ⟨c, hc⟩ := not_forall.mp ho
    exact .inl ⟨c, hc, hi.enabled c hc⟩

theorem crHalf_ne_zero (hi : s.Inv) : crHalf s.regs.cr c ≠ 0 ↔ s.phase c ≠ .Off := by
  constructor
  · intro hh
    rcases hi.cr_cases with ⟨d, hd, hcr⟩ | ⟨_, hcr⟩
    · rw [hcr, crHalf_crEnableBits] at hh
      rwa [hh]
    · exact absurd (by rw [hcr, crHalf_zero]) hh
  · intro hon
    rw [hi.enabled c hon, crHalf_crEnableBits]

theorem enableBits_iff (hi : s.Inv) :
    s.regs.cr &&& crEnableBits (number c) = crEnableBits (number c) ↔ s.phase c ≠ .Off := by
  constructor
  · intro hb
    rcases hi.cr_cases with ⟨d, hd, hcr⟩ | ⟨_, hcr⟩
    · rw [hcr, crEnableBits_and] at hb
      rwa [hb]
    · rw [hcr, UInt32.zero_and] at hb
      exact absurd hb.symm (crEnableBits_ne_zero c)
  · intro hon
    rw [hi.enabled c hon, UInt32.and_self]

theorem all_enabled (hi : s.Inv) : s.Enabled := by
  intro c hp
  refine hi.enableBits_iff.mpr ?_
  rcases hp with h | h
  · rw [h]
    decide
  · rw [h]
    decide

theorem of_same {next : State} (hi : s.Inv) (hcr : next.regs.cr = s.regs.cr)
    (ho : ∀ c, next.phase c = .Off ↔ s.phase c = .Off) : next.Inv where
  enabled := by
    intro c hc
    rw [hcr]
    exact hi.enabled c ((ho c).not.mp hc)
  disabled := by
    intro ha
    rw [hcr]
    exact hi.disabled fun c => (ho c).mp (ha c)

theorem refused {keeps : Bool} (hi : s.Inv) (hk : s.phase c = .Off → keeps = true) : (s.refused c keeps).Inv := by
  refine hi.of_same rfl fun d => ?_
  rw [State.refused, phase_update]
  split
  next hd =>
    subst hd
    cases keeps with
    | true => rfl
    | false =>
      have hon : s.phase d ≠ .Off := fun h => absurd (hk h) Bool.false_ne_true
      have hf : (unpack DAC_FAULT).phase ≠ .Off := by decide
      exact iff_of_false hf hon
  next => rfl

theorem of_word {word : UInt32} {regs : Regs} (hi : s.Inv) (hon : s.phase c ≠ .Off)
    (hw : (unpack word).phase ≠ .Off) (hcr : regs.cr = s.regs.cr) :
    State.Inv ⟨update s.words c word, regs⟩ := by
  refine hi.of_same hcr fun d => ?_
  rw [phase_update]
  split
  next hd =>
    subst hd
    exact iff_of_false hw hon
  next => rfl

end State.Inv

theorem inv_init : init.Inv where
  enabled := by
    intro c hc
    exact absurd (unpack_pack_phase .off) hc
  disabled := fun _ => rfl

section Calls

variable {base : UInt32} {s next : State} {input : Input}

theorem step_separate (hi : s.Inv) (ha : Apart s input) : Separate base s input := by
  intro next hs o ho
  obtain ⟨c, op, keeps⟩ := input
  cases op with
  | Enable =>
    rw [step_enable, Option.some.injEq] at hs
    split at hs
    next hof =>
      subst hs
      have hal : ∀ d, s.phase d = .Off := by
        intro d
        by_cases hd : d = c
        · rwa [hd]
        · exact ha hof d hd
      have hh : crHalf (crEnableBits (number c)) o = 0 :=
        Classical.not_not.mp (crHalf_crEnableBits.not.mpr ho)
      exact ⟨by rw [hh, hi.disabled hal, crHalf_zero], rfl, rfl⟩
    next =>
      subst hs
      exact ⟨rfl, rfl, rfl⟩
  | Load v =>
    rw [step_load, Option.some.injEq] at hs
    split at hs
    next =>
      subst hs
      exact ⟨rfl, rfl, rfl⟩
    next hon =>
      subst hs
      refine ⟨rfl, ?_, rfl⟩
      simp only [Apart, if_neg hon] at ha
      rcases ha with hsl | hsm
      · rw [hsl]
        exact update_of_ne ho _ _
      · rw [← hsm, update_eq_self]
  | Trigger =>
    rw [step_trigger, Option.some.injEq] at hs
    split at hs
    next hl =>
      subst hs
      refine ⟨rfl, rfl, ?_⟩
      have hon : s.phase c ≠ .Off := by
        rw [hl]
        decide
      simp only [Apart, if_neg hon] at ha
      rcases ha hl with hsl | hsm
      · rw [hsl]
        exact update_of_ne ho _ _
      · rw [← hsm, update_eq_self]
    next =>
      subst hs
      exact ⟨rfl, rfl, rfl⟩
  | Disable =>
    rw [step_disable, Option.some.injEq] at hs
    subst hs
    have hh : crHalf s.regs.cr o = 0 := by
      by_contra hne
      exact hi.crHalf_ne_zero.mp hne (ha o ho)
    exact ⟨by rw [crHalf_zero, hh], rfl, rfl⟩

theorem step_inv (hi : s.Inv) (ha : Apart s input) (hs : step base s input = some next) :
    next.Inv := by
  obtain ⟨c, op, keeps⟩ := input
  cases op with
  | Enable =>
    rw [step_enable, Option.some.injEq] at hs
    split at hs
    next ho =>
      subst hs
      refine ⟨fun d hd => ?_, fun hal => ?_⟩
      · rw [phase_update] at hd
        split at hd
        next hdc => rw [hdc]
        next hdc => exact absurd (ha ho d hdc) hd
      · have hc := hal c
        rw [phase_update, if_pos rfl, unpack_pack_phase] at hc
        cases hc
    next hon =>
      subst hs
      exact hi.refused fun h => absurd h hon
  | Load v =>
    rw [step_load, Option.some.injEq] at hs
    split at hs
    next ho =>
      subst hs
      simp only [Apart, if_pos ho] at ha
      exact hi.refused fun _ => ha
    next hon =>
      subst hs
      refine hi.of_word hon ?_ rfl
      rw [unpack_pack_phase]
      exact Phase.noConfusion
  | Trigger =>
    rw [step_trigger, Option.some.injEq] at hs
    split at hs
    next hl =>
      subst hs
      refine hi.of_word (by rw [hl]; decide) ?_ rfl
      rw [unpack_pack_phase]
      exact Phase.noConfusion
    next =>
      subst hs
      refine hi.refused fun ho => ?_
      simp only [Apart, if_pos ho] at ha
      exact ha
  | Disable =>
    rw [step_disable, Option.some.injEq] at hs
    subst hs
    refine ⟨fun d hd => ?_, fun _ => rfl⟩
    rw [phase_update] at hd
    split at hd
    next => exact absurd (unpack_pack_phase .off) hd
    next hdc => exact absurd (ha d hdc) hd

theorem not_enabled_refused (hi : s.Inv) {c : Fin 2} {keeps : Bool} (ho : s.phase c = .Off)
    (hk : keeps ≠ true) : ¬ (s.refused c keeps).Enabled := by
  intro he
  have hp : (s.refused c keeps).phase c = .Output := by
    rw [State.refused, phase_update, if_pos rfl, if_neg hk]
    decide
  exact hi.enableBits_iff.mp (he c (.inr hp)) ho

theorem step_breaks (hi : s.Inv) (ha : ¬ Apart s input) (hs : step base s input = some next)
    (hsp : Separate base s input) : ¬ next.Enabled := by
  have hf := hsp next hs
  obtain ⟨c, op, keeps⟩ := input
  cases op with
  | Enable =>
    simp only [Apart, Classical.not_imp, not_forall] at ha
    obtain ⟨hof, o, ho, hon⟩ := ha
    rw [step_enable, if_pos hof, Option.some.injEq] at hs
    subst hs
    refine absurd (hf o ho).1.symm fun h => hi.crHalf_ne_zero.mpr hon (h.trans ?_)
    exact Classical.not_not.mp (crHalf_crEnableBits.not.mpr ho)
  | Load v =>
    rw [step_load, Option.some.injEq] at hs
    split at hs
    next hof =>
      subst hs
      simp only [Apart, if_pos hof] at ha
      exact not_enabled_refused hi hof ha
    next hon =>
      subst hs
      simp only [Apart, if_neg hon, not_or] at ha
      obtain ⟨hsl, ho⟩ := ha
      have hd : update s.regs.dhr (s.owner c) (dhrValue v) (s.owner c) = _ :=
        (hf _ hsl).2.1
      rw [update_self] at hd
      exact absurd hd.symm ho
  | Trigger =>
    rw [step_trigger, Option.some.injEq] at hs
    simp only [Apart] at ha
    split at ha
    next hof =>
      rw [if_neg (by rw [hof]; decide)] at hs
      subst hs
      exact not_enabled_refused hi hof ha
    next hon =>
      simp only [Classical.not_imp, not_or] at ha
      obtain ⟨hl, hsl, ho⟩ := ha
      rw [if_pos hl] at hs
      subst hs
      have hdr : update s.regs.dor (s.owner c) (s.regs.dhr (s.owner c)) (s.owner c) = _ :=
        (hf _ hsl).2.2
      rw [update_self] at hdr
      exact absurd hdr.symm ho
  | Disable =>
    simp only [Apart, not_forall] at ha
    obtain ⟨o, ho, hon⟩ := ha
    rw [step_disable, Option.some.injEq] at hs
    subst hs
    have hh := (hf o ho).1
    rw [crHalf_zero] at hh
    exact absurd hh.symm (hi.crHalf_ne_zero.mpr hon)

end Calls

theorem channels_independent_iff (base : UInt32) (inputs : List Input) :
    Throughout (step base) State.Enabled init inputs ∧ Along (step base) (Separate base) init inputs ↔
      Along (step base) Apart init inputs :=
  throughout_and_along_iff State.Inv (fun _ hi => hi.all_enabled)
    (fun _ _ _ hi ha _ => step_separate hi ha)
    (fun _ _ _ hi ha hs => step_inv hi ha hs)
    (fun _ _ _ hi ha hs hsp => step_breaks hi ha hs hsp) inv_init inputs

-- With a value loaded on channel 0, enabling channel 1 clears the bits of channel 0;
-- so does disabling channel 1, which was never enabled.
theorem other_channel_clears_enable : (¬ Throughout (step 0x40007400) State.Enabled init
          [⟨0, .Enable, true⟩, ⟨0, .Load 5, true⟩, ⟨1, .Enable, true⟩] ∧
        ¬ Along (step 0x40007400) (Separate 0x40007400) init
          [⟨0, .Enable, true⟩, ⟨0, .Load 5, true⟩, ⟨1, .Enable, true⟩]) ∧
      ¬ Throughout (step 0x40007400) State.Enabled init
          [⟨0, .Enable, true⟩, ⟨0, .Load 5, true⟩, ⟨1, .Disable, true⟩] := by
  refine ⟨⟨fun ht => ?_, fun ha => ?_⟩, fun ht => ?_⟩
  · exact absurd (ht.last rfl 0 (by decide)) (by decide)
  · have hs := (((ha _ rfl).2 _ rfl).2 _ rfl).1 _ rfl 0 (by decide)
    exact absurd hs.1 (by decide)
  · exact absurd (ht.last rfl 0 (by decide)) (by decide)

end Gale.DacThin.Channels
