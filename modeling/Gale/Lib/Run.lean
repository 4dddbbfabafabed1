import Mathlib

namespace Gale.Lib

-- Runs of a deterministic system whose steps are partial: an input that is
-- not enabled in a state has no successor, and a run through it does not exist.
section Run

variable {σ ι : Type*} (step : σ → ι → Option σ)

def run : σ → List ι → Option σ
  | state, [] => some state
  | state, input :: rest => (step state input).bind fun next => run next rest

-- Every state of the run satisfies the property, the first and the last included.
def Throughout (property : σ → Prop) : σ → List ι → Prop
  | state, [] => property state
  | state, input :: rest => property state ∧
      ∀ next, step state input = some next → Throughout property next rest

-- Every step the run takes meets the condition on its input and the state before it.
def Along (condition : σ → ι → Prop) : σ → List ι → Prop
  | _, [] => True
  | state, input :: rest =>
    ∀ next, step state input = some next → condition state input ∧ Along condition next rest

variable {step}

@[simp] theorem run_nil (state : σ) : run step state [] = some state := rfl

variable {state final : σ} {input : ι} {property good : σ → Prop} {condition : σ → ι → Prop}
  {inputs : List ι}

theorem run_cons_eq_some {rest : List ι} : run step state (input :: rest) = some final ↔
      ∃ next, step state input = some next ∧ run step next rest = some final := by
  simp [run, Option.bind_eq_some_iff]

theorem run_append_eq_some {first b : List ι} : run step state (first ++ b) = some final ↔
      ∃ mid, run step state first = some mid ∧ run step mid b = some final := by
  induction first generalizing state with
  | nil => simp
  | cons input rest ih =>
    simp only [List.cons_append, run_cons_eq_some, ih]
    constructor
    · rintro ⟨next, hs, mid, hr, hf⟩
      exact ⟨mid, ⟨next, hs, hr⟩, hf⟩
    · rintro ⟨mid, ⟨next, hs, hr⟩, hf⟩
      exact ⟨next, hs, mid, hr, hf⟩

theorem throughout_of_along (hst : ∀ state input next, property state → condition state input →
      step state input = some next → property next) (hi : property state)
    (halong : Along step condition state inputs) : Throughout step property state inputs := by
  induction inputs generalizing state with
  | nil => exact hi
  | cons input rest ih =>
    refine ⟨hi, fun next hs => ?_⟩
    obtain ⟨hc, hr⟩ := halong next hs
    exact ih (hst _ _ _ hi hc hs) hr

theorem throughout_of_step (hst : ∀ state input next, property state → step state input = some next → property next)
    (hi : property state) (inputs : List ι) :
    Throughout step property state inputs := by
  induction inputs generalizing state with
  | nil => exact hi
  | cons input rest ih => exact ⟨hi, fun next hs => ih (hst _ _ _ hi hs)⟩

theorem Throughout.mono {weaker : σ → Prop} (h : ∀ state, property state → weaker state)
    (ht : Throughout step property state inputs) :
    Throughout step weaker state inputs := by
  induction inputs generalizing state with
  | nil => exact h _ ht
  | cons input rest ih => exact ⟨h _ ht.1, fun next hs => ih (ht.2 next hs)⟩

theorem Throughout.head (ht : Throughout step property state inputs) : property state := by
  cases inputs with
  | nil => exact ht
  | cons _ _ => exact ht.1

theorem Throughout.last (ht : Throughout step property state inputs) (hrn : run step state inputs = some final) :
    property final := by
  induction inputs generalizing state with
  | nil =>
    cases hrn
    exact ht
  | cons input rest ih =>
    obtain ⟨next, hs, hr⟩ := run_cons_eq_some.mp hrn
    exact ih (ht.2 next hs) hr

theorem Throughout.after {mid : σ} {first second : List ι} (ht : Throughout step property state (first ++ second))
    (hrn : run step state first = some mid) : Throughout step property mid second := by
  induction first generalizing state with
  | nil =>
    cases hrn
    exact ht
  | cons input rest ih =>
    obtain ⟨next, hs, hr⟩ := run_cons_eq_some.mp hrn
    exact ih (ht.2 next hs) hr

theorem along_of_forall (h : ∀ before, ∀ input ∈ inputs, condition before input) :
    Along step condition state inputs := by
  induction inputs generalizing state with
  | nil => trivial
  | cons input rest ih =>
    exact fun next _ => ⟨h _ input (by simp), ih fun before o ho =>
      h before o (List.mem_cons_of_mem _ ho)⟩

theorem along_cons {next : σ} {rest : List ι} (hs : step state input = some next)
    (hc : condition state input) (hr : Along step condition next rest) :
    Along step condition state (input :: rest) := by
  intro o ho
  cases hs.symm.trans ho
  exact ⟨hc, hr⟩

theorem Along.last {before after : σ} (ha : Along step condition state (inputs ++ [input]))
    (hrn : run step state inputs = some before) (hs : step before input = some after) :
    condition before input := by
  induction inputs generalizing state with
  | nil =>
    cases hrn
    exact (ha after hs).1
  | cons first rest ih =>
    obtain ⟨next, hs', hr⟩ := run_cons_eq_some.mp hrn
    exact ih (ha next hs').2 hr

theorem exists_first_miss (h : ¬ Along step condition state inputs) :
    ∃ first input rest before after, inputs = first ++ input :: rest ∧
      run step state first = some before ∧ Along step condition state first ∧
      step before input = some after ∧ ¬ condition before input := by
  induction inputs generalizing state with
  | nil => exact absurd trivial h
  | cons input rest ih =>
    simp only [Along, Classical.not_forall] at h
    obtain ⟨next, hs, hms⟩ := h
    by_cases hc : condition state input
    · obtain ⟨first, o, tail, before, after, rfl, hrn, hf, hm⟩ :=
        ih fun hr => hms ⟨hc, hr⟩
      exact ⟨input :: first, o, tail, before, after, rfl,
        run_cons_eq_some.mpr ⟨next, hs, hrn⟩, along_cons hs hc hf, hm⟩
    · exact ⟨[], input, rest, state, next, rfl, rfl, trivial, hs, hc⟩

theorem Along.of_throughout {o : σ → ι → Prop} (h : ∀ state input next, good state → step state input = some next →
      condition state input → o state input) (ht : Throughout step good state inputs)
    (ha : Along step condition state inputs) : Along step o state inputs := by
  induction inputs generalizing state with
  | nil => trivial
  | cons input rest ih =>
    intro next hs
    obtain ⟨hc, hr⟩ := ha next hs
    exact ⟨h state input next ht.1 hs hc, ih (ht.2 next hs) hr⟩

theorem Throughout.along (h : ∀ state input, good state → condition state input)
    (ht : Throughout step good state inputs) :
    Along step condition state inputs := by
  induction inputs generalizing state with
  | nil => trivial
  | cons input rest ih => exact fun next hs => ⟨h state input ht.1, ih (ht.2 next hs)⟩

theorem Throughout.along_iff {o : σ → ι → Prop} (h : ∀ state input next, good state → step state input = some next →
      (condition state input ↔ o state input)) (ht : Throughout step good state inputs) :
    Along step condition state inputs ↔ Along step o state inputs :=
  ⟨Along.of_throughout (fun state input next hg hs => (h state input next hg hs).mp) ht,
    Along.of_throughout (fun state input next hg hs => (h state input next hg hs).mpr) ht⟩

theorem run_invariant (property : σ → Prop) (condition : σ → ι → Prop)
    (hs : ∀ state input next, property state → condition state input →
      step state input = some next → property next) (hi : property state)
    (hc : ∀ before, ∀ input ∈ inputs, condition before input)
    (hr : run step state inputs = some final) : property final :=
  (throughout_of_along hs hi (along_of_forall hc)).last hr

-- When a step breaks the property exactly if it misses the condition, the
-- property holds throughout a run exactly if the condition holds along it.
-- The good states carry what the property alone does not say.
theorem throughout_iff_along (good : σ → Prop) (hp : ∀ state, good state → property state)
    (hk : ∀ state input next, good state → condition state input → step state input = some next → good next)
    (hb : ∀ state input next, good state → ¬ condition state input →
      step state input = some next → ¬ property next) (hi : good state) (inputs : List ι) :
    Throughout step property state inputs ↔ Along step condition state inputs := by
  refine ⟨fun ht => ?_, fun ha => (throughout_of_along hk hi ha).mono hp⟩
  induction inputs generalizing state with
  | nil => trivial
  | cons input rest ih =>
    intro next hs
    have hr := ht.2 next hs
    have hc : condition state input :=
      Classical.not_not.mp fun hc => hb state input next hi hc hs hr.head
    exact ⟨hc, ih (hk state input next hi hc hs) hr⟩

theorem throughout_and_along_iff (good : σ → Prop) {effect : σ → ι → Prop} (hp : ∀ state, good state → property state)
    (hef : ∀ state input next, good state → condition state input → step state input = some next → effect state input)
    (hk : ∀ state input next, good state → condition state input → step state input = some next → good next)
    (hb : ∀ state input next, good state → ¬ condition state input →
      step state input = some next → effect state input → ¬ property next) (hi : good state)
    (inputs : List ι) :
    Throughout step property state inputs ∧ Along step effect state inputs ↔ Along step condition state inputs := by
  refine ⟨fun h => ?_, fun ha => ?_⟩
  · obtain ⟨ht, he⟩ := h
    induction inputs generalizing state with
    | nil => trivial
    | cons input rest ih =>
      intro next hs
      have hr := ht.2 next hs
      obtain ⟨heff, her⟩ := he next hs
      have hc : condition state input :=
        Classical.not_not.mp fun hc => hb state input next hi hc hs heff hr.head
      exact ⟨hc, ih (hk state input next hi hc hs) hr her⟩
  · have hg := throughout_of_along hk hi ha
    exact ⟨hg.mono hp, ha.of_throughout (fun state input next hs hst hc => hef state input next hs hc hst) hg⟩

end Run

-- A system read through abs, on the states that satisfy inv, takes the steps
-- of the second system.
structure Simulation {σ τ ι : Type*} (step : σ → ι → Option σ) (step' : τ → ι → Option τ)
    (abs : σ → τ) (inv : σ → Prop) : Prop where
  keeps : ∀ {state input next}, inv state → step state input = some next → inv next
  commutes : ∀ {state} input, inv state → (step state input).map abs = step' (abs state) input

namespace Simulation

variable {σ τ ι : Type*} {step : σ → ι → Option σ} {step' : τ → ι → Option τ} {abs : σ → τ}
  {inv : σ → Prop} {state : σ}

section

variable (h : Simulation step step' abs inv)
include h

theorem step_some {next : σ} {input : ι} (hi : inv state) (hs : step state input = some next) :
    step' (abs state) input = some (abs next) := by
  rw [← h.commutes input hi, hs]
  rfl

theorem step_inv {other : τ} {input : ι} (hi : inv state) (hs : step' (abs state) input = some other) :
    ∃ next, step state input = some next ∧ abs next = other := by
  rw [← h.commutes input hi] at hs
  exact Option.map_eq_some_iff.mp hs

theorem run_some {final : σ} {inputs : List ι} (hi : inv state) (hrn : run step state inputs = some final) :
    inv final ∧ run step' (abs state) inputs = some (abs final) := by
  induction inputs generalizing state with
  | nil =>
    cases hrn
    exact ⟨hi, rfl⟩
  | cons input rest ih =>
    obtain ⟨next, hs, hr⟩ := run_cons_eq_some.mp hrn
    obtain ⟨hf, hrs⟩ := ih (h.keeps hi hs) hr
    exact ⟨hf, run_cons_eq_some.mpr ⟨_, h.step_some hi hs, hrs⟩⟩

theorem run_inv {other : τ} {inputs : List ι} (hi : inv state) (hrn : run step' (abs state) inputs = some other) :
    ∃ final, run step state inputs = some final ∧ abs final = other := by
  induction inputs generalizing state with
  | nil => exact ⟨state, rfl, Option.some.inj hrn⟩
  | cons input rest ih =>
    obtain ⟨mid, hs', hr'⟩ := run_cons_eq_some.mp hrn
    obtain ⟨next, hs, rfl⟩ := h.step_inv hi hs'
    obtain ⟨final, hr, hf⟩ := ih (h.keeps hi hs) hr'
    exact ⟨final, run_cons_eq_some.mpr ⟨next, hs, hr⟩, hf⟩

theorem run_map (inputs : List ι) (hi : inv state) :
    (run step state inputs).map abs = run step' (abs state) inputs := by
  cases hrn : run step state inputs with
  | some final => exact (h.run_some hi hrn).2.symm
  | none =>
    cases hr : run step' (abs state) inputs with
    | none => rfl
    | some o =>
      obtain ⟨final, hf, -⟩ := h.run_inv hi hr
      cases hrn.symm.trans hf

theorem throughout_iff (property : τ → Prop) (inputs : List ι) (hi : inv state) :
    Throughout step (fun s => property (abs s)) state inputs ↔ Throughout step' property (abs state) inputs := by
  induction inputs generalizing state with
  | nil => exact Iff.rfl
  | cons input rest ih =>
    refine and_congr_right fun _ => ⟨fun ht o hs' => ?_, fun ht next hs => ?_⟩
    · obtain ⟨next, hs, rfl⟩ := h.step_inv hi hs'
      exact (ih (h.keeps hi hs)).mp (ht next hs)
    · exact (ih (h.keeps hi hs)).mpr (ht _ (h.step_some hi hs))

theorem along_iff (condition : τ → ι → Prop) (inputs : List ι) (hi : inv state) :
    Along step (fun s input => condition (abs s) input) state inputs ↔ Along step' condition (abs state) inputs := by
  induction inputs generalizing state with
  | nil => exact Iff.rfl
  | cons input rest ih =>
    constructor
    · intro ha o hs'
      obtain ⟨next, hs, rfl⟩ := h.step_inv hi hs'
      obtain ⟨hc, hr⟩ := ha next hs
      exact ⟨hc, (ih (h.keeps hi hs)).mp hr⟩
    · intro ha next hs
      obtain ⟨hc, hr⟩ := ha _ (h.step_some hi hs)
      exact ⟨hc, (ih (h.keeps hi hs)).mpr hr⟩

end

end Simulation

section Pair

variable {σ τ ι : Type*} {step : σ → ι → Option σ} {step' : τ → ι → Option τ}

def pair (step : σ → ι → Option σ) (step' : τ → ι → Option τ) (state : σ × τ) (input : ι) :
    Option (σ × τ) :=
  (step state.1 input).bind fun next => (step' state.2 input).map fun other => (next, other)

theorem pair_eq_some {state next : σ × τ} {input : ι} : pair step step' state input = some next ↔
    step state.1 input = some next.1 ∧ step' state.2 input = some next.2 := by
  simp only [pair, Option.bind_eq_some_iff, Option.map_eq_some_iff]
  constructor
  · rintro ⟨a, ha, b, hb, rfl⟩
    exact ⟨ha, hb⟩
  · rintro ⟨ha, hb⟩
    exact ⟨next.1, ha, next.2, hb, rfl⟩

theorem pair_fst (h : ∀ state input, (step' state input).isSome) :
    Simulation (pair step step') step Prod.fst fun _ => True where
  keeps := fun _ _ => trivial
  commutes := by
    intro state input _
    obtain ⟨o, ho⟩ := Option.isSome_iff_exists.mp (h state.2 input)
    cases hs : step state.1 input <;> simp [pair, hs, ho]

theorem pair_snd (h : ∀ state input, (step state input).isSome) :
    Simulation (pair step step') step' Prod.snd fun _ => True where
  keeps := fun _ _ => trivial
  commutes := by
    intro state input _
    obtain ⟨next, hn⟩ := Option.isSome_iff_exists.mp (h state.1 input)
    cases hs : step' state.2 input <;> simp [pair, hs, hn]

end Pair

end Gale.Lib
