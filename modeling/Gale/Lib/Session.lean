import Gale.Lib.Mmio
import Gale.Lib.Past

namespace Gale.Lib

-- The calls of a driver that keeps its state in a word its caller carries: the
-- program of a call on the word it is given, and the word the caller goes on
-- with once it has the result.
structure Driver (ι : Type) where
  program : ι → UInt32 → Mmio UInt32
  thread : ι → UInt32 → UInt32 → UInt32

-- A call that was made: the word it was given, its accesses and what it gave
-- back, if it has returned.
structure Entry (ι : Type) where
  call : ι
  given : UInt32
  accesses : List Access
  result : Option UInt32

-- A caller of one device. It has no word while its last call still waits.
structure Session (ι σ : Type) where
  word : Option UInt32
  device : σ
  past : List (Entry ι)

section Session

variable {ι σ ε : Type} (driver : Driver ι) (device : Device σ ε)

def Driver.outcome (state : σ) (given : UInt32) (input : ι × List ε) : Outcome σ UInt32 :=
  (driver.program input.1 given).exec device state input.2

def Driver.entry (state : σ) (given : UInt32) (input : ι × List ε) : Entry ι where
  call := input.1
  given := given
  accesses := (driver.outcome device state given input).accesses
  result := (driver.outcome device state given input).result

namespace Session

def start (word : UInt32) (state : σ) : Session ι σ := ⟨some word, state, []⟩

def step (s : Session ι σ) (input : ι × List ε) : Option (Session ι σ) :=
  s.word.map fun given =>
    { word := (driver.outcome device s.device given input).result.map (driver.thread input.1 given)
      device := (driver.outcome device s.device given input).state
      past := s.past ++ [driver.entry device s.device given input] }

variable {s final : Session ι σ} {input : ι × List ε} {given word : UInt32}
  {inputs : List (ι × List ε)}

theorem step_eq_some {next : Session ι σ} (h : s.step driver device input = some next) : ∃ given, s.word = some given ∧
      next.word = (driver.outcome device s.device given input).result.map (driver.thread input.1 given) ∧
      next.device = (driver.outcome device s.device given input).state ∧
      next.past = s.past ++ [driver.entry device s.device given input] := by
  obtain ⟨given, hw, rfl⟩ := Option.map_eq_some_iff.mp h
  exact ⟨given, hw, rfl, rfl, rfl⟩

theorem step_returned {next : Session ι σ} (h : s.step driver device input = some next)
    (hgv : s.word = some given) (hw : next.word = some word) :
    (∃ result, (driver.outcome device s.device given input).result = some result ∧
      driver.thread input.1 given result = word) ∧
      next.past = s.past ++ [driver.entry device s.device given input] := by
  obtain ⟨given', hg, hn, -, hp⟩ := step_eq_some driver device h
  obtain rfl : given = given' := Option.some.inj (hgv.symm.trans hg)
  exact ⟨Option.map_eq_some_iff.mp (hn.symm.trans hw), hp⟩

theorem step_of_result {result : UInt32} (hg : s.word = some given)
    (hr : (driver.outcome device s.device given input).result = some result) :
    ∃ next, s.step driver device input = some next ∧
      next.word = some (driver.thread input.1 given result) := by
  simp only [step, hg, hr, Option.map_some, Option.some.injEq]
  exact ⟨_, rfl, rfl⟩

theorem word_of_run (hr : run (step driver device) s inputs = some final) (hf : final.word = some word) :
    ∃ given, s.word = some given := by
  cases inputs with
  | nil =>
    cases hr
    exact ⟨word, hf⟩
  | cons input rest =>
    obtain ⟨next, hs, -⟩ := run_cons_eq_some.mp hr
    obtain ⟨given, hg, -⟩ := step_eq_some driver device hs
    exact ⟨given, hg⟩

theorem run_calls (hrn : run (step driver device) s inputs = some final) :
    final.past.map Entry.call = s.past.map Entry.call ++ inputs.map Prod.fst := by
  induction inputs generalizing s with
  | nil =>
    cases hrn
    exact (List.append_nil _).symm
  | cons input rest ih =>
    obtain ⟨next, hs, hr⟩ := run_cons_eq_some.mp hrn
    obtain ⟨given, -, -, -, hp⟩ := step_eq_some driver device hs
    rw [ih hr, hp, List.map_append, List.append_assoc]
    rfl

theorem run_iterate {next : UInt32 → UInt32} (hn : ∀ input ∈ inputs, ∀ st given result,
      (driver.outcome device st given input).result = some result → driver.thread input.1 given result = next given)
    (hrn : run (step driver device) s inputs = some final) (hg : s.word = some given)
    (hf : final.word = some word) : word = next^[inputs.length] given := by
  induction inputs generalizing s given with
  | nil =>
    cases hrn
    exact Option.some.inj (hf.symm.trans hg)
  | cons input rest ih =>
    obtain ⟨mid, hs, hrs⟩ := run_cons_eq_some.mp hrn
    obtain ⟨taken, htk⟩ := word_of_run driver device hrs hf
    obtain ⟨⟨result, hr, ht⟩, -⟩ := step_returned driver device hs hg htk
    rw [hn input List.mem_cons_self _ _ _ hr] at ht
    have hl := ih (fun o ho => hn o (List.mem_cons_of_mem _ ho)) hrs htk
    rw [hl, ← ht, List.length_cons, Function.iterate_succ_apply]

theorem exists_run {next : UInt32 → UInt32} (hn : ∀ input ∈ inputs, ∀ st given, ∃ result,
      (driver.outcome device st given input).result = some result ∧
        driver.thread input.1 given result = next given) (hg : s.word = some given) :
    ∃ final, run (step driver device) s inputs = some final ∧ final.word = some (next^[inputs.length] given) := by
  induction inputs generalizing s given with
  | nil => exact ⟨s, rfl, hg⟩
  | cons input rest ih =>
    obtain ⟨result, hr, ht⟩ := hn input List.mem_cons_self s.device given
    obtain ⟨mid, hs, hm⟩ := step_of_result driver device hg hr
    rw [ht] at hm
    obtain ⟨final, hrn, hf⟩ :=
      ih (fun o ho => hn o (List.mem_cons_of_mem _ ho)) hm
    refine ⟨final, run_cons_eq_some.mpr ⟨mid, hs, hrn⟩, ?_⟩
    rw [hf, List.length_cons, Function.iterate_succ_apply]

end Session

variable {acts on off : Entry ι → Prop}

-- Whenever a call acts, something was turned on before it and not off since.
def Guarded (acts on off : Entry ι → Prop) (past : List (Entry ι)) : Prop :=
  ∀ before entry after, past = before ++ entry :: after → acts entry → Since on off before

theorem guarded_nil : Guarded acts on off [] := by
  intro before entry after hp
  simp at hp

theorem guarded_snoc {past : List (Entry ι)} {last : Entry ι} : Guarded acts on off (past ++ [last]) ↔
      Guarded acts on off past ∧ (acts last → Since on off past) :=
  forall_split_snoc

-- Along the calls from a first word, a call acts only while the guard is on.
def Driver.Inert (acts on off : Entry ι → Prop) (word : UInt32) (state : σ)
    (inputs : List (ι × List ε)) : Prop :=
  Throughout (Session.step driver device) (fun s => Guarded acts on off s.past)
    (Session.start word state) inputs

-- No call that would act is given the fault word while the guard is off.
def Driver.Heeds (fault : UInt32) (risky : ι × List ε → Prop) (on off : Entry ι → Prop)
    (word : UInt32) (state : σ) (inputs : List (ι × List ε)) : Prop :=
  Along (Session.step driver device)
    (fun s input => s.word = some fault → risky input → Since on off s.past)
    (Session.start word state) inputs

-- What makes the fault word the only way round a guard. A call acts on another
-- word only if that word entitles it; and a word that entitles comes from the
-- call that turns the guard on, from a word that did, or from a call that acted.
structure FaultOnly (fault : UInt32) (acts on off : Entry ι → Prop) (entitled : UInt32 → Prop)
    (risky : ι × List ε → Prop) : Prop where
  acts_of_entitled : ∀ {state given input}, given ≠ fault →
    acts (driver.entry device state given input) → entitled given
  acts_of_fault : ∀ {state input}, acts (driver.entry device state fault input) ↔ risky input
  entitled_next : ∀ {state given input result},
    (driver.outcome device state given input).result = some result →
    driver.thread input.1 given result ≠ fault → entitled (driver.thread input.1 given result) →
    on (driver.entry device state given input) ∨ ¬ off (driver.entry device state given input) ∧
        (given ≠ fault ∧ entitled given ∨ acts (driver.entry device state given input))

variable {driver device}
variable {fault : UInt32} {entitled : UInt32 → Prop} {risky : ι × List ε → Prop}

theorem FaultOnly.inert_iff (h : FaultOnly driver device fault acts on off entitled risky)
    {word : UInt32} (hw : ¬ entitled word) (st : σ) (inputs : List (ι × List ε)) :
    driver.Inert device acts on off word st inputs ↔ driver.Heeds device fault risky on off word st inputs := by
  refine throughout_iff_along
    (fun s : Session ι σ => Guarded acts on off s.past ∧
      ∀ given, s.word = some given → given ≠ fault → entitled given → Since on off s.past)
    (fun s hgd => hgd.1) ?_ ?_ ⟨guarded_nil, ?_⟩ inputs
  · rintro s input next ⟨hgr, he⟩ hc hs
    obtain ⟨given, hg, hn, -, hp⟩ := Session.step_eq_some driver device hs
    -- a call that acts is entitled by its word, or the condition speaks of it
    have ha : acts (driver.entry device s.device given input) → Since on off s.past := by
      intro ha
      by_cases hf : given = fault
      · subst hf
        exact hc hg (h.acts_of_fault.mp ha)
      · exact he given hg hf (h.acts_of_entitled hf ha)
    rw [hp]
    refine ⟨guarded_snoc.mpr ⟨hgr, ha⟩, fun o ho hne hen => ?_⟩
    rw [hn] at ho
    obtain ⟨result, hr, rfl⟩ := Option.map_eq_some_iff.mp ho
    rw [since_snoc]
    rcases h.entitled_next hr hne hen with hon | ⟨hof, ⟨hf, hgv⟩ | hdid⟩
    · exact .inl hon
    · exact .inr ⟨he given hg hf hgv, hof⟩
    · exact .inr ⟨ha hdid, hof⟩
  · rintro s input next - hm hs hgr
    obtain ⟨given, hg, -, -, hp⟩ := Session.step_eq_some driver device hs
    simp only [Classical.not_imp] at hm
    obtain ⟨hf, hrs, hsn⟩ := hm
    obtain rfl : fault = given := Option.some.inj (hf.symm.trans hg)
    rw [hp] at hgr
    exact hsn ((guarded_snoc.mp hgr).2 (h.acts_of_fault.mpr hrs))
  · intro given hg _ hen
    cases hg
    exact absurd hen hw

end Session

end Gale.Lib
