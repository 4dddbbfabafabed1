import Gale.Lib.Run

namespace Gale.Lib

theorem forall_split_snoc {ε : Type*} {holds : List ε → ε → Prop} {past : List ε} {last : ε} :
    (∀ before event after, past ++ [last] = before ++ event :: after → holds before event) ↔
      (∀ before event after, past = before ++ event :: after → holds before event) ∧ holds past last := by
  constructor
  · intro h
    refine ⟨fun before event after hp => ?_, h past last [] rfl⟩
    exact h before event (after ++ [last]) (by rw [hp]; simp)
  · rintro ⟨hp, hl⟩ before event after hs
    rcases List.eq_nil_or_concat after with rfl | ⟨rest, fin, rfl⟩
    · obtain ⟨rfl, heq⟩ := List.append_inj' hs rfl
      cases heq
      exact hl
    · rw [List.concat_eq_append, ← List.cons_append, ← List.append_assoc] at hs
      obtain ⟨rfl, -⟩ := List.append_inj' hs rfl
      exact hp before event rest rfl

-- Something turned on by an event of the past that no event since has turned off.
section Since

variable {ε : Type*} {on off : ε → Prop}

def Since (on off : ε → Prop) (past : List ε) : Prop :=
  ∃ before event after, past = before ++ event :: after ∧ on event ∧ ∀ later ∈ after, ¬ off later

theorem not_since_nil : ¬ Since on off [] := by
  rintro ⟨before, event, after, hp, -⟩
  simp at hp

theorem since_snoc (past : List ε) (last : ε) :
    Since on off (past ++ [last]) ↔ on last ∨ (Since on off past ∧ ¬ off last) := by
  constructor
  · rintro ⟨before, event, after, hp, hon, ha⟩
    rcases List.eq_nil_or_concat after with rfl | ⟨rest, fin, rfl⟩
    · obtain ⟨-, hl⟩ := List.append_inj' hp rfl
      cases hl
      exact .inl hon
    · rw [List.concat_eq_append, ← List.cons_append, ← List.append_assoc] at hp
      obtain ⟨rfl, hl⟩ := List.append_inj' hp rfl
      cases hl
      simp only [List.concat_eq_append, List.mem_append, List.mem_singleton] at ha
      exact .inr ⟨⟨before, event, rest, rfl, hon, fun l h => ha l (.inl h)⟩, ha last (.inr rfl)⟩
  · rintro (hon | ⟨⟨before, event, after, rfl, hon, ha⟩, hoff⟩)
    · exact ⟨past, last, [], rfl, hon, by simp⟩
    · refine ⟨before, event, after ++ [last], by simp, hon, ?_⟩
      intro l hlt
      rcases List.mem_append.mp hlt with h | h
      · exact ha l h
      · rw [List.mem_singleton.mp h]
        exact hoff

theorem Since.exists_mem {past : List ε} (h : Since on off past) : ∃ event ∈ past, on event := by
  obtain ⟨before, event, after, rfl, hon, -⟩ := h
  exact ⟨event, by simp, hon⟩

theorem since_singleton {event : ε} : Since on off [event] ↔ on event := by
  rw [← List.nil_append [event], since_snoc]
  exact or_iff_left fun h => not_since_nil h.1

end Since

def recorded {σ ι : Type*} (step : σ → ι → Option σ) (h : σ × List (σ × ι)) (input : ι) :
    Option (σ × List (σ × ι)) :=
  (step h.1 input).map fun next => (next, h.2 ++ [(h.1, input)])

theorem recorded_eq_some {σ ι : Type*} {step : σ → ι → Option σ} {h next : σ × List (σ × ι)}
    {a : ι} : recorded step h a = some next ↔ step h.1 a = some next.1 ∧ next.2 = h.2 ++ [(h.1, a)] := by
  rw [recorded, Option.map_eq_some_iff]
  constructor
  · rintro ⟨st, hs, rfl⟩
    exact ⟨hs, rfl⟩
  · rintro ⟨hs, hp⟩
    exact ⟨next.1, hs, by rw [← hp]⟩

end Gale.Lib
