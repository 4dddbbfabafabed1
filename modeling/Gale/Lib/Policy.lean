import Mathlib

namespace Gale.Lib

variable {α : Type*}

-- How a queue of waiters chooses the next one to serve: some waiter, unless
-- there is none.
structure Policy (α : Type*) where
  best : List α → Option α
  mem_of_best : ∀ {queue chosen}, best queue = some chosen → chosen ∈ queue
  eq_nil_of_best : ∀ {queue}, best queue = none → queue = []

namespace Policy

-- Smallest priority value first, and first come first served among equals.
def mostUrgent (priority : α → Int) : List α → Option α
  | [] => none
  | first :: rest =>
    match mostUrgent priority rest with
    | none => some first
    | some other => if priority other < priority first then some other else some first

variable {queue : List α} {chosen : α} (priority : α → Int)

theorem mostUrgent_mem (h : mostUrgent priority queue = some chosen) : chosen ∈ queue := by
  induction queue with
  | nil => cases h
  | cons first rest ih =>
    simp only [mostUrgent] at h
    split at h
    · cases h
      exact List.mem_cons_self
    · next o hr =>
        split at h
        · cases h
          exact List.mem_cons_of_mem _ (ih hr)
        · cases h
          exact List.mem_cons_self

theorem eq_nil_of_mostUrgent (h : mostUrgent priority queue = none) : queue = [] := by
  cases queue with
  | nil => rfl
  | cons first rest =>
    simp only [mostUrgent] at h
    split at h
    · cases h
    · split at h <;> cases h

def byPriority (priority : α → Int) : Policy α where
  best := mostUrgent priority
  mem_of_best := mostUrgent_mem priority
  eq_nil_of_best := eq_nil_of_mostUrgent priority

def BestFirst (priority : α → Int) (policy : Policy α) : Prop :=
  ∀ queue chosen, policy.best queue = some chosen → ∀ other ∈ queue, priority chosen ≤ priority other

theorem mostUrgent_le (h : mostUrgent priority queue = some chosen) :
    ∀ other ∈ queue, priority chosen ≤ priority other := by
  induction queue generalizing chosen with
  | nil => cases h
  | cons first rest ih =>
    simp only [mostUrgent] at h
    intro other hm
    split at h
    · next hn =>
        cases h
        rw [eq_nil_of_mostUrgent priority hn] at hm
        have heq := List.mem_singleton.mp hm
        subst heq
        exact Int.le_refl _
    · next best hr =>
        have hb := ih hr
        split at h
        · cases h
          rcases List.mem_cons.mp hm with rfl | hm
          · omega
          · exact hb other hm
        · cases h
          rcases List.mem_cons.mp hm with rfl | hm
          · exact Int.le_refl _
          · have := hb other hm
            omega

theorem byPriority_bestFirst : (byPriority priority).BestFirst priority :=
  fun _ _ h => mostUrgent_le priority h

section Search

variable {β : Type*} (policy : Policy α) (answer : α → Option β)

def search (queue : List α) : Option (α × β) :=
  match policy.best (queue.filter fun client => (answer client).isSome) with
  | none => none
  | some chosen => (answer chosen).map (Prod.mk chosen)

theorem search_cases (queue : List α) : (policy.search answer queue = none ∧ ∀ cl ∈ queue, answer cl = none) ∨
      ∃ chosen ∈ queue, ∃ v, answer chosen = some v ∧ policy.search answer queue = some (chosen, v) := by
  unfold search
  cases hb : policy.best (queue.filter fun cl => (answer cl).isSome) with
  | none =>
    refine .inl ⟨rfl, fun cl hm => ?_⟩
    have hn := List.filter_eq_nil_iff.mp (policy.eq_nil_of_best hb) cl hm
    exact Option.not_isSome_iff_eq_none.mp hn
  | some chosen =>
    obtain ⟨hm, hs⟩ := List.mem_filter.mp (policy.mem_of_best hb)
    obtain ⟨v, hv⟩ := Option.isSome_iff_exists.mp hs
    exact .inr ⟨chosen, hm, v, hv, by simp [hv]⟩

end Search

variable [DecidableEq α] (policy : Policy α)

def take (queue : List α) : Option α × List α :=
  match policy.best queue with
  | none => (none, queue)
  | some chosen => (some chosen, queue.erase chosen)

theorem take_cases (queue : List α) : (queue = [] ∧ policy.take queue = (none, [])) ∨
      ∃ chosen ∈ queue, policy.take queue = (some chosen, queue.erase chosen) := by
  cases hb : policy.best queue with
  | none =>
    have hq := policy.eq_nil_of_best hb
    subst hq
    exact .inl ⟨rfl, by simp [take, hb]⟩
  | some chosen => exact .inr ⟨chosen, policy.mem_of_best hb, by simp [take, hb]⟩

theorem best_of_take (h : (policy.take queue).1 = some chosen) : policy.best queue = some chosen := by
  unfold take at h
  split at h
  · cases h
  · next o hb =>
      cases h
      exact hb

end Policy

end Gale.Lib
