import Mathlib

namespace Gale.Lib

variable {α σ : Type*} {waiting : σ → Prop} {queue : List α} {state : α → σ}

-- A queue of clients: nobody is on it twice, and whoever is on it waits.
structure Parked (waiting : σ → Prop) (queue : List α) (state : α → σ) : Prop where
  nodup : queue.Nodup
  waits : ∀ client ∈ queue, waiting (state client)

namespace Parked

theorem not_mem (h : Parked waiting queue state) (client : α) (hc : ¬ waiting (state client)) : client ∉ queue :=
  fun hm => hc (h.waits client hm)

variable [DecidableEq α]

theorem update (h : Parked waiting queue state) (client : α) (hc : client ∉ queue) (next : σ) :
    Parked waiting queue (Function.update state client next) where
  nodup := h.nodup
  waits := by
    intro o hm
    have ho : o ≠ client := by
      rintro rfl
      exact hc hm
    rw [Function.update_of_ne ho]
    exact h.waits o hm

theorem enqueue (h : Parked waiting queue state) (client : α) (hc : ¬ waiting (state client))
    {next : σ} (hn : waiting next) :
    Parked waiting (queue ++ [client]) (Function.update state client next) where
  nodup := by
    rw [← List.concat_eq_append]
    exact h.nodup.concat (h.not_mem client hc)
  waits := by
    intro o hm
    rcases List.mem_append.mp hm with ho | hl
    · exact (h.update client (h.not_mem client hc) next).waits o ho
    · rw [List.mem_singleton.mp hl, Function.update_self]
      exact hn

theorem dequeue (h : Parked waiting queue state) (client : α) (next : σ) :
    Parked waiting (queue.erase client) (Function.update state client next) where
  nodup := h.nodup.erase client
  waits := by
    intro o hm
    obtain ⟨ho, hol⟩ := h.nodup.mem_erase_iff.mp hm
    rw [Function.update_of_ne ho]
    exact h.waits o hol

end Parked

-- A lock that names its holder: whoever is where the lock is held has it.
def Exclusive (holds : σ → Prop) (lock : Option α) (state : α → σ) : Prop :=
  ∀ client, holds (state client) → lock = some client

namespace Exclusive

variable {holds : σ → Prop} {lock : Option α} {client : α}

theorem unique (h : Exclusive holds lock state) {o : α} (hc : holds (state client))
    (ho : holds (state o)) : o = client := by
  have hl := h client hc
  rw [h o ho] at hl
  exact Option.some.inj hl

theorem not_of_free (h : Exclusive holds none state) (client : α) : ¬ holds (state client) :=
  fun hc => Option.some_ne_none client (h client hc).symm

variable [DecidableEq α]

theorem acquire (h : Exclusive holds none state) (client : α) (next : σ) :
    Exclusive holds (some client) (Function.update state client next) := by
  intro o ho
  by_cases heq : o = client
  · rw [heq]
  · rw [Function.update_of_ne heq] at ho
    exact absurd ho (h.not_of_free o)

theorem release (h : Exclusive holds lock state) (hc : holds (state client)) {next : σ}
    (hn : ¬ holds next) : Exclusive holds none (Function.update state client next) := by
  intro o ho
  by_cases heq : o = client
  · rw [heq, Function.update_self] at ho
    exact absurd ho hn
  · rw [Function.update_of_ne heq] at ho
    exact absurd (h.unique hc ho) heq

theorem update (h : Exclusive holds lock state) (client : α) {next : σ} (hn : holds next → holds (state client)) :
    Exclusive holds lock (Function.update state client next) := by
  intro o ho
  by_cases heq : o = client
  · rw [heq, Function.update_self] at ho
    rw [heq]
    exact h client (hn ho)
  · rw [Function.update_of_ne heq] at ho
    exact h o ho

end Exclusive

end Gale.Lib
