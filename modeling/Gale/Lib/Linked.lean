import Mathlib

namespace Gale.Lib

variable {α : Type*}

-- A singly linked list in memory: next gives the link stored in a node, none
-- ends the list.
def Linked (next : α → Option α) : Option α → List α → Prop
  | none, [] => True
  | some node, first :: rest => node = first ∧ Linked next (next node) rest
  | _, _ => False

namespace Linked

variable {next : α → Option α} {head : Option α} {nodes : List α}

theorem nil : Linked next none [] := trivial

theorem eq_none_iff (h : Linked next head nodes) : head = none ↔ nodes = [] := by
  cases head with
  | none =>
    cases nodes with
    | nil => simp
    | cons first rest => exact h.elim
  | some node =>
    cases nodes with
    | nil => exact h.elim
    | cons first rest => simp

theorem eq_cons {node : α} (h : Linked next (some node) nodes) :
    ∃ rest, nodes = node :: rest ∧ Linked next (next node) rest := by
  cases nodes with
  | nil => exact h.elim
  | cons first rest =>
    obtain ⟨rfl, hr⟩ := h
    exact ⟨rest, rfl, hr⟩

theorem congr {o : α → Option α} (heq : ∀ node ∈ nodes, o node = next node)
    (h : Linked next head nodes) : Linked o head nodes := by
  induction nodes generalizing head with
  | nil =>
    cases head with
    | none => trivial
    | some node => exact h.elim
  | cons first rest ih =>
    cases head with
    | none => exact h.elim
    | some node =>
      obtain ⟨rfl, hr⟩ := h
      refine ⟨rfl, ?_⟩
      rw [heq node List.mem_cons_self]
      exact ih (fun o hm => heq o (List.mem_cons_of_mem _ hm)) hr

variable [DecidableEq α]

theorem update {node : α} (hn : node ∉ nodes) (link : Option α) (h : Linked next head nodes) :
    Linked (Function.update next node link) head nodes := by
  refine h.congr fun o hm => Function.update_of_ne ?_ _ _
  rintro rfl
  exact hn hm

theorem push {node : α} (hn : node ∉ nodes) (h : Linked next head nodes) :
    Linked (Function.update next node head) (some node) (node :: nodes) := by
  refine ⟨rfl, ?_⟩
  rw [Function.update_self]
  exact h.update hn head

end Linked

end Gale.Lib
