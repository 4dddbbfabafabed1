import Mathlib

namespace Gale.Lib

open Function

section Ring

variable {α : Type*}

def contents (slots : Nat → α) (capacity start count : Nat) : List α :=
  (List.range count).map fun i => slots ((start + i) % capacity)

variable (slots : Nat → α)

@[simp] theorem contents_zero (capacity start : Nat) : contents slots capacity start 0 = [] := rfl

@[simp] theorem length_contents (capacity start count : Nat) :
    (contents slots capacity start count).length = count := by
  simp [contents]

theorem contents_take (capacity start count n : Nat) :
    (contents slots capacity start count).take n = contents slots capacity start (min n count) := by
  rw [contents, ← List.map_take, List.take_range, contents]

variable {capacity start count : Nat}

theorem slot_inj {i j : Nat} (hi : i < capacity) (hj : j < capacity)
    (h : (start + i) % capacity = (start + j) % capacity) : i = j := by
  have hm : i ≡ j [MOD capacity] := Nat.ModEq.add_left_cancel' start h
  rwa [Nat.ModEq, Nat.mod_eq_of_lt hi, Nat.mod_eq_of_lt hj] at hm

theorem contents_update {off : Nat} (v : α) (hc : count ≤ off) (ho : off < capacity) :
    contents (update slots ((start + off) % capacity) v) capacity start count =
      contents slots capacity start count := by
  apply List.map_congr_left
  intro i hi
  have hlt := List.mem_range.mp hi
  apply update_of_ne
  intro heq
  have := slot_inj (by omega) ho heq
  omega

theorem contents_push_back (v : α) (hc : count < capacity) :
    contents (update slots ((start + count) % capacity) v) capacity start (count + 1) =
      contents slots capacity start count ++ [v] := by
  rw [contents, List.range_succ, List.map_append, ← contents, contents_update slots v (Nat.le_refl _) hc]
  simp

theorem contents_pop_front (hs : start < capacity) : contents slots capacity start (count + 1) =
      slots start :: contents slots capacity ((start + 1) % capacity) count := by
  simp only [contents, List.range_succ_eq_map, List.map_cons, List.map_map, Nat.add_zero, Nat.mod_eq_of_lt hs]
  congr 1
  apply List.map_congr_left
  intro i _
  simp only [comp_apply, Nat.succ_eq_add_one, Nat.mod_add_mod]
  congr 2
  omega

theorem contents_push_front (v : α) (hs : start < capacity) (hc : count < capacity) :
    contents (update slots ((start + (capacity - 1)) % capacity) v) capacity
      ((start + (capacity - 1)) % capacity) (count + 1) =
      v :: contents slots capacity start count := by
  have hn : ((start + (capacity - 1)) % capacity + 1) % capacity = start := by
    rw [Nat.mod_add_mod, Nat.add_assoc, Nat.sub_add_cancel (by omega), Nat.add_mod_right, Nat.mod_eq_of_lt hs]
  rw [contents_pop_front _ (Nat.mod_lt _ (by omega)), hn]
  simp only [update_self]
  rw [contents_update slots v (by omega) (by omega)]

theorem next_index {i : Nat} (h : i < capacity) : (if i + 1 < capacity then i + 1 else 0) = (i + 1) % capacity := by
  split
  · rw [Nat.mod_eq_of_lt (by assumption)]
  · rw [show i + 1 = capacity by omega, Nat.mod_self]

theorem previous_index {i : Nat} (h : i < capacity) :
    (if i = 0 then capacity - 1 else i - 1) = (i + (capacity - 1)) % capacity := by
  split
  · subst i
    rw [Nat.zero_add, Nat.mod_eq_of_lt (by omega)]
  · rw [show i + (capacity - 1) = i - 1 + capacity by omega, Nat.add_mod_right, Nat.mod_eq_of_lt (by omega)]

theorem wrap_index {i : Nat} (hs : start < capacity) (hi : i ≤ capacity) :
    (if start + i < capacity then start + i else start + i - capacity) = (start + i) % capacity := by
  split
  · rw [Nat.mod_eq_of_lt (by assumption)]
  · rw [Nat.mod_eq_sub_mod (by omega), Nat.mod_eq_of_lt (by omega)]

structure Holds (capacity start stop count : Nat) (slots : Nat → α) (queue : List α) : Prop where
  start_lt : start < capacity
  count_le : count ≤ capacity
  stop_eq : stop = (start + count) % capacity
  contents_eq : contents slots capacity start count = queue

namespace Holds

variable {stop : Nat} {slots : Nat → α} {queue : List α}

theorem empty (slots : Nat → α) (h : start < capacity) : Holds capacity start start 0 slots [] :=
  ⟨h, Nat.zero_le _, (Nat.mod_eq_of_lt h).symm, rfl⟩

section

variable (h : Holds capacity start stop count slots queue)
include h

theorem stop_lt : stop < capacity := by
  rw [h.stop_eq]
  exact Nat.mod_lt _ (Nat.zero_lt_of_lt h.start_lt)

theorem length_eq : queue.length = count := by
  rw [← h.contents_eq, length_contents]

theorem getElem?_eq {i : Nat} (hi : i < count) : queue[i]? = some (slots ((start + i) % capacity)) := by
  rw [← h.contents_eq]
  simp [contents, hi]

theorem push_back (v : α) (hc : count < capacity) :
    Holds capacity start ((stop + 1) % capacity) (count + 1) (update slots stop v)
      (queue ++ [v]) := by
  refine ⟨h.start_lt, hc, ?_, ?_⟩
  · rw [h.stop_eq, Nat.mod_add_mod, Nat.add_assoc]
  · rw [h.stop_eq, contents_push_back slots v hc, h.contents_eq]

theorem push_front (v : α) (hc : count < capacity) :
    Holds capacity ((start + (capacity - 1)) % capacity) stop (count + 1)
      (update slots ((start + (capacity - 1)) % capacity) v) (v :: queue) := by
  refine ⟨Nat.mod_lt _ (by omega), hc, ?_, ?_⟩
  · rw [h.stop_eq, Nat.mod_add_mod, show start + (capacity - 1) + (count + 1) =
      start + count + capacity by omega, Nat.add_mod_right]
  · rw [contents_push_front slots v h.start_lt hc, h.contents_eq]

theorem slots_eq {stop' count' : Nat} {slots' : Nat → α} {more : List α}
    (h' : Holds capacity start stop' count' slots' (queue ++ more)) {i : Nat} (hi : i < count) :
    slots' ((start + i) % capacity) = slots ((start + i) % capacity) := by
  have hl := h'.length_eq
  rw [List.length_append, h.length_eq] at hl
  have ha := h'.getElem?_eq (show i < count' by omega)
  rw [List.getElem?_append_left (by rw [h.length_eq]; exact hi), h.getElem?_eq hi] at ha
  exact (Option.some.inj ha).symm

end

theorem pop_front {v : α} (h : Holds capacity start stop count slots (v :: queue)) :
    v = slots start ∧ Holds capacity ((start + 1) % capacity) stop (count - 1) slots queue := by
  obtain ⟨hs, hcn, hst, hc⟩ := h
  cases count with
  | zero => exact absurd hc (List.cons_ne_nil _ _).symm
  | succ count =>
    rw [contents_pop_front slots hs] at hc
    obtain ⟨hv, hr⟩ := List.cons.inj hc
    refine ⟨hv.symm, Nat.mod_lt _ (by omega), by omega, ?_, hr⟩
    rw [hst, Nat.add_sub_cancel, Nat.mod_add_mod, Nat.add_assoc, Nat.add_comm 1]

end Holds

end Ring

end Gale.Lib
