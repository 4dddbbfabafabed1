import Gale.Executor

namespace Gale.Executor

open Lib

theorem Slot.lt_word (i : Slot) : i.val < 32 := by
  have hi : i.val < 8 := i.isLt
  omega

namespace Tasks

variable (t : Tasks) (i : Slot)

theorem readyBit_set (j : Slot) :
    Tasks.readyBit { t with ready := Bits.set t.ready i.val } j = (t.readyBit j || decide (i = j)) := by
  rw [readyBit, Bits.isSet_set t.ready (Slot.lt_word i) (Slot.lt_word j), readyBit]
  simp only [Fin.ext_iff]

theorem readyBit_consume (j : Slot) : (t.consume i).readyBit j = (t.readyBit j && !decide (i = j)) := by
  rw [readyBit, consume, Bits.isSet_clear t.ready (Slot.lt_word i) (Slot.lt_word j), readyBit]
  simp only [Fin.ext_iff]

theorem readyBit_of_admitTask (prio : UInt32) {i : Slot}
    (h : (t.admitTask prio).1.readyBit i = true) : t.readyBit i = true := by
  unfold admitTask at h
  split at h
  · next j hf =>
      have hc : (t.consume j).readyBit i = true := h
      rw [readyBit_consume] at hc
      exact (Bool.and_eq_true_iff.mp hc).1
  · exact h

@[simp] theorem readyBit_dispatchOne (done : UInt32) (j : Slot) :
    (t.dispatchOne i done).readyBit j = t.readyBit j := by
  unfold dispatchOne
  split
  · rfl
  · rfl

theorem readyBit_new : new.readyBit i = false := Bits.isSet_zero _

theorem readyBit_wake (h : UInt32) (i : Slot) : (t.wake h).readyBit i =
      (t.readyBit i || decide (slot? h = some i ∧ t.state i = .Pending)) := by
  cases hs : slot? h with
  | none => simp [wake, hs]
  | some j =>
    by_cases hp : t.state j = .Pending
    · simp only [wake, hs, hp, ↓reduceIte, readyBit_set]
      by_cases heq : j = i
      · subst heq
        simp [hp]
      · simp [heq]
    · simp only [wake, hs, hp, ↓reduceIte]
      by_cases heq : j = i
      · subst heq
        simp [hp]
      · simp [heq]

variable (now : UInt64)

theorem readyBit_expireSlot (t : Tasks) (j i : Slot) :
    (expireSlot now t j).readyBit i = (t.readyBit i || (decide (i = j) && t.isDue now i)) := by
  unfold expireSlot
  by_cases hd : t.isDue now j
  · rw [if_pos hd, readyBit_set]
    by_cases heq : i = j
    · subst heq
      simp [hd]
    · simp [heq, Ne.symm heq]
  · rw [if_neg hd]
    by_cases heq : i = j
    · subst heq
      simp [hd]
    · simp [heq]

theorem isDue_expireSlot (t : Tasks) (j i : Slot) : (expireSlot now t j).isDue now i = t.isDue now i := by
  unfold expireSlot
  split
  · rfl
  · rfl

theorem readyBit_foldl_expireSlot (slots : List Slot) (t : Tasks) (i : Slot) :
    (slots.foldl (expireSlot now) t).readyBit i = (t.readyBit i || (decide (i ∈ slots) && t.isDue now i)) := by
  induction slots generalizing t with
  | nil => simp
  | cons j rest ih =>
    rw [List.foldl_cons, ih, readyBit_expireSlot, isDue_expireSlot, Bool.or_assoc, ← Bool.and_or_distrib_right]
    simp

theorem readyBit_expire : (t.expire now).readyBit i = (t.readyBit i || t.isDue now i) := by
  rw [expire, readyBit_foldl_expireSlot]
  simp

theorem better_foldl (slots : List Slot) (best : Option Slot) (hbs : ∀ i, best = some i → t.readyBit i = true) :
    (∀ i, slots.foldl t.better best = some i → t.readyBit i = true) ∧
      (slots.foldl t.better best = none → best = none ∧ ∀ i ∈ slots, t.readyBit i = false) := by
  induction slots generalizing best with
  | nil => exact ⟨hbs, fun h => ⟨h, by simp⟩⟩
  | cons j rest ih =>
    have ht : (∀ i, t.better best j = some i → t.readyBit i = true) ∧
        (t.better best j = none → best = none ∧ t.readyBit j = false) := by
      unfold better
      by_cases hr : t.readyBit j
      · rw [if_pos hr]
        cases best with
        | none => simp [hr]
        | some b =>
          dsimp only
          split_ifs
          · simp [hr]
          · exact ⟨hbs, by simp⟩
      · rw [if_neg hr]
        exact ⟨hbs, fun h => ⟨h, Bool.eq_false_iff.mpr hr⟩⟩
    obtain ⟨hs, hn⟩ := ih (t.better best j) ht.1
    refine ⟨hs, fun h => ?_⟩
    obtain ⟨hj, hrs⟩ := hn h
    obtain ⟨hb, hbt⟩ := ht.2 hj
    refine ⟨hb, fun i hi => ?_⟩
    rcases List.mem_cons.mp hi with rfl | hm
    · exact hbt
    · exact hrs i hm

theorem readyBit_of_pickNext {t : Tasks} {i : Slot} (h : t.pickNext = some i) : t.readyBit i = true :=
  (t.better_foldl _ none (by simp)).1 i h

theorem not_ready_of_pickNext {t : Tasks} (h : t.pickNext = none) (i : Slot) : t.readyBit i = false :=
  ((t.better_foldl _ none (by simp)).2 h).2 i (List.mem_finRange i)

variable (pt : PollTask)

theorem pollLoop_count (fuel : Nat) (t : Tasks) (calls : List Slot) (i : Slot) :
    (t.pollLoop pt fuel calls).2.count i + ((t.pollLoop pt fuel calls).1.readyBit i).toNat =
      calls.count i + (t.readyBit i).toNat := by
  induction fuel generalizing t calls with
  | zero => rfl
  | succ fuel ih =>
    unfold pollLoop
    split
    · rfl
    · next j hp =>
        rw [ih, readyBit_dispatchOne, readyBit_consume, List.count_append, List.count_singleton]
        have hr := readyBit_of_pickNext hp
        by_cases heq : j = i
        · subst heq
          simp [hr]
        · simp [heq]

def readySlots (t : Tasks) : Finset Slot := Finset.univ.filter fun i => t.readyBit i = true

theorem mem_readySlots {t : Tasks} {i : Slot} : i ∈ t.readySlots ↔ t.readyBit i = true := by
  simp [readySlots]

theorem readySlots_turn {t : Tasks} {i : Slot} (hp : t.pickNext = some i) (done : UInt32) :
    ((t.consume i).dispatchOne i done).readySlots.card + 1 = t.readySlots.card := by
  have hs : ((t.consume i).dispatchOne i done).readySlots = t.readySlots.erase i := by
    ext k
    simp [readySlots, readyBit_consume, and_comm, @eq_comm _ i k]
  rw [hs]
  exact Finset.card_erase_add_one (mem_readySlots.mpr (readyBit_of_pickNext hp))

theorem pollLoop_drained (fuel : Nat) (t : Tasks) (calls : List Slot) (hf : t.readySlots.card ≤ fuel) (i : Slot) :
    (t.pollLoop pt fuel calls).1.readyBit i = false := by
  induction fuel generalizing t calls with
  | zero =>
    have he : t.readySlots = ∅ := Finset.card_eq_zero.mp (Nat.le_zero.mp hf)
    have hi : i ∉ t.readySlots := by simp [he]
    simpa [pollLoop, readySlots] using hi
  | succ fuel ih =>
    unfold pollLoop
    split
    · next hp => exact not_ready_of_pickNext hp i
    · next j hp =>
        apply ih
        have ht := readySlots_turn hp (pt calls j)
        omega

theorem readySlots_card_le : t.readySlots.card ≤ MAX_TASKS :=
  (Finset.card_le_univ _).trans (by simp)

theorem pollRound_drained (t : Tasks) (calls : List Slot) (i : Slot) : (t.pollRound pt calls).1.readyBit i = false :=
  pollLoop_drained pt MAX_TASKS t calls t.readySlots_card_le i

end Tasks

end Gale.Executor
