import Gale.Executor.Round

namespace Gale.Executor

open Lib

namespace Tasks

-- inv() of the source.
structure Inv (t : Tasks) : Prop where
  pending : ∀ i, t.readyBit i = true → t.state i = .Pending
  bound : t.ready < 256

-- Lower priority values first, the lower index among equals.
def rank (t : Tasks) (i : Slot) : Nat ×ₗ Slot := toLex ((t.prio i).toNat, i)

variable (t : Tasks)

theorem rank_lt_iff (i j : Slot) : t.rank i < t.rank j ↔ t.prio i < t.prio j ∨ t.prio i = t.prio j ∧ i < j := by
  simp only [rank, Prod.Lex.toLex_lt_toLex, UInt32.lt_iff_toNat_lt, UInt32.toNat_inj]

variable {i : Slot}

theorem rank_injective {t : Tasks} {j : Slot} (h : t.rank i = t.rank j) : i = j :=
  congrArg (fun key => (ofLex key).2) h

structure Turned (t : Tasks) (best : Option Slot) (i : Slot) (next : Option Slot) : Prop where
  old : ∀ b ∈ best, ∃ n ∈ next, t.rank n ≤ t.rank b
  new : t.readyBit i = true → ∃ n ∈ next, t.rank n ≤ t.rank i
  back : ∀ n ∈ next, n ≤ i

theorem better_turned (best : Option Slot) (i : Slot) (ha : ∀ b ∈ best, b < i) :
    t.Turned best i (t.better best i) := by
  by_cases hr : t.readyBit i = true
  · cases best with
    | none =>
      have hf : t.better none i = some i := if_pos hr
      rw [hf]
      exact ⟨by simp, fun _ => ⟨i, rfl, le_rfl⟩, by simp⟩
    | some b =>
      have hbi : b < i := ha b rfl
      by_cases hlt : t.prio i < t.prio b
      · have hrn := (t.rank_lt_iff i b).mpr (.inl hlt)
        simp only [better, hr, hlt, ↓reduceIte]
        exact ⟨by simpa using hrn.le, fun _ => ⟨i, rfl, le_rfl⟩, by simp⟩
      · have hrn : t.rank b < t.rank i := by
          rcases UInt32.lt_or_eq_of_le (UInt32.not_lt.mp hlt) with hl | hs
          · exact (t.rank_lt_iff b i).mpr (.inl hl)
          · exact (t.rank_lt_iff b i).mpr (.inr ⟨hs, hbi⟩)
        simp only [better, hr, hlt, ↓reduceIte]
        exact ⟨by simp, fun _ => ⟨b, rfl, hrn.le⟩, by simpa using hbi.le⟩
  · have hs : t.better best i = best := if_neg hr
    rw [hs]
    exact ⟨fun b hb => ⟨b, hb, le_rfl⟩, fun h => absurd h hr, fun n hn => (ha n hn).le⟩

-- The scan goes through the slots in increasing order, so the best so far is behind it.
theorem better_foldl_least (slots : List Slot) (best : Option Slot)
    (hs : slots.Pairwise (· < ·)) (ha : ∀ b ∈ best, ∀ j ∈ slots, b < j)
    (h : slots.foldl t.better best = some i) :
    (∀ b ∈ best, t.rank i ≤ t.rank b) ∧ ∀ j ∈ slots, t.readyBit j = true → t.rank i ≤ t.rank j := by
  induction slots generalizing best with
  | nil =>
    have hbs : best = some i := h
    simp [hbs]
  | cons j rest ih =>
    obtain ⟨hj, hrs⟩ := List.pairwise_cons.mp hs
    have ht := t.better_turned best j fun b hb => ha b hb j List.mem_cons_self
    obtain ⟨hnx, ho⟩ := ih (t.better best j) hrs
      (fun n hn k hk => (ht.back n hn).trans_lt (hj k hk)) h
    refine ⟨fun b hb => ?_, fun k hk hr => ?_⟩
    · obtain ⟨n, hn, hle⟩ := ht.old b hb
      exact (hnx n hn).trans hle
    · rcases List.mem_cons.mp hk with rfl | hm
      · obtain ⟨n, hn, hle⟩ := ht.new hr
        exact (hnx n hn).trans hle
      · exact ho k hm hr

theorem pickNext_least {t : Tasks} (h : t.pickNext = some i) {j : Slot}
    (hr : t.readyBit j = true) (hne : j ≠ i) : t.rank i < t.rank j := by
  have hle := (t.better_foldl_least _ none (List.pairwise_lt_finRange MAX_TASKS) (by simp) h).2 j
    (List.mem_finRange j) hr
  exact lt_of_le_of_ne hle fun heq => hne (rank_injective heq).symm

@[simp] theorem rank_consume (i j : Slot) : (t.consume i).rank j = t.rank j := rfl

@[simp] theorem rank_dispatchOne (i : Slot) (done : UInt32) (j : Slot) : (t.dispatchOne i done).rank j = t.rank j := by
  unfold dispatchOne
  split
  · rfl
  · rfl

theorem state_dispatchOne (i : Slot) (done : UInt32) (j : Slot) :
    (t.dispatchOne i done).state j = if i = j ∧ done = 1 then .Done else t.state j := by
  unfold dispatchOne
  by_cases hd : done = 1
  · by_cases heq : i = j
    · subst heq
      simp [hd]
    · simp [hd, heq, Function.update_of_ne (Ne.symm heq)]
  · simp [hd]

end Tasks

-- The turns of the loop of poll_round: the slots polled, one by one, and the table at the end.
inductive Turns (pollTask : PollTask) : Tasks → List Slot → List Slot → Tasks → Prop where
  | Drained {t : Tasks} {calls : List Slot} (hpick : t.pickNext = none) : Turns pollTask t calls [] t
  | Turn {t final : Tasks} {calls order : List Slot} {i : Slot} (hpick : t.pickNext = some i)
      (rest : Turns pollTask ((t.consume i).dispatchOne i (pollTask calls i)) (calls ++ [i]) order
        final) :
      Turns pollTask t calls (i :: order) final

def Finished (pollTask : PollTask) (calls order : List Slot) (i : Slot) : Prop :=
  ∃ before after, order = before ++ i :: after ∧ pollTask (calls ++ before) i = 1

variable {pollTask : PollTask}

theorem finished_cons {calls order : List Slot} {i j : Slot} : Finished pollTask calls (j :: order) i ↔
      (j = i ∧ pollTask calls j = 1) ∨ Finished pollTask (calls ++ [j]) order i := by
  constructor
  · rintro ⟨before, after, hs, hd⟩
    cases before with
    | nil =>
      cases hs
      exact .inl ⟨rfl, by simpa using hd⟩
    | cons first before =>
      cases hs
      exact .inr ⟨before, after, rfl, by simpa using hd⟩
  · rintro (⟨rfl, hd⟩ | ⟨before, after, rfl, hd⟩)
    · exact ⟨[], order, rfl, by simpa using hd⟩
    · exact ⟨j :: before, after, rfl, by simpa using hd⟩

theorem finished_mem {calls order : List Slot} {i : Slot} (h : Finished pollTask calls order i) : i ∈ order := by
  obtain ⟨before, after, rfl, -⟩ := h
  simp

namespace Turns

variable {pt : PollTask} {t fin : Tasks} {calls order : List Slot}

section

variable (h : Turns pt t calls order fin)
include h

theorem mem_iff (i : Slot) : i ∈ order ↔ t.readyBit i = true := by
  induction h with
  | Drained hp => simp [Tasks.not_ready_of_pickNext hp i]
  | @Turn t _ _ _ j hp _ ih =>
    rw [List.mem_cons, ih, Tasks.readyBit_dispatchOne, Tasks.readyBit_consume]
    by_cases heq : i = j
    · subst heq
      simp [Tasks.readyBit_of_pickNext hp]
    · simp [heq, Ne.symm heq]

theorem sorted : order.Pairwise fun i j => t.rank i < t.rank j := by
  induction h with
  | Drained _ => exact List.Pairwise.nil
  | @Turn t _ _ _ i hpick rest ih =>
    refine List.pairwise_cons.mpr ⟨fun j hj => ?_, by simpa using ih⟩
    have hl := (rest.mem_iff j).mp hj
    rw [Tasks.readyBit_dispatchOne, Tasks.readyBit_consume, Bool.and_eq_true] at hl
    exact Tasks.pickNext_least hpick hl.1 fun heq => by simp [heq] at hl

theorem frame : fin.prio = t.prio ∧ fin.deadline = t.deadline := by
  induction h with
  | Drained _ => exact ⟨rfl, rfl⟩
  | @Turn t _ calls _ i _ _ ih =>
    have ht : ((t.consume i).dispatchOne i (pt calls i)).prio = t.prio ∧
        ((t.consume i).dispatchOne i (pt calls i)).deadline = t.deadline := by
      unfold Tasks.dispatchOne
      split
      · exact ⟨rfl, rfl⟩
      · exact ⟨rfl, rfl⟩
    exact ⟨ih.1.trans ht.1, ih.2.trans ht.2⟩

variable {i : Slot}

theorem state_of_finished (hd : Finished pt calls order i ∨ t.state i = .Done) : fin.state i = .Done := by
  induction h with
  | Drained _ =>
    rcases hd with ⟨before, after, hs, -⟩ | hstate
    · simp at hs
    · exact hstate
  | Turn _ _ ih =>
    apply ih
    rw [finished_cons] at hd
    rw [Tasks.state_dispatchOne]
    rcases hd with (hnow | hlater) | hstate
    · exact .inr (if_pos hnow)
    · exact .inl hlater
    · refine .inr ?_
      split
      · rfl
      · exact hstate

theorem state_of_not_finished (hd : ¬ Finished pt calls order i) : fin.state i = t.state i := by
  induction h with
  | Drained _ => rfl
  | Turn _ _ ih =>
    rw [finished_cons, not_or] at hd
    rw [ih hd.2, Tasks.state_dispatchOne, if_neg hd.1]
    rfl

theorem bound (hb : t.ready < 256) : fin.ready < 256 := by
  induction h with
  | Drained _ => exact hb
  | @Turn t _ calls _ i _ _ ih =>
    apply ih
    have hr : ((t.consume i).dispatchOne i (pt calls i)).ready = Bits.clear t.ready i.val := by
      unfold Tasks.dispatchOne
      split
      · rfl
      · rfl
    rw [hr, UInt32.lt_iff_toNat_lt]
    refine @Bits.toNat_lt_of_isSet 8 _ fun k hk hlt => ?_
    rw [Bits.isSet_clear t.ready (Slot.lt_word i) hlt,
      Bits.isSet_of_lt (UInt32.lt_iff_toNat_lt.mp hb) hk hlt, Bool.false_and]

end

end Turns

theorem ready_eq_zero {t : Tasks} (hb : t.ready < 256) (hl : ∀ i, t.readyBit i = false) : t.ready = 0 := by
  have hn : ∀ k, 0 ≤ k → k < 32 → Bits.isSet t.ready k = false := by
    intro k _ hk
    by_cases hs : k < MAX_TASKS
    · exact hl ⟨k, hs⟩
    · exact @Bits.isSet_of_lt _ 8 _ (UInt32.lt_iff_toNat_lt.mp hb) (Nat.not_lt.mp hs) hk
  have hz : t.ready.toNat < 1 := Bits.toNat_lt_of_isSet hn
  exact UInt32.toNat_inj.mp (Nat.lt_one_iff.mp hz)

-- With fuel for every ready slot the loop ends because nothing is ready.
theorem pollLoop_turns (pollTask : PollTask) (fuel : Nat) (t : Tasks) (calls : List Slot)
    (hf : t.readySlots.card ≤ fuel) :
    ∃ order, (t.pollLoop pollTask fuel calls).2 = calls ++ order ∧
      Turns pollTask t calls order (t.pollLoop pollTask fuel calls).1 := by
  induction fuel generalizing t calls with
  | zero =>
    have hn : t.pickNext = none := by
      refine Option.eq_none_iff_forall_ne_some.mpr fun i hp => ?_
      have htr := Tasks.readySlots_turn hp 0
      omega
    exact ⟨[], by simp [Tasks.pollLoop], .Drained hn⟩
  | succ fuel ih =>
    unfold Tasks.pollLoop
    split
    · next hp => exact ⟨[], by simp, .Drained hp⟩
    · next i hp =>
        have htr := Tasks.readySlots_turn hp (pollTask calls i)
        obtain ⟨order, hc, ht⟩ :=
          ih ((t.consume i).dispatchOne i (pollTask calls i)) (calls ++ [i]) (by omega)
        exact ⟨i :: order, by simpa using hc, .Turn hp ht⟩

theorem poll_round_in_order (pollTask : PollTask) (t : Tasks) (calls : List Slot) (hinv : t.Inv) :
    ∃ order, (t.pollRound pollTask calls).2 = calls ++ order ∧
      (∀ i, order.count i = if t.readyBit i then 1 else 0) ∧
      (order.Pairwise fun i j => t.prio i < t.prio j ∨ t.prio i = t.prio j ∧ i < j) ∧
      (t.pollRound pollTask calls).1.ready = 0 ∧
      (∀ i, t.state i ≠ .Done ∧ (t.pollRound pollTask calls).1.state i = .Done ↔
        Finished pollTask calls order i) ∧
      (∀ i, ¬ Finished pollTask calls order i → (t.pollRound pollTask calls).1.state i = t.state i) ∧
      (t.pollRound pollTask calls).1.prio = t.prio ∧
      (t.pollRound pollTask calls).1.deadline = t.deadline := by
  obtain ⟨order, hc, ht⟩ :=
    pollLoop_turns pollTask MAX_TASKS t calls t.readySlots_card_le
  have hn : order.Nodup := ht.sorted.imp fun hlt => by
    rintro rfl
    exact lt_irrefl _ hlt
  refine ⟨order, hc, fun i => ?_, ht.sorted.imp fun hlt => (t.rank_lt_iff _ _).mp hlt,
    ready_eq_zero (ht.bound hinv.bound) (t.pollRound_drained pollTask calls), fun i => ?_,
    fun i hd => ht.state_of_not_finished hd, ht.frame.1, ht.frame.2⟩
  · simp [hn.count, ht.mem_iff i]
  · constructor
    · rintro ⟨hb, ha⟩
      by_contra hd
      exact hb ((ht.state_of_not_finished hd).symm.trans ha)
    · intro hd
      have hp := hinv.pending i ((ht.mem_iff i).mp (finished_mem hd))
      exact ⟨by simp [hp], ht.state_of_finished (.inl hd)⟩

def threeReady : Tasks where
  state := fun i => if i.val < 3 then .Pending else .Free
  prio := fun i => if i.val = 0 then 7 else 4
  deadline := fun _ => U64_MAX
  ready := 7

theorem threeReady_inv : threeReady.Inv := ⟨by decide, by decide⟩

theorem poll_round_in_order_three :
    ∃ order, (threeReady.pollRound (fun calls _ => if calls.length = 2 then 1 else 0) []).2 = order ∧
      order.Pairwise fun i j => threeReady.prio i < threeReady.prio j ∨
        threeReady.prio i = threeReady.prio j ∧ i < j := by
  obtain ⟨order, hc, -, hs, -⟩ :=
    poll_round_in_order (fun calls _ => if calls.length = 2 then 1 else 0) threeReady []
      threeReady_inv
  exact ⟨order, hc, hs⟩

end Gale.Executor
