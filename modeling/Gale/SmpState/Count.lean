import Gale.SmpState

namespace Gale.SmpState

open Finset Lib

def State.Counted (s : State) : Prop := s.activeCpus = s.running.card

def State.Named (maxCpus : Nat) (s : State) (op : Op) : Prop :=
  (answer maxCpus s op).1 = OK →
    match op with
    | .Start id => id ∉ s.running
    | .Stop id => id ∈ s.running ∧ id ≠ 0

-- What the callers have to see to themselves: the shim refuses a call only when all
-- CPUs run, or only the first one does.
def State.Careful (maxCpus : Nat) (s : State) : Op → Prop
  | .Start id => id ∉ s.running ∨ s.running = range maxCpus
  | .Stop id => (id ∈ s.running ∧ id ≠ 0) ∨ s.running = {0}

structure Boots (maxCpus : Nat) (s : State) : Prop where
  zero : 0 ∈ s.running
  bounded : ∀ id ∈ s.running, id ≠ 0 → id < maxCpus

variable {maxCpus : Nat} {s next : State} {op : Op}

theorem step_cases (hs : step maxCpus s op = some next) : op.id < maxCpus ∧ ((answer maxCpus s op).1 ≠ OK ∧ next = s ∨
        (∃ id, op = .Start id ∧ (answer maxCpus s op).1 = OK ∧ s.activeCpus < maxCpus ∧
          next = ⟨s.activeCpus + 1, insert id s.running⟩) ∨
        ∃ id, op = .Stop id ∧ (answer maxCpus s op).1 = OK ∧ 1 < s.activeCpus ∧
          next = ⟨s.activeCpus - 1, s.running.erase id⟩) := by
  obtain ⟨hid, hn⟩ := Option.ite_none_right_eq_some.mp hs
  refine ⟨hid, ?_⟩
  cases op with
  | Start id =>
    rw [answer_start] at hn ⊢
    by_cases hl : s.activeCpus < maxCpus
    · rw [if_pos hl] at hn ⊢
      exact .inr (.inl ⟨id, rfl, rfl, hl, by simpa using hn.symm⟩)
    · rw [if_neg hl] at hn ⊢
      exact .inl ⟨by simp [OK, EBUSY], by simpa [OK, EBUSY] using hn.symm⟩
  | Stop id =>
    rw [answer_stop] at hn ⊢
    by_cases hm : s.activeCpus > 1
    · rw [if_pos hm] at hn ⊢
      exact .inr (.inr ⟨id, rfl, rfl, hm, by simpa using hn.symm⟩)
    · rw [if_neg hm] at hn ⊢
      exact .inl ⟨by simp [OK, EINVAL], by simpa [OK, EINVAL] using hn.symm⟩

theorem init_boots (maxCpus : Nat) : Boots maxCpus init where
  zero := mem_singleton_self 0
  bounded := by
    intro id hid hne
    exact absurd (mem_singleton.mp hid) hne

theorem Boots.step (h : Boots maxCpus s) (hn : s.Named maxCpus op)
    (hs : step maxCpus s op = some next) : Boots maxCpus next := by
  obtain ⟨hid, ⟨-, rfl⟩ | ⟨id, rfl, -, -, rfl⟩ | ⟨id, rfl, hok, -, rfl⟩⟩ := step_cases hs
  · exact h
  · refine ⟨mem_insert_of_mem h.zero, ?_⟩
    intro o ho hne
    rcases mem_insert.mp ho with rfl | hol
    · exact hid
    · exact h.bounded o hol hne
  · refine ⟨mem_erase.mpr ⟨(hn hok).2.symm, h.zero⟩, ?_⟩
    intro o ho hne
    exact h.bounded o (mem_of_mem_erase ho) hne

theorem counted_step (h : s.Counted) (hn : s.Named maxCpus op)
    (hs : step maxCpus s op = some next) : next.Counted := by
  obtain ⟨-, ⟨-, rfl⟩ | ⟨id, rfl, hok, -, rfl⟩ | ⟨id, rfl, hok, -, rfl⟩⟩ := step_cases hs
  · exact h
  · rw [State.Counted, card_insert_of_notMem (hn hok), h]
  · rw [State.Counted, card_erase_of_mem (hn hok).1, h]

theorem named_iff_careful (hb : Boots maxCpus s) (hc : s.Counted)
    (hid : op.id < maxCpus) : s.Named maxCpus op ↔ s.Careful maxCpus op := by
  have hs : s.running ⊆ range maxCpus := by
    intro id hmm
    rw [mem_range]
    by_cases hz : id = 0
    · omega
    · exact hb.bounded id hmm hz
  cases op with
  | Start id =>
    simp only [State.Named, State.Careful, answer_start]
    split
    · next hls =>
        have hne : s.running ≠ range maxCpus := by
          intro heq
          rw [State.Counted, heq, card_range] at hc
          omega
        simp [hne]
    · next hf =>
        have heq : s.running = range maxCpus := by
          refine eq_of_subset_of_card_le hs ?_
          rw [card_range, ← hc]
          omega
        simp [heq, OK, EBUSY]
  | Stop id =>
    simp only [State.Named, State.Careful, answer_stop]
    split
    · next hm =>
        have hne : s.running ≠ {0} := by
          intro heq
          rw [State.Counted, heq, card_singleton] at hc
          omega
        simp [hne]
    · next hl =>
        have heq : s.running = {0} := by
          refine (eq_of_subset_of_card_le (singleton_subset_iff.mpr hb.zero) ?_).symm
          rw [card_singleton, ← hc]
          omega
        simp [heq, OK, EINVAL]

theorem active_cpus_tracked_iff (maxCpus : Nat) (ops : List Op) :
    Throughout (step maxCpus) State.Counted init ops ∧
        Along (step maxCpus) (State.Named maxCpus) init ops ↔
      Along (step maxCpus) (State.Careful maxCpus) init ops := by
  constructor
  · rintro ⟨-, hn⟩
    have hg : Throughout (step maxCpus) (fun s => Boots maxCpus s ∧ s.Counted) init ops :=
      throughout_of_along
        (fun _ _ _ h hn hst => ⟨h.1.step hn hst, counted_step h.2 hn hst⟩)
        ⟨init_boots maxCpus, rfl⟩ hn
    refine hn.of_throughout ?_ hg
    intro s op next hs hst hop
    exact (named_iff_careful hs.1 hs.2 (step_cases hst).1).mp hop
  · intro hc
    have hn : ∀ s op next, Boots maxCpus s ∧ s.Counted → step maxCpus s op = some next →
        s.Careful maxCpus op → s.Named maxCpus op := by
      intro s op next hs hst hop
      exact (named_iff_careful hs.1 hs.2 (step_cases hst).1).mpr hop
    have hg : Throughout (step maxCpus) (fun s => Boots maxCpus s ∧ s.Counted) init ops := by
      refine throughout_of_along ?_ ⟨init_boots maxCpus, rfl⟩ hc
      intro s op next hs hop hst
      have hop := hn s op next hs hst hop
      exact ⟨hs.1.step hop hst, counted_step hs.2 hop hst⟩
    exact ⟨hg.mono fun _ h => h.2, hc.of_throughout hn hg⟩

-- CPU 1 is started twice and then the first CPU is stopped: the shim has counted two
-- CPUs, and only CPU 1 is left.
theorem active_cpus_without_names :
    run (step 4) init [.Start 1, .Start 1, .Stop 0] = some ⟨2, {1}⟩ := by decide

end Gale.SmpState
