import Gale.Sched.Placement

namespace Gale.Sched

open Lib

def Classified (numMetairq : Nat) (t : Thread) : Prop :=
  t.isMetairq = true ↔ t.priority.val < numMetairq

instance (numMetairq : Nat) (t : Thread) : Decidable (Classified numMetairq t) :=
  inferInstanceAs (Decidable (_ ↔ _))

namespace Cpu

def MetairqRunnable (s : Cpu) : Prop :=
  (s.active = true ∧ s.current.isMetairq = true) ∨ ∃ t ∈ s.runq.entries, t.isMetairq = true

instance (s : Cpu) : Decidable s.MetairqRunnable := inferInstanceAs (Decidable (_ ∨ _))

structure AllClassified (numMetairq : Nat) (s : Cpu) : Prop where
  current : Classified numMetairq s.current
  idle : Classified numMetairq s.sched.idleThread
  idle_not_metairq : s.sched.idleThread.isMetairq = false
  runq : ∀ t ∈ s.runq.entries, Classified numMetairq t
  blocked : ∀ t ∈ s.blocked, Classified numMetairq t

variable {numMetairq nc : Nat} {s next : Cpu}

theorem AllClassified.candidate (h : s.AllClassified numMetairq) : Classified numMetairq s.candidate := by
  rcases s.candidate_cases with hm | hi
  · exact h.runq _ hm
  · rw [hi]
    exact h.idle

theorem AllClassified.reschedule (hi : s.Inv) (h : s.AllClassified numMetairq) (hs : s.reschedule nc = some next) :
    next.AllClassified numMetairq := by
  obtain ⟨pre, _, ⟨_, rfl⟩ | ⟨hne, runq, hr, rfl⟩⟩ := reschedule_cases hi hs
  · exact ⟨h.current, h.idle, h.idle_not_metairq, h.runq, h.blocked⟩
  · have hrn : ∀ t ∈ runq.entries, Classified numMetairq t := by
      split at hr
      · intro t ht
        rcases List.mem_cons.mp ((RunQueue.add_perm hr).mem_iff.mp ht) with rfl | ht
        · exact h.current
        · exact h.runq t ht
      · cases hr
        exact h.runq
    constructor
    · rw [chosen_of_ne hne]
      exact h.candidate
    · rw [updateMetairqPreempt_idle]
      exact h.idle
    · rw [updateMetairqPreempt_idle]
      exact h.idle_not_metairq
    · exact fun t ht => hrn t (List.mem_of_mem_eraseP ht)
    · intro t ht
      simp only [switchedOut] at ht
      split at ht
      · exact h.blocked t ht
      · rcases List.mem_cons.mp ht with rfl | ht
        · exact h.current
        · exact h.blocked t ht

theorem AllClassified.step {op : Op} (hi : s.Inv) (h : s.AllClassified numMetairq) (hs : s.step nc op = some next) :
    next.AllClassified numMetairq := by
  cases op with
  | Reschedule => exact h.reschedule hi hs
  | Wake id ret =>
    obtain ⟨t, ht, _, runq, hr, rfl⟩ := wake_cases hs
    refine ⟨h.current, h.idle, h.idle_not_metairq, fun u hu => ?_, fun u hu => h.blocked u (List.mem_of_mem_eraseP hu)⟩
    rcases List.mem_cons.mp ((RunQueue.add_perm hr).mem_iff.mp hu) with rfl | hu
    · exact h.blocked t ht
    · exact h.runq u hu
  | Block =>
    obtain ⟨_, _, rfl⟩ := block_cases hs
    exact ⟨h.current, h.idle, h.idle_not_metairq, h.runq, h.blocked⟩
  | Yield =>
    cases hs
    exact ⟨h.current, h.idle, h.idle_not_metairq, h.runq, h.blocked⟩

theorem AllClassified.best_metairq (h : s.AllClassified numMetairq) {t : Thread}
    (ht : t ∈ s.runq.entries) (hm : t.isMetairq = true) :
    s.candidate.isMetairq = true := by
  have htc := (h.runq t ht).mp hm
  exact h.candidate.mpr (lt_of_le_of_lt (candidate_best ht).2 htc)

theorem AllClassified.chosen_metairq (h : s.AllClassified numMetairq)
    (hr : s.MetairqRunnable) (nc : Nat) : (s.chosen nc).isMetairq = true := by
  cases hac : s.active with
  | false =>
    rcases hr with ⟨ha, _⟩ | ⟨t, ht, hmt⟩
    · simp [hac] at ha
    · simpa [chosen, contest, hac] using h.best_metairq ht hmt
  | true =>
    by_cases hc : s.current.isMetairq = true
    · by_cases hs : s.chosen nc = s.current
      · rw [hs]
        exact hc
      · have hcn : s.chosen nc = s.candidate :=
          (contest_eq _ _ _ _ _).resolve_right hs
        rw [chosen, hac] at hs
        have ho := outranks_of_contest_ne _ hs
        rw [hcn]
        refine h.candidate.mpr (lt_of_le_of_lt ?_ (h.current.mp hc))
        rcases ho with hlt | ⟨heq, _⟩
        · exact hlt.le
        · exact heq.le
    · rcases hr with ⟨_, hm⟩ | ⟨t, ht, hmt⟩
      · exact absurd hm hc
      · have hb := h.best_metairq ht hmt
        have ho : Outranks s.candidate s.current s.sched.swapOk := by
          left
          have := h.candidate.mp hb
          have := mt h.current.mpr hc
          omega
        rw [chosen, hac, contest_metairq hb ho]
        exact hb

theorem Inv.chosen_stays (h : s.Inv) (hs : (s.chosen nc).id = s.current.id) :
    s.chosen nc = s.current ∨ s.chosen nc = s.sched.idleThread := by
  rcases contest_eq s.candidate s.current s.sched.swapOk s.active (s.cooperative nc) with
    heq | heq
  · rcases s.candidate_cases with hm | hi
    · have hid : s.candidate.id = s.current.id := heq ▸ hs
      exact absurd (hid ▸ List.mem_map_of_mem hm) h.current_runq
    · exact .inr (heq.trans hi)
  · exact .inl heq

theorem AllClassified.reschedule_metairq (hi : s.Inv) (h : s.AllClassified numMetairq)
    (hr : s.MetairqRunnable) (hs : s.reschedule nc = some next) :
    next.current.isMetairq = true := by
  have hc := h.chosen_metairq hr nc
  obtain ⟨pre, _, ⟨hst, rfl⟩ | ⟨_, runq, _, rfl⟩⟩ := reschedule_cases hi hs
  · rcases hi.chosen_stays hst with heq | heq
    · exact heq ▸ hc
    · rw [heq, h.idle_not_metairq] at hc
      cases hc
  · exact hc

theorem run_metairq {fin : Cpu} {ops : List Op} (hi : s.Inv) (h : s.AllClassified numMetairq)
    (hc : s.current.isMetairq = true)
    (hb : Along (Cpu.step nc) (fun s op => op = .Reschedule → s.MetairqRunnable) s ops)
    (hr : run (Cpu.step nc) s ops = some fin) :
    fin.Inv ∧ fin.current.isMetairq = true := by
  suffices ht : Throughout (Cpu.step nc) (fun s => s.Inv ∧ s.AllClassified numMetairq ∧
      s.current.isMetairq = true) s ops from ⟨(ht.last hr).1, (ht.last hr).2.2⟩
  refine throughout_of_along ?_ ⟨hi, h, hc⟩ hb
  rintro s op next ⟨hi, h, hc⟩ hb hs
  refine ⟨hi.step hs, h.step hi hs, ?_⟩
  cases op with
  | Reschedule => exact h.reschedule_metairq hi (hb rfl) hs
  | Wake id ret =>
    obtain ⟨t, _, _, runq, _, rfl⟩ := wake_cases hs
    exact hc
  | Block =>
    obtain ⟨_, _, rfl⟩ := block_cases hs
    exact hc
  | Yield =>
    cases hs
    exact hc

theorem Inv.reschedule_inactive (h : s.Inv) (hi : s.active = false) (hs : s.reschedule nc = some next) :
    next.current = s.candidate.dispatch := by
  have hch : s.chosen nc = s.candidate := by
    simp [chosen, contest, hi]
  have hid : s.current.id ≠ s.sched.idleThread.id := by
    intro heq
    simp [active, h.idle_running heq] at hi
  obtain ⟨pre, _, ⟨hst, rfl⟩ | ⟨_, runq, _, rfl⟩⟩ := reschedule_cases h hs
  · rw [hch] at hst
    rcases s.candidate_cases with hm | hc
    · exact absurd (hst ▸ List.mem_map_of_mem hm) h.current_runq
    · exact absurd (hc ▸ hst).symm hid
  · rw [hch]

end Cpu

-- A MetaIRQ preempts a running cooperative thread, and last is the first
-- state after that where a reschedule finds no MetaIRQ runnable.
structure Episode (numCoop : Nat) where
  boot : Boot
  numMetairq : Nat
  before : List Op
  after : List Op
  preempted : Cpu
  started : Cpu
  last : Cpu
  next : Cpu
  classified : ∀ t ∈ boot.idle :: boot.threads, Classified numMetairq t
  idle_not_metairq : boot.idle.isMetairq = false
  run_before : run (Cpu.step numCoop) boot.init before = some preempted
  running : preempted.active = true
  cooperative : preempted.cooperative numCoop = true
  not_idle : preempted.current.id ≠ boot.idle.id
  preempts : preempted.reschedule numCoop = some started
  not_metairq : preempted.current.isMetairq = false
  metairq : started.current.isMetairq = true
  busy : Along (Cpu.step numCoop) (fun s op => op = .Reschedule → s.MetairqRunnable) started after
  run_after : run (Cpu.step numCoop) started after = some last
  idle_metairqs : ¬ last.MetairqRunnable
  reschedules : last.reschedule numCoop = some next

namespace Cpu

variable {nc : Nat} {s : Cpu}

theorem step_idleThread {next : Cpu} {op : Op} (h : s.Inv) (hs : s.step nc op = some next) :
    next.sched.idleThread = s.sched.idleThread := by
  cases op with
  | Reschedule =>
    obtain ⟨pre, _, ⟨_, rfl⟩ | ⟨_, runq, _, rfl⟩⟩ := reschedule_cases h hs
    · rfl
    · exact updateMetairqPreempt_idle _ _ _ _
  | Wake id ret =>
    obtain ⟨t, _, _, runq, _, rfl⟩ := wake_cases hs
    rfl
  | Block =>
    obtain ⟨_, _, rfl⟩ := block_cases hs
    rfl
  | Yield =>
    cases hs
    rfl

variable {fin : Cpu} {ops : List Op} {numMetairq : Nat}

theorem run_idleThread (h : s.Inv) (hr : run (Cpu.step nc) s ops = some fin) :
    fin.Inv ∧ fin.sched.idleThread = s.sched.idleThread :=
  run_invariant (fun t => t.Inv ∧ t.sched.idleThread = s.sched.idleThread) (fun _ _ => True)
    (fun _ _ _ ⟨hin, hi⟩ _ hs => ⟨hin.step hs, (step_idleThread hin hs).trans hi⟩)
    ⟨h, rfl⟩ (fun _ _ _ => trivial) hr

theorem allClassified_init {b : Boot}
    (h : ∀ t ∈ b.idle :: b.threads, Classified numMetairq t) (hi : b.idle.isMetairq = false) :
    b.init.AllClassified numMetairq := by
  refine ⟨h b.idle (by simp), h b.idle (by simp), hi, by simp [Boot.init, RunQueue.new], ?_⟩
  intro t ht
  obtain ⟨u, hu, rfl⟩ := List.mem_map.mp ht
  exact h u (List.mem_cons_of_mem _ hu)

theorem run_allClassified (hi : s.Inv) (h : s.AllClassified numMetairq) (hr : run (Cpu.step nc) s ops = some fin) :
    fin.AllClassified numMetairq :=
  (run_invariant (fun s => s.Inv ∧ s.AllClassified numMetairq) (fun _ _ => True)
    (fun _ _ _ ⟨hi, h⟩ _ hs => ⟨hi.step hs, h.step hi hs⟩) ⟨hi, h⟩
    (fun _ _ _ => trivial) hr).2

end Cpu

theorem returns_to_preempted_iff (numCoop : Nat) (e : Episode numCoop) :
    e.next.current.id = e.preempted.current.id ↔
      e.last.runq.best.map Thread.id = some e.preempted.current.id := by
  obtain ⟨hin, hil⟩ := Cpu.run_idleThread (Cpu.inv_init e.boot) e.run_before
  have hc := Cpu.run_allClassified (Cpu.inv_init e.boot)
    (Cpu.allClassified_init e.classified e.idle_not_metairq) e.run_before
  have hs := hin.reschedule e.preempts
  obtain ⟨hl, hm⟩ := Cpu.run_metairq hs (hc.reschedule hin e.preempts)
    e.metairq e.busy e.run_after
  have hid : e.last.sched.idleThread = e.boot.idle :=
    ((Cpu.run_idleThread hs e.run_after).2.trans
      (Cpu.step_idleThread hin (show e.preempted.step numCoop .Reschedule = _ from
        e.preempts))).trans hil
  have hi : e.last.active = false :=
    Bool.eq_false_iff.mpr fun ha => e.idle_metairqs (.inl ⟨ha, hm⟩)
  rw [hl.reschedule_inactive hi e.reschedules]
  show e.last.candidate.id = _ ↔ _
  unfold Cpu.candidate
  cases e.last.runq.best with
  | none => simpa [hid] using e.not_idle.symm
  | some t => simp

-- Thread 3, more urgent than the preempted thread 1, is woken while the
-- MetaIRQ runs and is selected when it blocks.
theorem returns_to_preempted_fails :
    ¬ ∀ (numCoop : Nat) (e : Episode numCoop), e.next.current.id = e.preempted.current.id := by
  intro h
  have hr := h 10 {
    boot := metairqBoot
    numMetairq := 1
    before := [.Wake 1 0, .Reschedule, .Wake 2 0]
    after := [.Wake 3 0, .Block]
    preempted := _
    started := _
    last := _
    next := _
    classified := by decide
    idle_not_metairq := rfl
    run_before := rfl
    running := rfl
    cooperative := rfl
    not_idle := by decide
    preempts := rfl
    not_metairq := rfl
    metairq := rfl
    busy := fun _ _ => ⟨nofun, fun _ _ => ⟨nofun, trivial⟩⟩
    run_after := rfl
    idle_metairqs := by decide
    reschedules := rfl }
  exact absurd hr (by decide)

end Gale.Sched
