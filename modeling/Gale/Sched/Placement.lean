import Gale.Sched.Cpu

namespace Gale.Sched

open Lib

def Outranks (candidate current : Thread) (swapOk : Bool) : Prop :=
  candidate.priority < current.priority ∨ (candidate.priority = current.priority ∧ swapOk = true)

theorem outranks_iff (candidate current : Thread) (ok : Bool) : Outranks candidate current ok ↔
      ¬ ((current.priority : Int) - (candidate.priority : Int) < 0 ∨
        ((current.priority : Int) - (candidate.priority : Int) = 0 ∧ (!ok) = true)) := by
  simp only [Outranks, Fin.lt_def, Fin.ext_iff]
  cases ok <;> simp <;> omega

theorem contest_metairq {candidate current : Thread} {ok cooperative : Bool}
    (hm : candidate.isMetairq = true) (ho : Outranks candidate current ok) :
    contest candidate current ok true cooperative = candidate := by
  have hp : shouldPreempt cooperative true ok = true := by
    cases ok <;> cases cooperative <;> rfl
  rw [outranks_iff] at ho
  simp only [contest, if_true, if_neg ho, hm, hp]
  rfl

theorem outranks_of_contest_ne {candidate current : Thread} {swapOk : Bool} (cooperative : Bool)
    (h : contest candidate current swapOk true cooperative ≠ current) :
    Outranks candidate current swapOk := by
  rw [outranks_iff]
  intro hk
  apply h
  simp only [contest, if_true, if_pos hk, ite_self]

theorem of_contest_ne {candidate current : Thread} {ok active cooperative : Bool}
    (h : contest candidate current ok active cooperative ≠ candidate) :
    active = true ∧ (current.priority ≤ candidate.priority ∨
      cooperative = true ∧ ok = false ∧ candidate.isMetairq = false) := by
  cases active with
  | false => exact absurd rfl h
  | true =>
    refine ⟨rfl, ?_⟩
    by_cases ho : Outranks candidate current ok
    · right
      simp only [contest, if_true, if_neg ((outranks_iff _ _ _).mp ho)] at h
      revert h
      cases cooperative <;> cases ok <;> cases candidate.isMetairq <;> simp [shouldPreempt]
    · left
      exact not_lt.mp fun hlt => ho (.inl hlt)

namespace Cpu

-- No thread is both queued and recorded as preempted by a MetaIRQ, and none
-- occurs twice among the run queue and current.
def SinglePlacement (s : Cpu) : Prop :=
  (∀ m, s.sched.metairqPreempted = some m → m.id ∉ s.runq.ids) ∧ (s.current.id :: s.runq.ids).Nodup

def MetairqPreempts (numCoop : Nat) (s : Cpu) : Prop :=
  s.active = true ∧ s.current.isMetairq = false ∧ s.cooperative numCoop = true ∧
    s.current.id ≠ s.sched.idleThread.id ∧ s.candidate.isMetairq = true ∧
    Outranks s.candidate s.current s.sched.swapOk

def KeepsPlacement (numCoop : Nat) (s : Cpu) : Op → Prop
  | .Reschedule => ¬ s.MetairqPreempts numCoop
  | .Wake id _ => ∀ m, s.sched.metairqPreempted = some m → m.id ≠ id
  | .Block | .Yield => True

-- As long as the steps keep placement, only a thread that blocked before the
-- MetaIRQ came, or the idle thread, is recorded.
def Parked (s : Cpu) : Prop :=
  ∀ m, s.sched.metairqPreempted = some m → m.id ∈ s.blockedIds ∨ m.id = s.sched.idleThread.id

variable {s next : Cpu} {nc : Nat}

theorem Inv.singlePlacement (h : s.Inv) (hp : s.Parked) : s.SinglePlacement := by
  refine ⟨fun m hm hq => ?_, List.nodup_cons.mpr ⟨h.current_runq, h.runq_nodup⟩⟩
  rcases hp m hm with hb | hi
  · exact h.runq_blocked _ hq hb
  · exact h.idle_runq (hi ▸ hq)

theorem Inv.parked_reschedule (h : s.Inv) (hpr : s.Parked)
    (hk : ¬ s.MetairqPreempts nc) (hs : s.reschedule nc = some next) :
    next.Parked := by
  obtain ⟨pre, hp, hc⟩ := reschedule_cases h hs
  have hpk : ∀ m, pre = some m → m.id ∈ s.blockedIds ∨ m.id = s.sched.idleThread.id := by
    rcases hp with rfl | rfl
    · exact hpr
    · simp
  rcases hc with ⟨_, rfl⟩ | ⟨hne, runq, _, rfl⟩
  · exact hpk
  · obtain ⟨_, hbm⟩ := h.switchedOut_ids
    intro m hm
    simp only [updateMetairqPreempt_idle]
    have hm' : (updateMetairqPreempt (s.chosen nc) s.current (s.cooperative nc)
        { s.sched with metairqPreempted := pre }).metairqPreempted = some m := hm
    unfold updateMetairqPreempt at hm'
    split_ifs at hm' with hr
    · cases hm'
      simp only [Bool.and_eq_true, Bool.not_eq_true'] at hr
      cases ha : s.active with
      | false => exact .inl ((hbm _).mpr (.inr ⟨ha, rfl⟩))
      | true =>
        by_contra hn
        have hcn := chosen_of_ne hne
        refine hk ⟨ha, hr.1.2, hr.2, fun heq => hn (.inr heq), ?_, ?_⟩
        · rw [← hcn]
          exact hr.1.1
        · apply outranks_of_contest_ne (s.cooperative nc)
          rw [← ha]
          exact fun heq => hne (congrArg Thread.id heq)
    · exact (hpk m hm').imp_left fun hb => (hbm _).mpr (.inl hb)

theorem Inv.reschedule_breaks (h : s.Inv) (hpk : s.Parked)
    (hpr : s.MetairqPreempts nc) (hs : s.reschedule nc = some next) :
    ¬ next.SinglePlacement := by
  obtain ⟨ha, hc, hcp, hid, hmt, ho⟩ := hpr
  have hch : s.chosen nc = s.candidate := by
    unfold chosen
    rw [ha]
    exact contest_metairq hmt ho
  have hne : (s.chosen nc).id ≠ s.current.id := by
    rw [hch]
    intro heq
    rcases s.candidate_cases with hmm | hmm
    · exact h.current_runq (heq ▸ List.mem_map_of_mem hmm)
    · exact hid (heq ▸ congrArg Thread.id hmm)
  obtain ⟨pre, hp, ⟨hst, _⟩ | ⟨_, runq, hr, rfl⟩⟩ := reschedule_cases h hs
  · exact absurd hst hne
  · have hot : pre.any (fun m => decide (s.current.id = m.id)) = false := by
      rcases hp with rfl | rfl
      · cases hm : s.sched.metairqPreempted with
        | none => rfl
        | some m =>
          rw [Option.any_some, decide_eq_false_iff_not]
          intro heq
          rcases hpk m hm with hb | hi
          · exact h.current_blocked (heq ▸ hb)
          · exact hid (heq.trans hi)
      · rfl
    have hrq : s.requeues pre = true := by
      simp [requeues, ha, hid, hot]
    obtain ⟨hn, hmm⟩ := h.requeue_ids hr
    rintro ⟨hsn, _⟩
    refine hsn s.current ?_ ?_
    · show (updateMetairqPreempt _ _ _ _).metairqPreempted = _
      simp [updateMetairqPreempt, hch, hmt, hc, hcp]
    · exact (RunQueue.mem_ids_remove hn).mpr ⟨hne.symm, (hmm _).mpr (.inr ⟨hrq, rfl⟩)⟩

theorem Parked.wake {id : Tid} {ret : Int} (hp : s.Parked) (hk : ∀ m, s.sched.metairqPreempted = some m → m.id ≠ id)
    (hs : s.wake id ret = some next) : next.Parked := by
  obtain ⟨t, ht, rfl, runq, hr, rfl⟩ := wake_cases hs
  intro m hm
  refine (hp m hm).imp_left fun hb => ?_
  unfold blockedIds
  rw [map_id_eraseP]
  exact (List.mem_erase_of_ne (hk m hm)).mpr hb

theorem wake_breaks {m : Thread} {ret : Int} (hm : s.sched.metairqPreempted = some m)
    (hs : s.wake m.id ret = some next) :
    ¬ next.SinglePlacement := by
  obtain ⟨t, ht, hid, runq, hr, rfl⟩ := wake_cases hs
  rintro ⟨hsn, _⟩
  exact hsn m hm ((RunQueue.mem_ids_add hr).mpr (.inl hid.symm))

theorem singlePlacement_along (h : s.Inv) (hp : s.Parked) (ops : List Op) :
    Throughout (Cpu.step nc) SinglePlacement s ops ↔
      Along (Cpu.step nc) (fun s op => s.KeepsPlacement nc op) s ops := by
  refine throughout_iff_along (fun s => s.Inv ∧ s.Parked) (fun s h => h.1.singlePlacement h.2)
    ?_ ?_ ⟨h, hp⟩ ops
  · rintro s op next ⟨hi, hp⟩ hk hs
    refine ⟨hi.step hs, ?_⟩
    cases op with
    | Reschedule => exact hi.parked_reschedule hp hk hs
    | Wake id ret => exact hp.wake hk hs
    | Block =>
      obtain ⟨_, _, rfl⟩ := block_cases hs
      exact hp
    | Yield =>
      cases hs
      exact hp
  · rintro s op next ⟨hi, hp⟩ hb hs
    cases op with
    | Reschedule => exact hi.reschedule_breaks hp (not_not.mp hb) hs
    | Wake id ret =>
      simp only [KeepsPlacement, not_forall, not_not] at hb
      obtain ⟨m, hm, rfl⟩ := hb
      exact wake_breaks hm hs
    | Block | Yield => exact absurd trivial hb

end Cpu

theorem singlePlacement_iff (numCoop : Nat) (b : Boot) (ops : List Op) :
    Throughout (Cpu.step numCoop) Cpu.SinglePlacement b.init ops ↔
      Along (Cpu.step numCoop) (fun s op => s.KeepsPlacement numCoop op) b.init ops := by
  apply Cpu.singlePlacement_along (Cpu.inv_init b)
  intro m hm
  cases hm

-- Thread 1 runs cooperatively when the MetaIRQ thread 2 becomes ready: the
-- reschedule both queues thread 1 and records it.
def metairqBoot : Boot where
  idle := Thread.new 0 31
  threads := [Thread.new 1 5, { Thread.new 2 0 with isMetairq := true }, Thread.new 3 3]
  nodup := by decide

theorem singlePlacement_fails : ¬ ∀ (numCoop : Nat) (b : Boot) (ops : List Op),
      Throughout (Cpu.step numCoop) Cpu.SinglePlacement b.init ops := by
  intro h
  have hr := h 10 metairqBoot [.Wake 1 0, .Reschedule, .Wake 2 0, .Reschedule]
  obtain ⟨hs, _⟩ := hr.last rfl
  exact absurd (hs _ rfl) (by decide)

namespace Cpu

-- Nobody in the queue is more urgent than the thread that runs next, or a cooperative thread
-- that has not yielded stays and the best one is no MetaIRQ.
def RunsMostUrgent (numCoop : Nat) (s next : Cpu) : Prop :=
  (∀ t ∈ next.runq.entries, next.current.priority ≤ t.priority) ∨ next.current = s.current ∧
    s.active = true ∧ s.cooperative numCoop = true ∧ s.sched.swapOk = false ∧ s.candidate.isMetairq = false

theorem runs_most_urgent {nc : Nat} {s next : Cpu} (b : Boot) {ops : List Op}
    (hrun : run (step nc) b.init ops = some s) (hs : s.step nc .Reschedule = some next) :
    s.RunsMostUrgent nc next := by
  have h : s.Inv := (throughout_of_step (fun _ _ _ h hs => h.step hs) (inv_init b) ops).last hrun
  obtain ⟨pre, -, ⟨hst, rfl⟩ | ⟨hne, runq, hrq, rfl⟩⟩ := reschedule_cases h hs
  · by_cases hc : s.chosen nc = s.candidate
    · refine .inl fun t ht => absurd ?_ h.current_runq
      rw [← hst, hc]
      exact List.mem_map_of_mem (candidate_best ht).1
    · obtain ⟨ha, hle | hk⟩ := of_contest_ne hc
      · exact .inl fun t ht => hle.trans (candidate_best ht).2
      · exact .inr ⟨rfl, ha, hk⟩
  · refine .inl fun t ht => ?_
    have hm : t ∈ runq.entries := List.mem_of_mem_eraseP ht
    show (s.chosen nc).priority ≤ t.priority
    rw [chosen_of_ne hne]
    split at hrq
    next hre =>
      rcases List.mem_cons.mp ((RunQueue.add_perm hrq).mem_iff.mp hm) with rfl | hm
      · -- the thread that was preempted is back in the queue
        have ha : s.active = true := by
          simp only [requeues, Bool.and_eq_true] at hre
          exact hre.1.1
        have hn : s.chosen nc ≠ s.current := fun heq => hne (congrArg Thread.id heq)
        rw [chosen, ha] at hn
        exact (outranks_of_contest_ne _ hn).elim le_of_lt fun heq => heq.1.le
      · exact (candidate_best hm).2
    next =>
      cases hrq
      exact (candidate_best hm).2

theorem woken_runs : ∃ s next, run (step 0) metairqBoot.init [.Wake 1 0, .Wake 3 0] = some s ∧
    s.step 0 .Reschedule = some next ∧ next.current.id = 3 ∧ s.RunsMostUrgent 0 next := by
  have hr : run (step 0) metairqBoot.init [.Wake 1 0, .Wake 3 0] = some _ := rfl
  exact ⟨_, _, hr, rfl, rfl, runs_most_urgent metairqBoot hr rfl⟩

end Cpu

end Gale.Sched
