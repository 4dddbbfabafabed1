import Gale.Sched
import Gale.Lib.Run

namespace Gale.Sched

theorem map_id_eraseP (threads : List Thread) (id : Tid) :
    (threads.eraseP fun t => t.id = id).map Thread.id = (threads.map Thread.id).erase id := by
  induction threads with
  | nil => rfl
  | cons t rest ih =>
    by_cases h : t.id = id
    · simp [h]
    · simp [h, ih]

namespace RunQueue

def ids (q : RunQueue) : List Tid := q.entries.map Thread.id

variable {q q' : RunQueue} {t : Thread}

theorem add_perm (h : q.add t = some q') : q'.entries.Perm (t :: q.entries) := by
  unfold add at h
  split at h
  · cases h
    exact insertThread_perm t q.entries
  · cases h

theorem mem_ids_add (h : q.add t = some q') {id : Tid} : id ∈ q'.ids ↔ id = t.id ∨ id ∈ q.ids := by
  rw [ids, ((add_perm h).map Thread.id).mem_iff]
  simp [ids]

theorem nodup_ids_add (h : q.add t = some q') (hnw : t.id ∉ q.ids) (hn : q.ids.Nodup) : q'.ids.Nodup := by
  rw [ids, ((add_perm h).map Thread.id).nodup_iff, List.map_cons, List.nodup_cons]
  exact ⟨hnw, hn⟩

theorem ids_remove (q : RunQueue) (id : Tid) : (q.remove id).ids = q.ids.erase id :=
  map_id_eraseP q.entries id

theorem mem_ids_remove (hn : q.ids.Nodup) {id gone : Tid} : id ∈ (q.remove gone).ids ↔ id ≠ gone ∧ id ∈ q.ids := by
  rw [ids_remove, hn.mem_erase_iff]

theorem nodup_ids_remove (hn : q.ids.Nodup) (gone : Tid) : (q.remove gone).ids.Nodup := by
  rw [ids_remove]
  exact hn.erase gone

theorem remove_of_notMem {id : Tid} (h : id ∉ q.ids) : q.remove id = q := by
  obtain ⟨es, hl, hs⟩ := q
  simp only [remove, mk.injEq]
  apply List.eraseP_of_forall_not
  intro t ht
  simp only [decide_eq_true_eq]
  rintro rfl
  exact h (List.mem_map_of_mem ht)

theorem isQueued_eq_true {id : Tid} : q.isQueued id = true ↔ id ∈ q.ids := by
  simp [isQueued, ids]

theorem best_mem (h : q.best = some t) : t ∈ q.entries := List.mem_of_mem_head? (by rw [Option.mem_def]; exact h)

end RunQueue

-- One CPU with the threads that run on it: blocked holds those that have been
-- switched out after blocking.
structure Cpu where
  runq : RunQueue
  current : Thread
  sched : CpuSchedState
  blocked : List Thread

structure Boot where
  idle : Thread
  threads : List Thread
  nodup : ((idle :: threads).map Thread.id).Nodup

def Boot.init (b : Boot) : Cpu where
  runq := RunQueue.new
  current := b.idle.dispatch
  sched := CpuSchedState.new b.idle
  blocked := b.threads.map Thread.block

inductive Op where
  | Reschedule
  | Wake (id : Tid) (returnValue : Int)
  | Block
  | Yield

namespace Cpu

def active (s : Cpu) : Bool := s.current.state = .Running

def choiceThread (s : Cpu) : SchedChoice → Thread
  | .Thread thread => thread
  | .Idle => s.sched.idleThread

def switchedOut (s : Cpu) : List Thread := if s.active then s.blocked else s.current :: s.blocked

-- next_up and the switch to its choice. A thread is cooperative if its
-- priority is one of the numCoop most urgent ones. RunQueue::add requires
-- room, so there is no step when current has to be queued and there is none.
def reschedule (numCoop : Nat) (s : Cpu) : Option Cpu :=
  let cooperative : Bool := s.current.priority.val < numCoop
  let (outcome, sched) := nextUpSmp s.runq.best s.current s.sched s.active
    (s.runq.isQueued s.current.id) cooperative
  let chosen := s.choiceThread outcome.choice
  let runq := if outcome.requeueCurrent then s.runq.add { s.current with state := .Ready }
    else some s.runq
  runq.map fun runq =>
    if chosen.id = s.current.id then { s with runq := runq.remove chosen.id, sched := sched }
    else
      { runq := runq.remove chosen.id
        current := chosen.dispatch
        sched := sched
        blocked := s.switchedOut }

def wake (s : Cpu) (id : Tid) (returnValue : Int) : Option Cpu :=
  match s.blocked.find? fun t => t.id = id with
  | some t => (s.runq.add (t.wake returnValue)).map fun runq =>
    { s with runq := runq, blocked := s.blocked.eraseP fun t => t.id = id }
  | none => none

def block (s : Cpu) : Option Cpu :=
  if s.active ∧ s.current.id ≠ s.sched.idleThread.id then
    some { s with current := s.current.block }
  else none

def yield (s : Cpu) : Cpu := { s with sched := { s.sched with swapOk := true } }

def step (numCoop : Nat) (s : Cpu) : Op → Option Cpu
  | .Reschedule => s.reschedule numCoop
  | .Wake id returnValue => s.wake id returnValue
  | .Block => s.block
  | .Yield => some s.yield

def blockedIds (s : Cpu) : List Tid := s.blocked.map Thread.id

-- What every step keeps: each thread is in one place, and a snapshot taken of
-- the current thread is never Ready.
structure Inv (s : Cpu) : Prop where
  runq_nodup : s.runq.ids.Nodup
  blocked_nodup : s.blockedIds.Nodup
  runq_blocked : ∀ id ∈ s.runq.ids, id ∉ s.blockedIds
  current_runq : s.current.id ∉ s.runq.ids
  current_blocked : s.current.id ∉ s.blockedIds
  idle_runq : s.sched.idleThread.id ∉ s.runq.ids
  idle_blocked : s.sched.idleThread.id ∉ s.blockedIds
  current_state : s.current.state = .Running ∨ s.current.state = .Blocked
  idle_running : s.current.id = s.sched.idleThread.id → s.current.state = .Running
  preempted_state : ∀ m, s.sched.metairqPreempted = some m → m.state ≠ .Ready

theorem inv_init (b : Boot) : b.init.Inv := by
  have hn := b.nodup
  have hb : b.init.blockedIds = b.threads.map Thread.id := by
    simp [blockedIds, Boot.init, Thread.block]
  constructor <;> simp_all [Boot.init, RunQueue.ids, RunQueue.new, Thread.dispatch, CpuSchedState.new]

def candidate (s : Cpu) : Thread := s.runq.best.getD s.sched.idleThread

def cooperative (numCoop : Nat) (s : Cpu) : Bool := s.current.priority.val < numCoop

def chosen (numCoop : Nat) (s : Cpu) : Thread :=
  contest s.candidate s.current s.sched.swapOk s.active (s.cooperative numCoop)

def requeues (s : Cpu) (preempted : Option Thread) : Bool :=
  s.active && !(s.current.id = s.sched.idleThread.id) &&
    !(preempted.any fun m => s.current.id = m.id)

end Cpu

theorem resumePreempted_of_not_ready {cpu : CpuSchedState} (runqBest : Option Thread)
    (h : ∀ m, cpu.metairqPreempted = some m → m.state ≠ .Ready) :
    ∃ pre, (pre = cpu.metairqPreempted ∨ pre = none) ∧
      resumePreempted runqBest cpu = (runqBest, { cpu with metairqPreempted := pre }) := by
  unfold resumePreempted
  split
  · next mirqp hm =>
      simp only [if_neg (h mirqp hm)]
      split_ifs
      · exact ⟨none, .inr rfl, rfl⟩
      · exact ⟨cpu.metairqPreempted, .inl rfl, rfl⟩
  · exact ⟨cpu.metairqPreempted, .inl rfl, rfl⟩

theorem contest_eq (candidate current : Thread) (ok active cooperative : Bool) :
    contest candidate current ok active cooperative = candidate ∨
      contest candidate current ok active cooperative = current := by
  unfold contest
  dsimp only
  split_ifs <;> simp

theorem updateMetairqPreempt_idle (newThread current : Thread) (cooperative : Bool) (cpu : CpuSchedState) :
    (updateMetairqPreempt newThread current cooperative cpu).idleThread = cpu.idleThread := by
  unfold updateMetairqPreempt
  split_ifs <;> rfl

namespace Cpu

variable {numCoop : Nat} {s next : Cpu}

theorem reschedule_cases (h : s.Inv) (hs : s.reschedule numCoop = some next) :
    ∃ pre, (pre = s.sched.metairqPreempted ∨ pre = none) ∧ (((s.chosen numCoop).id = s.current.id ∧
          next = { s with sched := ⟨pre, false, s.sched.idleThread⟩ }) ∨
        ((s.chosen numCoop).id ≠ s.current.id ∧ ∃ runq,
          (if s.requeues pre then s.runq.add { s.current with state := .Ready }
            else some s.runq) = some runq ∧
          next = {
            runq := runq.remove (s.chosen numCoop).id
            current := (s.chosen numCoop).dispatch
            sched := { updateMetairqPreempt (s.chosen numCoop) s.current (s.cooperative numCoop)
              { s.sched with metairqPreempted := pre } with swapOk := false }
            blocked := s.switchedOut })) := by
  obtain ⟨pre, hp, hr⟩ :=
    resumePreempted_of_not_ready s.runq.best h.preempted_state
  have hq : s.runq.isQueued s.current.id = false :=
    Bool.eq_false_iff.mpr (mt RunQueue.isQueued_eq_true.mp h.current_runq)
  have hc : contest (s.runq.best.getD s.sched.idleThread) s.current s.sched.swapOk s.active
      (s.current.priority.val < numCoop) = s.chosen numCoop := rfl
  refine ⟨pre, hp, ?_⟩
  simp only [reschedule, nextUpSmp, hr, hq, hc, choiceThread] at hs
  by_cases hst : (s.chosen numCoop).id = s.current.id
  · simp only [hst, ne_eq, not_true_eq_false, decide_false, Bool.false_and, Bool.false_eq_true,
      if_false, if_true, Option.map_some, Option.some.injEq,
      RunQueue.remove_of_notMem h.current_runq] at hs
    exact .inl ⟨hst, hs.symm⟩
  · simp only [hst, ne_eq, not_false_eq_true, decide_true, Bool.true_and, Bool.not_false,
      Bool.and_true, if_true, if_false] at hs
    obtain ⟨runq, hrn, hn⟩ := Option.map_eq_some_iff.mp hs
    exact .inr ⟨hst, runq, hrn, hn.symm⟩

theorem wake_cases {id : Tid} {ret : Int} (hs : s.wake id ret = some next) :
    ∃ t ∈ s.blocked, t.id = id ∧ ∃ runq, s.runq.add (t.wake ret) = some runq ∧
      next = { s with runq := runq, blocked := s.blocked.eraseP fun t => t.id = id } := by
  unfold wake at hs
  split at hs
  · next t ht =>
      obtain ⟨runq, hr, hn⟩ := Option.map_eq_some_iff.mp hs
      have hid := List.find?_some ht
      exact ⟨t, List.mem_of_find?_eq_some ht, by simpa using hid, runq, hr, hn.symm⟩
  · cases hs

theorem block_cases (hs : s.block = some next) : s.active = true ∧ s.current.id ≠ s.sched.idleThread.id ∧
      next = { s with current := s.current.block } := by
  unfold block at hs
  split at hs
  · next h =>
      cases hs
      exact ⟨h.1, h.2, rfl⟩
  · cases hs

theorem chosen_of_ne (h : (s.chosen numCoop).id ≠ s.current.id) : s.chosen numCoop = s.candidate := by
  rcases contest_eq s.candidate s.current s.sched.swapOk s.active (s.cooperative numCoop) with
    heq | heq
  · exact heq
  · exact absurd (congrArg Thread.id heq) h

theorem candidate_cases (s : Cpu) : s.candidate ∈ s.runq.entries ∨ s.candidate = s.sched.idleThread := by
  unfold candidate
  cases hb : s.runq.best with
  | none => exact .inr rfl
  | some t => exact .inl (RunQueue.best_mem hb)

theorem candidate_best {t : Thread} (ht : t ∈ s.runq.entries) :
    s.candidate ∈ s.runq.entries ∧ s.candidate.priority ≤ t.priority := by
  have hs := s.runq.sorted
  unfold candidate RunQueue.best
  cases he : s.runq.entries with
  | nil => simp [he] at ht
  | cons first rest =>
    rw [he] at ht hs
    refine ⟨List.mem_cons_self, ?_⟩
    rcases List.mem_cons.mp ht with rfl | hm
    · exact le_rfl
    · exact (List.pairwise_cons.mp hs).1 t hm

theorem Inv.chosen_ids (h : s.Inv) (hne : (s.chosen numCoop).id ≠ s.current.id) :
    (s.chosen numCoop).id ∉ s.blockedIds := by
  rw [chosen_of_ne hne]
  rcases s.candidate_cases with hm | hi
  · exact h.runq_blocked _ (List.mem_map_of_mem hm)
  · rw [hi]
    exact h.idle_blocked

theorem Inv.requeue_ids (h : s.Inv) {pre : Option Thread} {runq : RunQueue}
    (hr : (if s.requeues pre then s.runq.add { s.current with state := .Ready }
      else some s.runq) = some runq) :
    runq.ids.Nodup ∧ ∀ id, id ∈ runq.ids ↔ id ∈ s.runq.ids ∨ (s.requeues pre = true ∧ id = s.current.id) := by
  split at hr
  · next hre =>
      refine ⟨RunQueue.nodup_ids_add hr h.current_runq h.runq_nodup, fun id => ?_⟩
      rw [RunQueue.mem_ids_add hr]
      simp [hre, or_comm]
  · next hre =>
      cases hr
      exact ⟨h.runq_nodup, fun id => by simp [hre]⟩

theorem Inv.switchedOut_ids (h : s.Inv) : (s.switchedOut.map Thread.id).Nodup ∧
      ∀ id, id ∈ s.switchedOut.map Thread.id ↔ id ∈ s.blockedIds ∨ (s.active = false ∧ id = s.current.id) := by
  unfold switchedOut
  cases s.active
  · exact ⟨List.nodup_cons.mpr ⟨h.current_blocked, h.blocked_nodup⟩, fun id => by simp [blockedIds, or_comm]⟩
  · exact ⟨h.blocked_nodup, fun id => by simp [blockedIds]⟩

theorem Inv.updateMetairqPreempt_state (h : s.Inv) {pre : Option Thread}
    (hp : pre = s.sched.metairqPreempted ∨ pre = none) (newThread : Thread)
    (cooperative : Bool) (m : Thread) (hm : (updateMetairqPreempt newThread s.current cooperative
      { s.sched with metairqPreempted := pre }).metairqPreempted = some m) :
    m.state ≠ .Ready := by
  unfold updateMetairqPreempt at hm
  split_ifs at hm
  · cases hm
    rcases h.current_state with hs | hs <;> simp [hs]
  · rcases hp with rfl | rfl
    · exact h.preempted_state m hm
    · cases hm

theorem Inv.reschedule (h : s.Inv) (hs : s.reschedule numCoop = some next) : next.Inv := by
  obtain ⟨pre, hp, hc⟩ := reschedule_cases h hs
  rcases hc with ⟨_, rfl⟩ | ⟨hne, runq, hr, rfl⟩
  · refine ⟨h.runq_nodup, h.blocked_nodup, h.runq_blocked, h.current_runq, h.current_blocked,
      h.idle_runq, h.idle_blocked, h.current_state, h.idle_running, ?_⟩
    rcases hp with rfl | rfl
    · exact h.preempted_state
    · simp
  · obtain ⟨hn, hmm⟩ := h.requeue_ids hr
    obtain ⟨hbn, hbm⟩ := h.switchedOut_ids
    have hm : ∀ id, id ∈ (runq.remove (s.chosen numCoop).id).ids → id ≠ (s.chosen numCoop).id ∧
        (id ∈ s.runq.ids ∨ (s.active = true ∧ s.current.id ≠ s.sched.idleThread.id ∧ id = s.current.id)) := by
      intro id hid
      obtain ⟨hnt, hid⟩ := (RunQueue.mem_ids_remove hn).mp hid
      refine ⟨hnt, ((hmm id).mp hid).imp_right fun ⟨hre, heq⟩ => ?_⟩
      simp only [requeues, Bool.and_eq_true, Bool.not_eq_true', decide_eq_false_iff_not] at hre
      exact ⟨hre.1.1, hre.1.2, heq⟩
    have hbl := h.chosen_ids hne
    have hil : s.active = false → s.current.id ≠ s.sched.idleThread.id := by
      intro ha heq
      simp [active, h.idle_running heq] at ha
    refine ⟨RunQueue.nodup_ids_remove hn _, hbn, fun id hid => ?_, fun hid => ?_,
      fun hid => ?_, fun hid => ?_, fun hid => ?_, .inl rfl, fun _ => rfl,
      h.updateMetairqPreempt_state hp _ _⟩
    · intro hid'
      rcases (hbm id).mp hid' with hb | ⟨hi, rfl⟩
      · rcases (hm id hid).2 with hq | ⟨_, _, rfl⟩
        · exact h.runq_blocked id hq hb
        · exact h.current_blocked hb
      · rcases (hm _ hid).2 with hq | ⟨ha, _⟩
        · exact h.current_runq hq
        · simp [hi] at ha
    · exact (hm _ hid).1 rfl
    · rcases (hbm _).mp hid with hb | ⟨_, heq⟩
      · exact hbl hb
      · exact hne heq
    · rw [updateMetairqPreempt_idle] at hid
      rcases (hm _ hid).2 with hq | ⟨_, hnt, heq⟩
      · exact h.idle_runq hq
      · exact hnt heq.symm
    · rw [updateMetairqPreempt_idle] at hid
      rcases (hbm _).mp hid with hb | ⟨hi, heq⟩
      · exact h.idle_blocked hb
      · exact hil hi heq.symm

theorem Inv.wake {id : Tid} {ret : Int} (h : s.Inv) (hs : s.wake id ret = some next) : next.Inv := by
  obtain ⟨t, ht, rfl, runq, hr, rfl⟩ := wake_cases hs
  have htd : t.id ∈ s.blockedIds := List.mem_map_of_mem ht
  have hm : ∀ id, id ∈ runq.ids ↔ id = t.id ∨ id ∈ s.runq.ids :=
    fun id => RunQueue.mem_ids_add hr
  have hn : t.id ∉ s.runq.ids := fun hq => h.runq_blocked _ hq htd
  have hbm : ∀ id, id ∈ (s.blocked.eraseP fun u => u.id = t.id).map Thread.id ↔ id ≠ t.id ∧ id ∈ s.blockedIds := by
    intro id
    rw [map_id_eraseP]
    exact h.blocked_nodup.mem_erase_iff
  refine ⟨RunQueue.nodup_ids_add hr hn h.runq_nodup, ?_, fun id hid hi => ?_, fun hid => ?_,
    fun hid => ?_, fun hid => ?_, fun hid => ?_, h.current_state, h.idle_running,
    h.preempted_state⟩
  · unfold blockedIds
    rw [map_id_eraseP]
    exact h.blocked_nodup.erase _
  · obtain ⟨hnt, hb⟩ := (hbm id).mp hi
    rcases (hm id).mp hid with heq | hq
    · exact hnt heq
    · exact h.runq_blocked id hq hb
  · rcases (hm _).mp hid with heq | hq
    · exact h.current_blocked (heq ▸ htd)
    · exact h.current_runq hq
  · exact h.current_blocked ((hbm _).mp hid).2
  · rcases (hm _).mp hid with heq | hq
    · exact h.idle_blocked (heq ▸ htd)
    · exact h.idle_runq hq
  · exact h.idle_blocked ((hbm _).mp hid).2

theorem Inv.block (h : s.Inv) (hs : s.block = some next) : next.Inv := by
  obtain ⟨_, hi, rfl⟩ := block_cases hs
  exact ⟨h.runq_nodup, h.blocked_nodup, h.runq_blocked, h.current_runq, h.current_blocked,
    h.idle_runq, h.idle_blocked, .inr rfl, fun heq => absurd heq hi, h.preempted_state⟩

theorem Inv.step {op : Op} (h : s.Inv) (hs : s.step numCoop op = some next) : next.Inv := by
  cases op with
  | Reschedule => exact h.reschedule hs
  | Wake id ret => exact h.wake hs
  | Block => exact h.block hs
  | Yield =>
    cases hs
    exact ⟨h.runq_nodup, h.blocked_nodup, h.runq_blocked, h.current_runq, h.current_blocked,
      h.idle_runq, h.idle_blocked, h.current_state, h.idle_running, h.preempted_state⟩

end Cpu

end Gale.Sched
