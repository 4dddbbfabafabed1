import Gale.Thread

namespace Gale.Sched

abbrev MAX_RUNQ_SIZE : Nat := 64

-- The entries below len of the array, most urgent first.
structure RunQueue where
  entries : List Thread
  length_le : entries.length ≤ MAX_RUNQ_SIZE
  sorted : entries.Pairwise fun a b => a.priority ≤ b.priority

-- The position add finds: before the first entry of a strictly larger value.
def insertThread (thread : Thread) : List Thread → List Thread
  | [] => [thread]
  | entry :: rest =>
    if thread.priority < entry.priority then thread :: entry :: rest
    else entry :: insertThread thread rest

theorem insertThread_perm (t : Thread) (es : List Thread) : (insertThread t es).Perm (t :: es) := by
  induction es with
  | nil => exact List.Perm.refl _
  | cons entry rest ih =>
    unfold insertThread
    split
    · exact List.Perm.refl _
    · exact (ih.cons entry).trans (List.Perm.swap _ _ _)

theorem insertThread_sorted {t : Thread} {es : List Thread} (h : es.Pairwise fun a b => a.priority ≤ b.priority) :
    (insertThread t es).Pairwise fun a b => a.priority ≤ b.priority := by
  induction es with
  | nil => exact List.pairwise_singleton _ _
  | cons entry rest ih =>
    obtain ⟨hf, hr⟩ := List.pairwise_cons.mp h
    unfold insertThread
    split
    · next hlt =>
        refine List.pairwise_cons.mpr ⟨fun o ho => ?_, h⟩
        rcases List.mem_cons.mp ho with rfl | ho
        · exact hlt.le
        · exact hlt.le.trans (hf o ho)
    · next hge =>
        refine List.pairwise_cons.mpr ⟨fun o ho => ?_, ih hr⟩
        rcases List.mem_cons.mp ((insertThread_perm t rest).mem_iff.mp ho) with rfl | ho
        · exact not_lt.mp hge
        · exact hf o ho

namespace RunQueue

def new : RunQueue := ⟨[], Nat.zero_le _, List.Pairwise.nil⟩

def best (q : RunQueue) : Option Thread := q.entries.head?

-- None where the source returns false and leaves the queue as it is.
def add (q : RunQueue) (thread : Thread) : Option RunQueue :=
  if h : q.entries.length < MAX_RUNQ_SIZE then
    some ⟨insertThread thread q.entries,
      by rw [(insertThread_perm thread q.entries).length_eq]; exact h,
      insertThread_sorted q.sorted⟩
  else none

-- dequeue_thread of gale_sched.c; remove_best is the case of the first entry.
def remove (q : RunQueue) (id : Tid) : RunQueue :=
  ⟨q.entries.eraseP fun t => t.id = id, (List.eraseP_sublist).length_le.trans q.length_le,
    q.sorted.sublist List.eraseP_sublist⟩

def isQueued (q : RunQueue) (id : Tid) : Bool := q.entries.any fun t => t.id = id

end RunQueue

inductive SchedChoice where
  | Thread (thread : Gale.Thread)
  | Idle

def shouldPreempt (currentIsCooperative candidateIsMetairq swapOk : Bool) : Bool :=
  if swapOk then true
  else if currentIsCooperative && !candidateIsMetairq then false
  else true

structure CpuSchedState where
  metairqPreempted : Option Thread
  swapOk : Bool
  idleThread : Thread

def CpuSchedState.new (idleThread : Thread) : CpuSchedState := ⟨none, false, idleThread⟩

structure SmpSchedOutcome where
  choice : SchedChoice
  requeueCurrent : Bool

def resumePreempted (runqBest : Option Thread) (cpu : CpuSchedState) : Option Thread × CpuSchedState :=
  match cpu.metairqPreempted with
  | some mirqp =>
    let bestIsMetairq := match runqBest with
      | some t => t.isMetairq
      | none => false
    if !bestIsMetairq then
      if mirqp.state = .Ready then (some mirqp, cpu)
      else (runqBest, { cpu with metairqPreempted := none })
    else (runqBest, cpu)
  | none => (runqBest, cpu)

def contest (candidate current : Thread) (swapOk currentIsActive currentIsCooperative : Bool) :
    Thread :=
  if currentIsActive then
    let cmp : Int := (current.priority : Int) - (candidate.priority : Int)
    let chosen := if cmp < 0 ∨ (cmp = 0 ∧ !swapOk) then current else candidate
    if !shouldPreempt currentIsCooperative chosen.isMetairq swapOk then current else chosen
  else candidate

def updateMetairqPreempt (newThread current : Thread) (currentIsCooperative : Bool)
    (cpu : CpuSchedState) : CpuSchedState :=
  if newThread.isMetairq && !current.isMetairq && currentIsCooperative then
    { cpu with metairqPreempted := some current }
  else if !newThread.isMetairq then { cpu with metairqPreempted := none }
  else cpu

def nextUpSmp (runqBest : Option Thread) (current : Thread) (cpu : CpuSchedState)
    (currentIsActive currentIsQueued currentIsCooperative : Bool) :
    SmpSchedOutcome × CpuSchedState :=
  let (thread, cpu) := resumePreempted runqBest cpu
  let candidate := thread.getD cpu.idleThread
  let chosen := contest candidate current cpu.swapOk currentIsActive currentIsCooperative
  let isSwitching : Bool := chosen.id ≠ current.id
  let isCurrentIdle : Bool := current.id = cpu.idleThread.id
  let isCurrentMirqPreempted := cpu.metairqPreempted.any fun mirqp => current.id = mirqp.id
  let requeueCurrent := isSwitching && currentIsActive && !currentIsQueued && !isCurrentIdle &&
    !isCurrentMirqPreempted
  let cpu := if isSwitching then updateMetairqPreempt chosen current currentIsCooperative cpu
    else cpu
  (⟨.Thread chosen, requeueCurrent⟩, { cpu with swapOk := false })

end Gale.Sched
