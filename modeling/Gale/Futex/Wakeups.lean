import Gale.Futex
import Gale.Lib.Memory
import Gale.Lib.WaitQueue

namespace Gale.Futex

open Function Lib

variable {width : Nat}

inductive Moves (s : State width) : Op width → State width → Prop
  | store (val : BitVec width) : Moves s (.Store val) { s with val := val }
  | refuseWait {thread : Tid} (expected : Int32) (timeout : Timeout) (entry : Return)
      (hidle : s.pc thread = .Idle) : Moves s (.Wait thread expected timeout) (s.returns entry)
  | refuseWake {thread : Tid} (wakeAll : Bool) (entry : Return) (hidle : s.pc thread = .Idle) 
      (hobject : s.object ≠ some .K_OBJ_FUTEX) : Moves s (.Wake thread wakeAll) (s.returns entry)
  | sampled {thread : Tid} {expected : Int32} {timeout : Timeout} (hidle : s.pc thread = .Idle)
      (hfree : s.lock = none) (hval : sample s.val = expected.toUInt32) :
      Moves s (.Wait thread expected timeout) (s.acquire thread (.Sampled ⟨expected, timeout⟩))
  | called {thread : Tid} {wakeAll : Bool} (hidle : s.pc thread = .Idle) (hfree : s.lock = none) :
      Moves s (.Wake thread wakeAll) (s.acquire thread (.Waking wakeAll 0))
  | pended {thread : Tid} {call : WaitCall} (hpc : s.pc thread = .Sampled call) :
      Moves s (.Continue thread) (s.pend thread call)
  | expired {thread : Tid} {call : WaitCall} (hpc : s.pc thread = .Pended call) :
      Moves s (.TimeOut thread) (s.unpend thread EAGAIN)
  | took {waker thread : Tid} {wakeAll : Bool} {woken : Nat}
      (hpc : s.pc waker = .Waking wakeAll woken) (hmem : thread ∈ s.waitQ) :
      Moves s (.Continue waker) ((s.unpend thread 0).setPc waker
        (if wakeAll then .Waking wakeAll (woken + 1) else .Unlocking wakeAll (woken + 1)))
  | drained {waker : Tid} {wakeAll : Bool} {woken : Nat} (hpc : s.pc waker = .Waking wakeAll woken)
      (hempty : s.waitQ = []) :
      Moves s (.Continue waker) (s.setPc waker (.Unlocking wakeAll woken))
  | released {waker : Tid} {wakeAll : Bool} {woken : Nat}
      (hpc : s.pc waker = .Unlocking wakeAll woken) :
      Moves s (.Continue waker) (s.release waker (.Woke wakeAll woken))
  | returned {thread : Tid} (entry : Return)
      (hpc : (∃ call ret, s.pc thread = .Readied call ret) ∨
        ∃ wakeAll woken, s.pc thread = .Woke wakeAll woken ∧ entry = .Wake thread woken) :
      Moves s (.Continue thread) ((s.setPc thread .Idle).returns entry)

variable {policy : Policy Tid} {s next : State width} {op : Op width} {thread waker mover : Tid}
  {wakeAll : Bool} {woken : Nat} {ret : Int} {ops : List (Op width)}

theorem wait_moves (expected : Int32) (timeout : Timeout) (hi : s.pc thread = .Idle) (hf : s.lock = none) :
    Moves s (.Wait thread expected timeout) (s.wait thread expected timeout) := by
  unfold State.wait
  split
  · by_cases hb : (galeKFutexWaitDecide (sample s.val) expected.toUInt32 timeout.isNoWait).action = .Block
    · rw [if_neg (not_not_intro hb)]
      exact .sampled hi hf (galeKFutexWaitDecide_block.mp hb).1
    · rw [if_pos hb]
      exact .refuseWait expected timeout _ hi
  · exact .refuseWait expected timeout _ hi

theorem wakeTurn_cases (s : State width) (policy : Policy Tid) (waker : Tid) (wakeAll : Bool) (woken : Nat) :
    s.waitQ = [] ∧ s.wakeTurn policy waker wakeAll woken = s.setPc waker (.Unlocking wakeAll woken) ∨
    ∃ thread ∈ s.waitQ, s.wakeTurn policy waker wakeAll woken = (s.unpend thread 0).setPc waker
        (if wakeAll then .Waking wakeAll (woken + 1) else .Unlocking wakeAll (woken + 1)) := by
  unfold State.wakeTurn
  rcases policy.take_cases s.waitQ with ⟨he, ht⟩ | ⟨thread, hm, ht⟩
  · rw [ht]
    exact .inl ⟨he, rfl⟩
  · rw [ht]
    exact .inr ⟨thread, hm, rfl⟩

theorem wakeTurn_moves (hpc : s.pc waker = .Waking wakeAll woken) :
    Moves s (.Continue waker) (s.wakeTurn policy waker wakeAll woken) := by
  rcases wakeTurn_cases s policy waker wakeAll woken with ⟨he, ht⟩ | ⟨thread, hm, ht⟩
  · rw [ht]
    exact .drained hpc he
  · rw [ht]
    exact .took hpc hm

theorem step_moves (hs : step policy s op = some next) : Moves s op next := by
  cases op with
  | Store val =>
    cases hs
    exact .store val
  | Wait thread expected timeout =>
    simp only [step, Option.ite_none_right_eq_some, Option.some.injEq] at hs
    obtain ⟨⟨hi, hf⟩, rfl⟩ := hs
    exact wait_moves expected timeout hi hf
  | Wake thread wakeAll =>
    simp only [step, Option.ite_none_right_eq_some, Option.some.injEq] at hs
    obtain ⟨⟨hi, hf⟩, rfl⟩ := hs
    unfold State.wake State.kFutexFindData
    by_cases ho : s.object = some .K_OBJ_FUTEX
    · simp only [ho, decide_true, ↓reduceIte]
      exact .called hi hf
    · simp only [ho, decide_false, Bool.false_eq_true, ↓reduceIte]
      exact .refuseWake wakeAll _ hi ho
  | TimeOut thread =>
    simp only [step] at hs
    split at hs
    next call hpc =>
      simp only [Option.ite_none_right_eq_some, Option.some.injEq] at hs
      obtain ⟨-, rfl⟩ := hs
      exact .expired hpc
    next => cases hs
  | Continue thread =>
    simp only [step] at hs
    split at hs
    next call hpc =>
      cases hs
      exact .pended hpc
    next call ret hpc =>
      cases hs
      exact .returned _ (.inl ⟨call, ret, hpc⟩)
    next wakeAll woken hpc =>
      cases hs
      exact wakeTurn_moves hpc
    next wakeAll woken hpc =>
      cases hs
      exact .released hpc
    next wakeAll woken hpc =>
      cases hs
      exact .returned _ (.inr ⟨wakeAll, woken, hpc, rfl⟩)
    next => cases hs

def Pc.isPended : Pc → Prop
  | .Pended _ => True
  | _ => False

def Pc.holds : Pc → Prop
  | .Sampled _ | .Waking _ _ | .Unlocking _ _ => True
  | _ => False

theorem Pc.holds_of_readied (pc : Pc) (ret : Int) : (pc.readied ret).holds → pc.holds := by
  cases pc <;> exact id

-- Nobody joins the queue while a waker holds the lock, so it stays empty once a waker
-- of all has found it empty.
structure State.Inv (s : State width) : Prop where
  object : s.object = some .K_OBJ_FUTEX
  parked : Parked Pc.isPended s.waitQ s.pc
  lock : Exclusive Pc.holds s.lock s.pc
  drained : ∀ waker woken, s.pc waker = .Unlocking true woken → s.waitQ = []

theorem inv_init (val : BitVec width) : (init val).Inv where
  object := rfl
  parked := ⟨List.nodup_nil, by nofun⟩
  lock := by nofun
  drained := by nofun

theorem State.Inv.ne_of_holds (h : s.Inv) {holder : Tid} (hm : thread ∈ s.waitQ)
    (hh : (s.pc holder).holds) : thread ≠ holder := by
  rintro rfl
  have hp := h.parked.waits thread hm
  cases hpc : s.pc thread with
  | Pended call =>
    rw [hpc] at hh
    exact hh
  | _ =>
    rw [hpc] at hp
    exact hp

theorem Pc.eq_of_readied {pc target : Pc} (h : pc.readied ret = target)
    (ht : ∀ call, target ≠ .Readied call ret) : pc = target := by
  cases pc with
  | Pended call => exact absurd h.symm (ht call)
  | _ => exact h

theorem drained_update {pc : Tid → Pc} {queue : List Tid} {place : Pc}
    (h : ∀ waker woken, pc waker = .Unlocking true woken → queue = [])
    (hp : ∀ woken, place = .Unlocking true woken → queue = []) (waker : Tid) (woken : Nat)
    (hpc : update pc thread place waker = .Unlocking true woken) : queue = [] := by
  rcases update_cases hpc with ⟨-, hn⟩ | ⟨-, ho⟩
  · exact hp woken hn
  · exact h waker woken ho

theorem State.Inv.unpend (h : s.Inv) (thread : Tid) (ret : Int) : (s.unpend thread ret).Inv where
  object := h.object
  parked := h.parked.dequeue thread _
  lock := h.lock.update thread (Pc.holds_of_readied _ _)
  drained := by
    intro waker woken hpc
    have he := drained_update h.drained
      (fun count hp => h.drained thread count (Pc.eq_of_readied hp (by nofun))) waker woken hpc
    rw [unpend_waitQ, he]
    rfl

theorem State.Inv.setPc (h : s.Inv) {pc : Pc} (ho : thread ∉ s.waitQ) (hh : pc.holds → (s.pc thread).holds)
    (hd : ∀ woken, pc = .Unlocking true woken → s.waitQ = []) : (s.setPc thread pc).Inv where
  object := h.object
  parked := h.parked.update thread ho pc
  lock := h.lock.update thread hh
  drained := drained_update h.drained hd

theorem State.Inv.acquire (h : s.Inv) {pc : Pc} (hi : s.pc thread = .Idle)
    (hf : s.lock = none) (hpc : ∀ woken, pc ≠ .Unlocking true woken) :
    (s.acquire thread pc).Inv where
  object := h.object
  parked := h.parked.update thread (h.parked.not_mem thread (by rw [hi]; exact id)) pc
  lock := by
    have hl := h.lock
    rw [hf] at hl
    exact hl.acquire thread pc
  drained := drained_update h.drained fun woken heq => absurd heq (hpc woken)

theorem Moves.inv (hm : Moves s op next) (h : s.Inv) : next.Inv := by
  cases hm with
  | store val | refuseWait expected timeout entry hi =>
    exact ⟨h.object, h.parked, h.lock, h.drained⟩
  | refuseWake wakeAll entry hi ho => exact absurd h.object ho
  | sampled hi hf hv | called hi hf => exact h.acquire hi hf (by nofun)
  | @pended thread call hpc =>
    have hh : (s.pc thread).holds := by
      rw [hpc]
      trivial
    refine ⟨h.object, h.parked.enqueue thread (by rw [hpc]; exact id) trivial, h.lock.release hh id, ?_⟩
    -- the pending thread has the lock, so no waker does
    intro waker woken hw
    obtain ⟨hne, hws⟩ := of_update_ne hw nofun
    exact absurd (h.lock.unique hh (by rw [hws]; trivial)) hne
  | expired hpc => exact h.unpend _ _
  | @took waker thread wakeAll woken hpc hmem =>
    have hh : (s.pc waker).holds := by
      rw [hpc]
      trivial
    have hne := h.ne_of_holds hmem hh
    have hs : (s.unpend thread 0).pc waker = .Waking wakeAll woken := by
      rw [State.unpend_pc, update_of_ne hne.symm, hpc]
    refine (h.unpend thread 0).setPc ?_ ?_ ?_
    · exact (h.unpend thread 0).parked.not_mem waker (by rw [hs]; exact id)
    · intro _
      rw [hs]
      trivial
    · intro count heq
      cases wakeAll <;> cases heq
  | @drained waker wakeAll woken hpc hempty =>
    refine h.setPc (by rw [hempty]; exact List.not_mem_nil) (fun _ => ?_) fun _ _ => hempty
    rw [hpc]
    trivial
  | @released waker wakeAll woken hpc =>
    have hh : (s.pc waker).holds := by
      rw [hpc]
      trivial
    exact ⟨h.object, h.parked.update waker (h.parked.not_mem waker (by rw [hpc]; exact id)) _,
      h.lock.release hh id, drained_update h.drained (by nofun)⟩
  | @returned thread entry hpc =>
    have hof : thread ∉ s.waitQ := by
      refine h.parked.not_mem thread ?_
      rcases hpc with ⟨call, ret, hpc⟩ | ⟨wakeAll, woken, hpc, -⟩
      · rw [hpc]
        exact id
      · rw [hpc]
        exact id
    have hi : (s.setPc thread .Idle).Inv := h.setPc hof False.elim (by nofun)
    exact ⟨hi.object, hi.parked, hi.lock, hi.drained⟩

theorem run_inv (h : s.Inv) (hr : run (step policy) s ops = some next) : next.Inv :=
  run_invariant State.Inv (fun _ _ => True) (fun _ _ _ h _ hs => (step_moves hs).inv h) h
    (fun _ _ _ => trivial) hr

def Op.waits (thread : Tid) : Op width → Prop
  | .Wait other _ _ => other = thread
  | _ => False

def Op.wakes (thread : Tid) : Op width → Prop
  | .Wake other _ => other = thread
  | _ => False

def State.Sleeps (s : State width) (thread : Tid) : Prop :=
  (∃ call, s.pc thread = .Sampled call) ∨ thread ∈ s.waitQ

theorem State.Inv.not_idle (h : s.Inv) (hs : s.Sleeps thread) : s.pc thread ≠ .Idle := by
  intro hi
  rcases hs with ⟨call, hpc⟩ | hmem
  · rw [hi] at hpc
    cases hpc
  · have hp := h.parked.waits thread hmem
    rw [hi] at hp
    exact hp

theorem State.Sleeps.before {pc : Pc} (hsl : next.Sleeps thread) (hn : next.pc = update s.pc mover pc)
    (hpc : ∀ call, pc = .Sampled call → s.pc mover = .Sampled call)
    (hq : ∀ o ∈ next.waitQ, o ∈ s.waitQ) : s.Sleeps thread := by
  rcases hsl with ⟨call, hs⟩ | hmem
  · rw [hn] at hs
    rcases update_cases hs with ⟨heq, hnw⟩ | ⟨-, ho⟩
    · rw [heq]
      exact .inl ⟨call, hpc call hnw⟩
    · exact .inl ⟨call, ho⟩
  · exact .inr (hq thread hmem)

theorem State.Sleeps.of_unpend (hs : (s.unpend mover ret).Sleeps thread) : s.Sleeps thread := by
  refine hs.before rfl (fun call heq => ?_) fun o => List.mem_of_mem_erase
  exact Pc.eq_of_readied heq (by nofun)

theorem Moves.sleeps (hm : Moves s op next) (h : s.Inv) (hs : next.Sleeps thread) :
    (∃ expected timeout, op = .Wait thread expected timeout ∧ s.lock = none ∧
      sample s.val = expected.toUInt32) ∨ s.Sleeps thread ∧ ¬ op.waits thread := by
  cases hm with
  | store val | refuseWake wakeAll entry hi ho => exact .inr ⟨hs, id⟩
  | refuseWait expected timeout entry hi =>
    refine .inr ⟨hs, ?_⟩
    rintro rfl
    exact h.not_idle hs hi
  | @sampled other expected timeout hi hf hval =>
    by_cases heq : other = thread
    · subst heq
      exact .inl ⟨expected, timeout, rfl, hf, hval⟩
    · refine .inr ⟨?_, heq⟩
      rwa [State.Sleeps, State.acquire_pc, update_of_ne (Ne.symm heq)] at hs
  | called hi hf | drained hpc he | released hpc | returned entry hpc =>
    exact .inr ⟨hs.before rfl (by nofun) fun _ => id, id⟩
  | @pended other call hpc =>
    refine .inr ⟨?_, id⟩
    rcases hs with ⟨c', hsm⟩ | hmm
    · rw [State.pend_pc] at hsm
      exact .inl ⟨c', (of_update_ne hsm nofun).2⟩
    · rw [State.pend_waitQ, List.mem_append, List.mem_singleton] at hmm
      rcases hmm with hmm | heq
      · exact .inr hmm
      · rw [heq]
        exact .inl ⟨call, hpc⟩
  | expired hpc => exact .inr ⟨hs.of_unpend, id⟩
  | @took waker other wakeAll woken hpc hmm =>
    refine .inr ⟨State.Sleeps.of_unpend (hs.before rfl ?_ fun _ => id), id⟩
    cases wakeAll <;> nofun

-- The wait call in which a thread went to sleep is its last one in the run.
structure LastWait (policy : Policy Tid) (s : State width) (ops : List (Op width)) (thread : Tid)
    (sampled : State width) (expected : Int32) (after : List (Op width)) : Prop where
  split : ∃ before timeout, ops = before ++ .Wait thread expected timeout :: after ∧
    run (step policy) s before = some sampled
  last : ∀ op ∈ after, ¬ op.waits thread

theorem run_sleeps (h : s.Inv) (hrn : run (step policy) s ops = some next) (hsl : next.Sleeps thread) :
    (∃ sampled expected after, LastWait policy s ops thread sampled expected after ∧
      sampled.lock = none ∧ sample sampled.val = expected.toUInt32) ∨
    s.Sleeps thread ∧ ∀ op ∈ ops, ¬ op.waits thread := by
  induction ops generalizing s with
  | nil =>
    cases hrn
    exact .inr ⟨hsl, by nofun⟩
  | cons op rest ih =>
    obtain ⟨mid, hst, hr⟩ := run_cons_eq_some.mp hrn
    have hm := step_moves hst
    rcases ih (hm.inv h) hr with
      ⟨sampled, expected, after, ⟨⟨before, timeout, rfl, hbefore⟩, hlast⟩, hsaw⟩ | ⟨hmiddle, hnone⟩
    · refine .inl ⟨sampled, expected, after, ⟨⟨op :: before, timeout, rfl, ?_⟩, hlast⟩, hsaw⟩
      exact run_cons_eq_some.mpr ⟨mid, hst, hbefore⟩
    · rcases hm.sleeps h hmiddle with ⟨expected, timeout, rfl, hf, hv⟩ | ⟨hs, hop⟩
      · exact .inl ⟨s, expected, rest, ⟨⟨[], timeout, rfl, rfl⟩, hnone⟩, hf, hv⟩
      · refine .inr ⟨hs, fun o hmm => ?_⟩
        rcases List.mem_cons.mp hmm with rfl | hmm
        · exact hop
        · exact hnone o hmm

theorem not_sleeps_init (val : BitVec width) (thread : Tid) : ¬ (init val).Sleeps thread := by
  rintro (⟨call, hpc⟩ | hmem)
  · cases hpc
  · cases hmem

theorem eq_of_unpend {target : Pc} (h : (s.unpend mover ret).pc thread = target)
    (ht : ∀ call, target ≠ .Readied call ret) :
    s.pc thread = target := by
  rcases update_cases h with ⟨heq, hn⟩ | ⟨-, ho⟩
  · rw [heq]
    exact Pc.eq_of_readied hn ht
  · exact ho

theorem Moves.woke (hm : Moves s op next) (hw : next.pc waker = .Woke wakeAll woken) :
    s.pc waker = .Woke wakeAll woken ∨ s.pc waker = .Unlocking wakeAll woken ∧ op = .Continue waker := by
  cases hm with
  | store val | refuseWait expected timeout entry hi | refuseWake all entry hi ho =>
    exact .inl hw
  | sampled hi hf hv | called hi hf | pended hpc | drained hpc he
  | returned entry hpc => exact .inl (of_update_ne hw (by nofun)).2
  | expired hpc => exact .inl (eq_of_unpend hw (by nofun))
  | @took other thread all count hpc hmem =>
    refine .inl (eq_of_unpend (of_update_ne hw ?_).2 (by nofun))
    cases all <;> nofun
  | @released other all count hpc =>
    rcases update_cases hw with ⟨rfl, ⟨⟩⟩ | ⟨-, hol⟩
    · exact .inr ⟨hpc, rfl⟩
    · exact .inl hol

theorem State.Inv.not_sleeps (h : s.Inv) (hpc : s.pc waker = .Unlocking true woken) (thread : Tid) :
    ¬ s.Sleeps thread := by
  rintro (⟨call, hs⟩ | hmem)
  · have hh : (s.pc waker).holds := by
      rw [hpc]
      trivial
    have heq := h.lock.unique hh (by rw [hs]; trivial)
    rw [heq, hpc] at hs
    cases hs
  · rw [h.drained waker woken hpc] at hmem
    cases hmem

theorem run_woke (h : s.Inv) (hst : ∀ count, s.pc waker = .Woke true count → ¬ s.Sleeps thread)
    (hrn : run (step policy) s ops = some next) (hn : ∀ op ∈ ops, ¬ op.waits thread)
    (hw : next.pc waker = .Woke true woken) : ¬ next.Sleeps thread := by
  induction ops generalizing s with
  | nil =>
    cases hrn
    exact hst woken hw
  | cons op rest ih =>
    obtain ⟨mid, hsp, hr⟩ := run_cons_eq_some.mp hrn
    have hmv := step_moves hsp
    have hop := hn op List.mem_cons_self
    refine ih (hmv.inv h) (fun count hm hsl => ?_) hr fun o hmm =>
      hn o (List.mem_cons_of_mem _ hmm)
    have hb : s.Sleeps thread := by
      rcases hmv.sleeps h hsl with ⟨expected, timeout, rfl, -⟩ | ⟨hs, -⟩
      · exact absurd rfl hop
      · exact hs
    rcases hmv.woke hm with hs | ⟨hs, -⟩
    · exact hst count hs hb
    · exact h.not_sleeps hs thread hb

def Pc.wakeCall : Pc → Option (Bool × Nat)
  | .Waking wakeAll woken | .Unlocking wakeAll woken | .Woke wakeAll woken => some (wakeAll, woken)
  | _ => none

def removed (waker : Tid) (s : State width) (op : Op width) (next : State width) : List Tid :=
  if op = .Continue waker then s.waitQ.filter (· ∉ next.waitQ) else []

def removedBy (policy : Policy Tid) (waker : Tid) : State width → List (Op width) → List Tid
  | _, [] => []
  | s, op :: rest =>
    match step policy s op with
    | none => []
    | some next => removed waker s op next ++ removedBy policy waker next rest

theorem removed_of_ne (hop : op ≠ .Continue waker) : removed waker s op next = [] :=
  if_neg hop

theorem removed_same (hq : next.waitQ = s.waitQ) : removed waker s op next = [] := by
  unfold removed
  split
  · rw [hq]
    exact List.filter_eq_nil_iff.mpr fun thread hm => by simp [hm]
  · rfl

theorem removed_took (h : s.Inv) (hm : thread ∈ s.waitQ) (hq : next.waitQ = s.waitQ.erase thread) :
    removed waker s (.Continue waker) next = [thread] := by
  rw [removed, if_pos rfl, hq]
  refine List.perm_singleton.mp ?_
  refine (List.perm_ext_iff_of_nodup (h.parked.nodup.filter _) (List.nodup_singleton _)).mpr ?_
  intro o
  simp only [List.mem_filter, h.parked.nodup.mem_erase_iff, decide_eq_true_eq, not_and, List.mem_singleton]
  constructor
  · rintro ⟨ho, hk⟩
    exact not_not.mp fun hne => hk hne ho
  · rintro rfl
    exact ⟨hm, fun hne => absurd rfl hne⟩

theorem Pc.wakeCall_readied (pc : Pc) (ret : Int) : (pc.readied ret).wakeCall = pc.wakeCall := by
  cases pc <;> rfl

theorem unpend_wakeCall (s : State width) (thread waker : Tid) (ret : Int) :
    ((s.unpend thread ret).pc waker).wakeCall = (s.pc waker).wakeCall := by
  rw [State.unpend_pc, update_apply]
  split
  next heq => rw [heq, Pc.wakeCall_readied]
  next => rfl

theorem counted_of_none (hn : removed waker s op next = []) (hc : (s.pc waker).wakeCall = some (wakeAll, woken)) :
    ∃ count, (s.pc waker).wakeCall = some (wakeAll, count) ∧ woken = count + (removed waker s op next).length :=
  ⟨woken, hc, by rw [hn]; rfl⟩

theorem Moves.wakeCall (hm : Moves s op next) (h : s.Inv) (hop : ¬ op.wakes waker)
    (hc : (next.pc waker).wakeCall = some (wakeAll, woken)) :
    ∃ count, (s.pc waker).wakeCall = some (wakeAll, count) ∧ woken = count + (removed waker s op next).length := by
  cases hm with
  | store val | refuseWait expected timeout entry hi | refuseWake all entry hi ho =>
    exact counted_of_none (removed_same rfl) hc
  | @sampled thread expected timeout hi hfree hval =>
    rw [State.acquire_pc, update_apply] at hc
    split at hc
    next => cases hc
    next => exact counted_of_none (removed_same rfl) hc
  | @called thread all hi hfree =>
    rw [State.acquire_pc, update_of_ne (Ne.symm hop)] at hc
    exact counted_of_none (removed_same rfl) hc
  | @pended thread call hpc =>
    rw [State.pend_pc, update_apply] at hc
    split at hc
    next => cases hc
    next hne =>
      exact counted_of_none (removed_of_ne fun heq => hne (Op.Continue.inj heq).symm) hc
  | @expired thread call hpc =>
    rw [unpend_wakeCall] at hc
    exact counted_of_none (removed_of_ne (by nofun)) hc
  | @took other thread all count hpc hmem =>
    rw [State.setPc_pc, update_apply] at hc
    split at hc
    next heq =>
      have ha : (wakeAll, woken) = (all, count + 1) := by
        cases all <;> exact (Option.some.inj hc).symm
      cases ha
      subst heq
      refine ⟨count, by rw [hpc]; rfl, ?_⟩
      rw [removed_took h hmem rfl]
      rfl
    next hne =>
      rw [unpend_wakeCall] at hc
      exact counted_of_none (removed_of_ne fun heq => hne (Op.Continue.inj heq).symm) hc
  | @drained other all count hpc hempty =>
    rw [State.setPc_pc, update_apply] at hc
    refine counted_of_none (removed_same rfl) ?_
    split at hc
    next heq => rwa [heq, hpc]
    next => exact hc
  | @released other all count hpc =>
    rw [State.release_pc, update_apply] at hc
    refine counted_of_none (removed_same rfl) ?_
    split at hc
    next heq => rwa [heq, hpc]
    next => exact hc
  | @returned thread entry hpc =>
    rw [State.returns_pc, State.setPc_pc, update_apply] at hc
    split at hc
    next => cases hc
    next => exact counted_of_none (removed_same rfl) hc

theorem run_wakeCall (h : s.Inv) (hrn : run (step policy) s ops = some next) (hn : ∀ op ∈ ops, ¬ op.wakes waker)
    (hc : (next.pc waker).wakeCall = some (wakeAll, woken)) :
    ∃ count, (s.pc waker).wakeCall = some (wakeAll, count) ∧
      woken = count + (removedBy policy waker s ops).length := by
  induction ops generalizing s with
  | nil =>
    cases hrn
    exact ⟨woken, hc, rfl⟩
  | cons op rest ih =>
    obtain ⟨mid, hst, hr⟩ := run_cons_eq_some.mp hrn
    have hmv := step_moves hst
    obtain ⟨count, hm, hcn⟩ := ih (hmv.inv h) hr fun o hmm =>
      hn o (List.mem_cons_of_mem _ hmm)
    obtain ⟨first, hs, hf⟩ := hmv.wakeCall h (hn op List.mem_cons_self) hm
    refine ⟨first, hs, ?_⟩
    simp only [removedBy, hst, List.length_append]
    omega

section Alone

variable (policy) {waker : Tid} {woken : Nat}

theorem wake_step (h : s.Inv) (hi : s.pc waker = .Idle) (hf : s.lock = none)
    (wakeAll : Bool) : step policy s (.Wake waker wakeAll) = some (s.acquire waker (.Waking wakeAll 0)) := by
  rw [step, if_pos ⟨hi, hf⟩, State.wake, State.kFutexFindData, h.object]
  rfl

theorem unlocking_run (s : State width) {wakeAll : Bool} (hpc : s.pc waker = .Unlocking wakeAll woken) :
    ∃ fin, run (step policy) s [.Continue waker, .Continue waker] = some fin ∧
      fin.pc waker = .Idle ∧ fin.log = s.log ++ [.Wake waker woken] ∧ fin.waitQ = s.waitQ := by
  have hf : step policy s (.Continue waker) = some (s.release waker (.Woke wakeAll woken)) := by
    simp [step, hpc]
  have hp : (s.release waker (.Woke wakeAll woken)).pc waker = .Woke wakeAll woken :=
    update_self ..
  have hs : step policy (s.release waker (.Woke wakeAll woken)) (.Continue waker) = some
      (((s.release waker (.Woke wakeAll woken)).setPc waker .Idle).returns (.Wake waker woken)) := by
    simp [step, hp]
  refine ⟨_, run_cons_eq_some.mpr ⟨_, hf, run_cons_eq_some.mpr ⟨_, hs, rfl⟩⟩, ?_, rfl, rfl⟩
  exact update_self ..

theorem turn_step {wakeAll : Bool} (hpc : s.pc waker = .Waking wakeAll woken) :
    step policy s (.Continue waker) = some (s.wakeTurn policy waker wakeAll woken) := by
  simp [step, hpc]

theorem waking_all_run {length : Nat} (h : s.Inv) (hpc : s.pc waker = .Waking true woken)
    (hl : s.waitQ.length = length) :
    ∃ fin, run (step policy) s (List.replicate (length + 3) (.Continue waker)) = some fin ∧
      fin.pc waker = .Idle ∧ fin.log = s.log ++ [.Wake waker ((woken + length : Nat) : Int)] ∧
      fin.waitQ = [] := by
  induction length generalizing s woken with
  | zero =>
    have he : s.waitQ = [] := List.length_eq_zero_iff.mp hl
    rcases wakeTurn_cases s policy waker true woken with ⟨-, ht⟩ | ⟨thread, hm, -⟩
    · obtain ⟨fin, hr, hi, hlg, hq⟩ := unlocking_run policy
        (s.setPc waker (.Unlocking true woken)) (update_self ..)
      refine ⟨fin, run_cons_eq_some.mpr ⟨_, turn_step policy hpc, ?_⟩, hi, hlg, ?_⟩
      · rw [ht]
        exact hr
      · rw [hq]
        exact he
    · rw [he] at hm
      cases hm
  | succ length ih =>
    rcases wakeTurn_cases s policy waker true woken with ⟨he, -⟩ | ⟨thread, hm, ht⟩
    · rw [he] at hl
      cases hl
    · have hn := (step_moves (turn_step policy hpc)).inv h
      rw [ht] at hn
      have hs : (s.waitQ.erase thread).length = length := by
        rw [List.length_erase_of_mem hm]
        omega
      obtain ⟨fin, hr, hi, hlg, hq⟩ := ih hn (update_self ..) hs
      refine ⟨fin, run_cons_eq_some.mpr ⟨_, turn_step policy hpc, ?_⟩, hi, ?_, hq⟩
      · rw [ht]
        exact hr
      · rw [hlg]
        have hsm : woken + 1 + length = woken + (length + 1) := by omega
        rw [hsm]
        rfl

theorem waking_one_run (hpc : s.pc waker = .Waking false woken) :
    ∃ fin, run (step policy) s (List.replicate 3 (.Continue waker)) = some fin ∧ fin.pc waker = .Idle ∧
      fin.log = s.log ++ [.Wake waker ((woken + (wakeDecide s.waitQ.length false).woken : Nat) : Int)] ∧
      fin.waitQ.length = (wakeDecide s.waitQ.length false).remaining := by
  rcases wakeTurn_cases s policy waker false woken with ⟨he, ht⟩ | ⟨thread, hm, ht⟩
  · obtain ⟨fin, hr, hi, hl, hq⟩ := unlocking_run policy
      (s.setPc waker (.Unlocking false woken)) (update_self ..)
    refine ⟨fin, run_cons_eq_some.mpr ⟨_, turn_step policy hpc, ?_⟩, hi, ?_, ?_⟩
    · rw [ht]
      exact hr
    · rw [hl, he]
      rfl
    · rw [hq, State.setPc_waitQ, he]
      rfl
  · obtain ⟨fin, hr, hi, hl, hq⟩ := unlocking_run policy
      ((s.unpend thread 0).setPc waker (.Unlocking false (woken + 1))) (update_self ..)
    have hp : s.waitQ.length ≠ 0 := by
      have := List.length_pos_of_mem hm
      omega
    have hd : wakeDecide s.waitQ.length false = ⟨1, s.waitQ.length - 1⟩ := if_neg hp
    refine ⟨fin, run_cons_eq_some.mpr ⟨_, turn_step policy hpc, ?_⟩, hi, ?_, ?_⟩
    · rw [ht]
      exact hr
    · rw [hl, hd]
      rfl
    · rw [hq, hd]
      exact List.length_erase_of_mem hm

theorem wake_alone (h : s.Inv) (hi : s.pc waker = .Idle) (hf : s.lock = none) (wakeAll : Bool) :
    ∃ turns fin, run (step policy) s
        (.Wake waker wakeAll :: List.replicate turns (.Continue waker)) = some fin ∧
      fin.pc waker = .Idle ∧
      fin.log = s.log ++ [.Wake waker (wakeDecide s.waitQ.length wakeAll).woken] ∧
      fin.waitQ.length = (wakeDecide s.waitQ.length wakeAll).remaining := by
  have hw := wake_step policy h hi hf wakeAll
  have hn := (step_moves hw).inv h
  have hpc : (s.acquire waker (.Waking wakeAll 0)).pc waker = .Waking wakeAll 0 :=
    update_self ..
  cases wakeAll with
  | false =>
    obtain ⟨fin, hr, hd, hl, hq⟩ := waking_one_run policy hpc
    refine ⟨3, fin, run_cons_eq_some.mpr ⟨_, hw, hr⟩, hd, ?_, hq⟩
    rw [hl, Nat.zero_add]
    rfl
  | true =>
    obtain ⟨fin, hr, hd, hl, hq⟩ := waking_all_run policy hn hpc rfl
    refine ⟨_, fin, run_cons_eq_some.mpr ⟨_, hw, hr⟩, hd, ?_, ?_⟩
    · rw [hl, Nat.zero_add, wakeDecide_all]
      rfl
    · rw [hq, wakeDecide_all]
      rfl

end Alone

theorem wake_waking (h : s.Inv) (hw : step policy s (.Wake waker wakeAll) = some next) :
    next.pc waker = .Waking wakeAll 0 := by
  have he := hw
  simp only [step, Option.ite_none_right_eq_some] at he
  rw [wake_step policy h he.1.1 he.1.2] at hw
  cases hw
  exact update_self ..

theorem woke_returns (hpc : s.pc waker = .Woke wakeAll woken) (hs : step policy s (.Continue waker) = some next) :
    next.log = s.log ++ [.Wake waker woken] := by
  simp only [step, hpc, Option.some.injEq] at hs
  rw [← hs]
  rfl

theorem run_split {first b : List (Op width)} {final : State width}
    (h : s.Inv) (hr : run (step policy) s (first ++ b) = some final) :
    ∃ mid, mid.Inv ∧ run (step policy) s first = some mid ∧ run (step policy) mid b = some final := by
  obtain ⟨mid, hf, hs⟩ := run_append_eq_some.mp hr
  exact ⟨mid, run_inv h hf, hf, hs⟩

theorem no_lost_wakeup (policy : Policy Tid) (val : BitVec width) :
    (∀ ops thread sampled expected after, LastWait policy (init val) ops thread sampled expected after →
      ∀ first stored middle waker during,
        after = first ++ .Store stored :: middle ++ .Wake waker true :: during →
      ∀ m woken final, run (step policy) (init val) ops = some m → m.pc waker = .Woke true woken →
        step policy m (.Continue waker) = some final → ¬ final.Sleeps thread) ∧
    (∀ before s waker wakeAll called during m all woken final,
      run (step policy) (init val) before = some s →
      step policy s (.Wake waker wakeAll) = some called →
      run (step policy) called during = some m → (∀ op ∈ during, ¬ op.wakes waker) →
      m.pc waker = .Woke all woken → step policy m (.Continue waker) = some final →
      all = wakeAll ∧
        final.log = m.log ++ [.Wake waker (removedBy policy waker called during).length]) ∧
    (∀ ops s, run (step policy) (init val) ops = some s → ∀ thread ∈ s.waitQ,
      ∃ sampled expected after, LastWait policy (init val) ops thread sampled expected after ∧
        sampled.lock = none ∧ sample sampled.val = expected.toUInt32) ∧
    ∀ ops s waker wakeAll, run (step policy) (init val) ops = some s → s.pc waker = .Idle →
      s.lock = none → ∃ turns final, run (step policy) s
          (.Wake waker wakeAll :: List.replicate turns (.Continue waker)) = some final ∧
        final.pc waker = .Idle ∧
        final.log = s.log ++ [.Wake waker (wakeDecide s.waitQ.length wakeAll).woken] ∧
        final.waitQ.length = (wakeDecide s.waitQ.length wakeAll).remaining := by
  have hi := inv_init val
  refine ⟨?_, ?_, ?_, ?_⟩
  · rintro ops thread sampled expected after ⟨⟨before, timeout, rfl, -⟩, hlast⟩ first stored middle
      waker during rfl m woken final hrun hwoke hstep hsl
    rw [← List.cons_append, ← List.append_assoc] at hrun
    obtain ⟨s, hs, -, hr⟩ := run_split hi hrun
    obtain ⟨called, hw, hd⟩ := run_cons_eq_some.mp hr
    have hc := (step_moves hw).inv hs
    have hm := run_inv hc hd
    have hn : ∀ op ∈ during, ¬ op.waits thread := fun op hmm => hlast op (by simp [hmm])
    have hst : ∀ count, called.pc waker = .Woke true count → ¬ called.Sleeps thread := by
      intro count hpc
      rw [wake_waking hs hw] at hpc
      cases hpc
    have hnt := run_woke hc hst hd hn hwoke
    rcases (step_moves hstep).sleeps hm hsl with ⟨_, _, hop, -⟩ | ⟨hb, -⟩
    · cases hop
    · exact hnt hb
  · intro before s waker wakeAll called during m all woken final hs hw hd hn hwoke hstep
    have hin := run_inv hi hs
    have hcl : (m.pc waker).wakeCall = some (all, woken) := by
      rw [hwoke]
      rfl
    obtain ⟨count, hcn, hwk⟩ := run_wakeCall ((step_moves hw).inv hin) hd hn hcl
    rw [wake_waking hin hw] at hcn
    cases hcn
    rw [woke_returns hwoke hstep, hwk, Nat.zero_add]
    exact ⟨rfl, rfl⟩
  · intro ops s hs thread hmm
    rcases run_sleeps hi hs (.inr hmm) with hsw | ⟨hsl, -⟩
    · exact hsw
    · exact absurd hsl (not_sleeps_init val thread)
  · intro ops s waker wakeAll hs hid hf
    exact wake_alone policy (run_inv hi hs) hid hf wakeAll

end Gale.Futex
