import Gale.Pipe

namespace Gale.Pipe

open Lib

-- A pipe after k_pipe_close: no call sets FLAG_OPEN again, no writer waits, and
-- FLAG_RESET stands only while threads are still leaving wait_for.
structure State.Closed (s : State) : Prop where
  closed : s.flags.isOpen = false
  space : s.space = []
  resetting : s.flags.reset = true → s.waiting ≠ 0

def entersWaitFor (s next : State) : Bool :=
  (next.log.drop s.log.length).any fun entry =>
    match entry with
    | .WaitFor _ => true
    | .Return _ _ _ => false

def State.shortRead (s : State) : Op → Prop
  | .Read _ len _ _ => 0 < s.buf.length ∧ s.buf.length < len
  | .Relock thread _ =>
    match s.calls thread with
    | some (.Read c, _) => 0 < s.buf.length ∧ s.buf.length < c.len - c.got.length
    | _ => False
  | _ => False

def State.drain (s : State) (c : ReadCall) : Int × List UInt8 :=
  if c.got.length ≥ c.len then (c.got.length, c.got)
  else if s.flags.reset then (ECANCELED, c.got)
  else if s.buf = [] then (if c.got ≠ [] then c.got.length else EPIPE, c.got)
  else (c.len, c.got ++ s.buf.take (c.len - c.got.length))

namespace State

@[simp] theorem returns_log (s : State) (thread : Tid) (rc : Int) (bs : List UInt8) :
    (s.returns thread rc bs).log = s.log ++ [.Return thread rc bs] := rfl

variable {s : State}

theorem Closed.congr {s' : State} (h : s.Closed) (hf : s'.flags = s.flags)
    (hs : s'.space = s.space) (hw : s.waiting ≤ s'.waiting) : s'.Closed where
  closed := hf ▸ h.closed
  space := hs.trans h.space
  resetting hreset := by
    have hws := h.resetting (hf ▸ hreset)
    omega

theorem Closed.returns (h : s.Closed) (thread : Tid) (rc : Int) (bs : List UInt8) :
    (s.returns thread rc bs).Closed := h.congr rfl rfl (Nat.le_refl _)

theorem waitForData_closed (h : s.Closed) (thread : Tid) (c : ReadCall) (expired : Bool) :
    (s.waitForData thread c expired).Closed := by
  unfold waitForData
  split
  · exact h.congr rfl rfl (Nat.le_refl _)
  · exact h.congr rfl rfl (Nat.le_succ _)

@[simp] theorem waitForData_flags (s : State) (thread : Tid) (c : ReadCall) (expired : Bool) :
    (s.waitForData thread c expired).flags = s.flags := by
  unfold waitForData
  split
  · rfl
  · rfl

theorem takeBytes_closed (h : s.Closed) (thread : Tid) (c : ReadCall) (expired : Bool) :
    (s.takeBytes thread c expired).Closed := by
  have hb (buf : List UInt8) : ({ s with buf := buf } : State).Closed := h.congr rfl rfl (Nat.le_refl _)
  simp only [takeBytes]
  split
  · exact (hb _).returns _ _ _
  · exact waitForData_closed (hb _) _ _ _

@[simp] theorem takeBytes_flags (s : State) (thread : Tid) (c : ReadCall) (expired : Bool) :
    (s.takeBytes thread c expired).flags = s.flags := by
  simp only [takeBytes]
  split
  · rfl
  · exact waitForData_flags _ _ _ _

theorem takeBytes_log_of_le (thread : Tid) {c : ReadCall} (expired : Bool)
    (hg : c.got.length < c.len) (he : c.len - c.got.length ≤ s.buf.length) :
    (s.takeBytes thread c expired).log =
      s.log ++ [.Return thread c.len (c.got ++ s.buf.take (c.len - c.got.length))] := by
  have hl : (c.got ++ s.buf.take (c.len - c.got.length)).length = c.len := by
    simp only [List.length_append, List.length_take]
    omega
  simp only [takeBytes, Nat.min_eq_left he, hl, ↓reduceIte, returns_log]

variable (cfg : Config) (pol : Policy Tid)

section

variable (h : s.Closed) (t : Tid) (c : ReadCall) (expired : Bool)
include h t c expired

theorem readTurn_of_closed : s.readTurn cfg t c expired =
      if c.got.length ≥ c.len then s.returns t c.got.length c.got
      else if s.flags.reset then s.returns t ECANCELED c.got
      else if s.buf = [] then s.returns t (if c.got ≠ [] then c.got.length else EPIPE) c.got
      else s.takeBytes t c expired := by
  unfold readTurn
  split
  · rfl
  · by_cases hr : s.flags.reset
    · simp [readDecide, hr, EPIPE, ECANCELED]
    · by_cases hb : s.buf = []
      · simp [readDecide, hr, hb, h.closed, h.space]
      · simp [readDecide, hr, hb, h.space, List.length_pos_iff]

theorem readTurn_closed : (s.readTurn cfg t c expired).Closed := by
  rw [readTurn_of_closed cfg h]
  split_ifs
  · exact h.returns _ _ _
  · exact h.returns _ _ _
  · exact h.returns _ _ _
  · exact h.returns _ _ _
  · exact takeBytes_closed h _ _ _

theorem readTurn_flags_of_closed : (s.readTurn cfg t c expired).flags = s.flags := by
  rw [readTurn_of_closed cfg h]
  split_ifs
  · rfl
  · rfl
  · rfl
  · rfl
  · exact takeBytes_flags _ _ _ _

theorem readTurn_log_of_closed (hs : ¬ (0 < s.buf.length ∧ s.buf.length < c.len - c.got.length)) :
    (s.readTurn cfg t c expired).log = s.log ++ [.Return t (s.drain c).1 (s.drain c).2] := by
  rw [readTurn_of_closed cfg h, drain]
  split_ifs with hg hr hb
  · exact returns_log _ _ _ _
  · exact returns_log _ _ _ _
  · exact returns_log _ _ _ _
  · exact returns_log _ _ _ _
  · have hp : 0 < s.buf.length := List.length_pos_iff.mpr hb
    have he : c.len - c.got.length ≤ s.buf.length :=
      Nat.le_of_not_lt fun hlt => hs ⟨hp, hlt⟩
    exact takeBytes_log_of_le t expired (Nat.lt_of_not_ge hg) he

end

theorem drain_new {thread : Tid} {len : Nat} {timeout : Timeout} {expired : Bool}
    (hs : ¬ s.shortRead (.Read thread len timeout expired)) :
    s.drain ⟨len, [], timeout⟩ = (if len = 0 then 0
        else if s.flags.reset then ECANCELED
        else if s.buf = [] then EPIPE
        else (min len s.buf.length : Nat),
      if s.flags.reset then [] else s.buf.take len) := by
  unfold drain
  by_cases hl : len = 0
  · simp [hl]
  · by_cases hr : s.flags.reset
    · simp [hl, hr]
    · by_cases hb : s.buf = []
      · simp [hl, hr, hb]
      · have hp : 0 < s.buf.length := List.length_pos_iff.mpr hb
        have he : len ≤ s.buf.length := Nat.le_of_not_lt fun hlt => hs ⟨hp, hlt⟩
        simp [hl, hr, hb, he]

theorem writeTurn_of_closed (h : s.Closed) (thread : Tid) (c : WriteCall) (expired : Bool) :
    s.writeTurn cfg pol thread c expired = s.returns thread (if s.flags.reset then ECANCELED else EPIPE) [] := by
  by_cases hr : s.flags.reset
  · simp [writeTurn, writeDecide, hr]
  · simp [writeTurn, writeDecide, hr, h.closed]

theorem leaveWait_closed (h : s.Closed) (thread : Tid) (rc : Int) : (s.leaveWait thread rc).1.Closed := by
  simp only [leaveWait]
  split_ifs with hr hl
  · exact ⟨h.closed, h.space, fun hf => by cases hf⟩
  · exact ⟨h.closed, h.space, fun _ => hl⟩
  · exact ⟨h.closed, h.space, fun hf => absurd hf hr⟩

theorem leaveWait_frame (s : State) (thread : Tid) (rc : Int) :
    (s.leaveWait thread rc).1.log = s.log ∧ (s.leaveWait thread rc).1.buf = s.buf ∧
      ((s.leaveWait thread rc).1.flags.reset = true → s.flags.reset = true) := by
  simp only [leaveWait]
  split_ifs with hr
  · exact ⟨rfl, rfl, fun hf => by cases hf⟩
  · exact ⟨rfl, rfl, id⟩
  · exact ⟨rfl, rfl, id⟩

theorem relock_closed (h : s.Closed) (thread : Tid) (call : Call) (rc : Int) (expired : Bool) :
    (s.relock cfg pol thread call rc expired).Closed ∧
      (s.relock cfg pol thread call rc expired).flags = (s.leaveWait thread rc).1.flags := by
  have hl := leaveWait_closed h thread rc
  unfold relock
  cases call with
  | Read c =>
    have ht := readTurn_flags_of_closed cfg hl thread c expired
    dsimp only
    split_ifs
    · exact ⟨readTurn_closed cfg hl _ _ _, ht⟩
    · exact ⟨hl.returns _ _ _, rfl⟩
    · exact ⟨hl.returns _ _ _, rfl⟩
    · exact ⟨hl.returns _ _ _, rfl⟩
  | Write c =>
    dsimp only
    rw [writeTurn_of_closed cfg pol hl]
    split_ifs
    all_goals exact ⟨hl.returns _ _ _, rfl⟩

theorem relock_log_of_closed (h : s.Closed) (thread : Tid) (call : Call) (rc : Int) (expired : Bool)
    (hs : ∀ c, call = .Read c → ¬ (0 < s.buf.length ∧ s.buf.length < c.len - c.got.length)) :
    ∃ rc' bs, (s.relock cfg pol thread call rc expired).log = s.log ++ [.Return thread rc' bs] := by
  obtain ⟨hlg, hb, _⟩ := s.leaveWait_frame thread rc
  have hl := leaveWait_closed h thread rc
  unfold relock
  cases call with
  | Read c =>
    have ht := readTurn_log_of_closed cfg hl thread c expired
      (by rw [hb]; exact hs c rfl)
    dsimp only
    split_ifs
    · exact ⟨_, _, by rw [ht, hlg]⟩
    · exact ⟨_, _, by rw [returns_log, hlg]⟩
    · exact ⟨_, _, by rw [returns_log, hlg]⟩
    · exact ⟨_, _, by rw [returns_log, hlg]⟩
  | Write c =>
    dsimp only
    rw [writeTurn_of_closed cfg pol hl]
    split_ifs
    all_goals exact ⟨_, _, by rw [returns_log, hlg]⟩

theorem timeOut_closed (h : s.Closed) (thread : Tid) : (s.timeOut thread).Closed :=
  ⟨h.closed, by simp [timeOut, h.space], h.resetting⟩

theorem reset_closed (h : s.Closed) : s.reset.Closed := by
  simp only [reset]
  split
  · next hw => exact ⟨h.closed, rfl, fun _ => hw⟩
  · exact h.congr rfl rfl (Nat.le_refl _)

theorem close_closed (s : State) : s.close.Closed :=
  ⟨rfl, rfl, fun hf => by cases hf⟩

@[simp] theorem timeOut_log (s : State) (thread : Tid) : (s.timeOut thread).log = s.log := rfl

@[simp] theorem close_log (s : State) : s.close.log = s.log := rfl

@[simp] theorem reset_log (s : State) : s.reset.log = s.log := by
  simp only [reset]
  split
  · rfl
  · rfl

end State

variable {cfg : Config} {policy : Policy Tid} {s next : State} {op : Op} {thread : Tid}
  {expired : Bool}

theorem step_read {len : Nat} {timeout : Timeout}
    (hs : step cfg policy s (.Read thread len timeout expired) = some next) :
    next = s.readTurn cfg thread ⟨len, [], timeout⟩ expired := by
  simp only [step] at hs
  split at hs
  · exact (Option.some.inj hs).symm
  · cases hs

theorem step_write {data : List UInt8} {timeout : Timeout}
    (hs : step cfg policy s (.Write thread data timeout expired) = some next) :
    next = s.writeTurn cfg policy thread ⟨data, 0, timeout⟩ expired := by
  simp only [step] at hs
  split at hs
  · exact (Option.some.inj hs).symm
  · cases hs

theorem step_relock (hs : step cfg policy s (.Relock thread expired) = some next) :
    ∃ call rc, s.calls thread = some (call, .Woken rc) ∧
      next = s.relock cfg policy thread call rc expired := by
  simp only [step] at hs
  split at hs
  · next call rc hc => exact ⟨call, rc, hc, (Option.some.inj hs).symm⟩
  · cases hs

theorem step_timeOut (hs : step cfg policy s (.TimeOut thread) = some next) :
    next = s.timeOut thread := by
  simp only [step] at hs
  split at hs
  · split at hs
    · exact (Option.some.inj hs).symm
    · cases hs
  · cases hs

theorem step_closed (hc : s.Closed) (hs : step cfg policy s op = some next) :
    next.Closed := by
  cases op with
  | Read thread len timeout expired =>
    rw [step_read hs]
    exact State.readTurn_closed cfg hc _ _ _
  | Write thread data timeout expired =>
    rw [step_write hs, State.writeTurn_of_closed cfg policy hc]
    exact hc.returns _ _ _
  | Relock thread expired =>
    obtain ⟨call, rc, _, rfl⟩ := step_relock hs
    exact (State.relock_closed cfg policy hc _ _ _ _).1
  | TimeOut thread =>
    rw [step_timeOut hs]
    exact State.timeOut_closed hc _
  | Reset =>
    cases hs
    exact State.reset_closed hc
  | Close =>
    cases hs
    exact State.close_closed s

theorem step_reset_flag (hc : s.Closed) (hop : op ≠ .Reset)
    (hs : step cfg policy s op = some next) (hf : next.flags.reset = true) :
    s.flags.reset = true := by
  cases op with
  | Read thread len timeout expired =>
    rwa [step_read hs, State.readTurn_flags_of_closed cfg hc] at hf
  | Write thread data timeout expired =>
    rwa [step_write hs, State.writeTurn_of_closed cfg policy hc] at hf
  | Relock thread expired =>
    obtain ⟨call, rc, _, rfl⟩ := step_relock hs
    rw [(State.relock_closed cfg policy hc _ _ _ _).2] at hf
    exact (s.leaveWait_frame thread rc).2.2 hf
  | TimeOut thread => rwa [step_timeOut hs] at hf
  | Reset => exact absurd rfl hop
  | Close =>
    cases hs
    cases hf

theorem run_closed {before after : List Op} (hrn : run (step cfg policy) init (before ++ .Close :: after) = some s) :
    s.Closed ∧ (s.flags.reset = true → .Reset ∈ after) := by
  obtain ⟨opened, _, hr⟩ := run_append_eq_some.mp hrn
  obtain ⟨closed, hcl, ha⟩ := run_cons_eq_some.mp hr
  cases hcl
  have hcs := State.close_closed opened
  refine ⟨run_invariant State.Closed (fun _ _ => True)
    (fun _ _ _ hc _ hs => step_closed hc hs) hcs (fun _ _ _ => trivial) ha, ?_⟩
  intro hf
  by_contra hreset
  have hcr := run_invariant (fun t => t.Closed ∧ t.flags.reset = false) (fun _ op => op ≠ .Reset)
    (fun _ _ _ hc hop hs => ⟨step_closed hc.1 hs, Bool.eq_false_iff.mpr fun hn =>
      Bool.eq_false_iff.mp hc.2 (step_reset_flag hc.1 hop hs hn)⟩)
    ⟨hcs, rfl⟩ (by rintro _ op hop rfl; exact hreset hop) ha
  exact Bool.eq_false_iff.mp hcr.2 hf

theorem entersWaitFor_of_log_eq (hl : next.log = s.log) : entersWaitFor s next = false := by
  simp [entersWaitFor, hl]

theorem entersWaitFor_of_return {rc : Int} {bs : List UInt8}
    (hl : next.log = s.log ++ [.Return thread rc bs]) : entersWaitFor s next = false := by
  simp [entersWaitFor, hl]

theorem entersWaitFor_of_closed (hcl : s.Closed) (hsh : ¬ s.shortRead op)
    (hs : step cfg policy s op = some next) : entersWaitFor s next = false := by
  cases op with
  | Read thread len timeout expired =>
    rw [step_read hs]
    exact entersWaitFor_of_return (State.readTurn_log_of_closed cfg hcl _ _ _ hsh)
  | Write thread data timeout expired =>
    rw [step_write hs, State.writeTurn_of_closed cfg policy hcl]
    exact entersWaitFor_of_return (State.returns_log _ _ _ _)
  | Relock thread expired =>
    obtain ⟨call, rc, hca, rfl⟩ := step_relock hs
    obtain ⟨rc', bs, hl⟩ := State.relock_log_of_closed cfg policy hcl thread call rc
      expired (by
        intro c hc
        simpa only [State.shortRead, hca, hc] using hsh)
    exact entersWaitFor_of_return hl
  | TimeOut thread =>
    rw [step_timeOut hs]
    exact entersWaitFor_of_log_eq (State.timeOut_log _ _)
  | Reset =>
    cases hs
    exact entersWaitFor_of_log_eq (State.reset_log _)
  | Close =>
    cases hs
    exact entersWaitFor_of_log_eq (State.close_log _)

theorem closed_pipe_returns (cfg : Config) (policy : Policy Tid) (before after : List Op)
    (s : State) (hrun : run (step cfg policy) init (before ++ .Close :: after) = some s) :
    (∀ op next, step cfg policy s op = some next → ¬ s.shortRead op → entersWaitFor s next = false) ∧
    (∀ thread len timeout expired next,
      step cfg policy s (.Read thread len timeout expired) = some next →
      ¬ s.shortRead (.Read thread len timeout expired) →
      next.log = s.log ++ [.Return thread (if len = 0 then 0
          else if s.flags.reset then ECANCELED
          else if s.buf = [] then EPIPE
          else (min len s.buf.length : Nat))
        (if s.flags.reset then [] else s.buf.take len)]) ∧
    (s.flags.reset = true → .Reset ∈ after ∧ s.waiting ≠ 0) := by
  obtain ⟨hc, hr⟩ := run_closed hrun
  refine ⟨fun op next hst hs => entersWaitFor_of_closed hc hs hst, ?_,
    fun hf => ⟨hr hf, hc.resetting hf⟩⟩
  intro thread len timeout expired next hst hs
  have ht := State.readTurn_log_of_closed cfg hc thread ⟨len, [], timeout⟩ expired hs
  rw [step_read hst, ht, State.drain_new hs]

theorem closed_pipe_returns_drained : ∃ s, run (step ⟨4, false⟩ (.byPriority fun _ => 0)) init
        ([.Write 1 [7, 8] K_FOREVER false] ++ .Close :: []) = some s ∧
      ∃ next, step ⟨4, false⟩ (.byPriority fun _ => 0) s (.Read 2 2 K_FOREVER false) = some next ∧
        next.log = s.log ++ [.Return 2 2 [7, 8]] := by
  refine ⟨_, rfl, _, rfl, ?_⟩
  exact (closed_pipe_returns ⟨4, false⟩ (.byPriority fun _ => 0) [.Write 1 [7, 8] K_FOREVER false] []
    _ rfl).2.1 2 2 K_FOREVER false _ rfl (fun hs => absurd hs.2 (by decide))

-- What a read of a closed pipe is expected to return whatever its length and the flags.
def returnsRest (s next : State) (thread : Tid) (len : Nat) : Prop :=
  next.log = s.log ++ [.Return thread
    (if s.buf = [] then EPIPE else (min len s.buf.length : Nat)) (s.buf.take len)]

-- A read of two bytes that finds one takes it and enters wait_for. A read
-- during the reset of a closed pipe is cancelled. A read of no bytes succeeds.
theorem closed_pipe_waits_or_cancels : (¬ ∀ cfg policy before after s,
      run (step cfg policy) init (before ++ .Close :: after) = some s →
      ∀ op next, step cfg policy s op = some next → entersWaitFor s next = false) ∧
    (¬ ∀ cfg policy before after s, run (step cfg policy) init (before ++ .Close :: after) = some s →
      ∀ thread len timeout expired next, 0 < len → s.buf = [] →
        step cfg policy s (.Read thread len timeout expired) = some next →
        returnsRest s next thread len) ∧
    (¬ ∀ cfg policy before after s, run (step cfg policy) init (before ++ .Close :: after) = some s →
      ∀ thread len timeout expired next, s.flags.reset = false → s.buf = [] →
        step cfg policy s (.Read thread len timeout expired) = some next →
        returnsRest s next thread len) := by
  refine ⟨fun h => ?_, fun h => ?_, fun h => ?_⟩
  · have hw := h ⟨4, false⟩ (.byPriority fun _ => 0) [.Write 1 [7] K_FOREVER false] [] _ rfl
      (.Read 2 2 K_FOREVER false) _ rfl
    exact absurd hw (by decide)
  · have hc := h ⟨4, false⟩ (.byPriority fun _ => 0) [.Read 1 1 K_FOREVER false] [.Reset] _ rfl
      2 1 K_FOREVER false _ (by decide) rfl rfl
    unfold returnsRest at hc
    exact absurd hc (by decide)
  · have hn := h ⟨4, false⟩ (.byPriority fun _ => 0) [] [] _ rfl 1 0 K_FOREVER false _ rfl rfl rfl
    unfold returnsRest at hn
    exact absurd hn (by decide)

end Gale.Pipe
