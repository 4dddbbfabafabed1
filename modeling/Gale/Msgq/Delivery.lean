import Gale.Msgq.Waiters

namespace Gale.Msgq

open Lib

variable {cfg : Config}

def Return.sent (r : Return cfg) : Option (Message cfg) :=
  match r.call with
  | .Put data _ | .PutFront data => if r.ret = OK then some data else none
  | .Get _ _ => none

def Return.received (r : Return cfg) : Option (Message cfg) :=
  match r.call with
  | .Put _ _ | .PutFront _ => none
  | .Get _ _ => if r.ret = OK then some r.data else none

namespace Threads

def sent (s : Threads cfg) : List (Message cfg) := s.log.filterMap Return.sent

def received (s : Threads cfg) : List (Message cfg) := s.log.filterMap Return.received

@[simp] theorem returns_log (s : Threads cfg) (thread : Tid) (call : Call cfg) (ret : Int) (data : Message cfg) :
    (s.returns thread call ret data).log = s.log ++ [⟨thread, call, ret, data⟩] := rfl

theorem zReadyThread_log {s : Threads cfg} {thread : Tid} (call : Call cfg)
    (hc : s.calls thread = some call) (ret : Int) :
    (s.zReadyThread thread ret).log = s.log ++ [⟨thread, call, ret, s.swapData thread⟩] := by
  simp [zReadyThread, hc, returns_log]

theorem handOver_log {s : Threads cfg} {reader : Tid} (call : Call cfg)
    (hc : s.calls reader = some call) (data : Message cfg) :
    (s.handOver reader data).log = s.log ++ [⟨reader, call, OK, data⟩] := by
  unfold handOver
  rw [zReadyThread_log call]
  · simp
  · exact hc

end Threads

namespace Fifo

-- The calls that return between two states put some messages and get others.
def Moves (s s' : Fifo cfg) (put got : List (Message cfg)) : Prop :=
  ∃ returns, s'.log = s.log ++ returns ∧ returns.filterMap Return.sent = put ∧
    returns.filterMap Return.received = got

variable {s : Fifo cfg} {thread : Tid}

theorem Moves.sent {s' : Fifo cfg} {put got : List (Message cfg)} (h : Moves s s' put got) :
    s'.sent = s.sent ++ put := by
  obtain ⟨returns, hl, hp, _⟩ := h
  simp [Threads.sent, hl, hp]

theorem Moves.received {s' : Fifo cfg} {put got : List (Message cfg)} (h : Moves s s' put got) :
    s'.received = s.received ++ got := by
  obtain ⟨returns, hl, _, hg⟩ := h
  simp [Threads.received, hl, hg]

theorem Inv.reader (h : s.Inv) (hr : s.queue.length < cfg.maxMsgs) (hm : thread ∈ s.waitQ) :
    s.queue = [] ∧ ∃ data timeout, s.calls thread = some (.Get data timeout) := by
  obtain ⟨call, hc, hw⟩ := h.waits thread hm
  cases call with
  | Put data timeout =>
    have := hw.1
    omega
  | PutFront data => exact hw.elim
  | Get data timeout => exact ⟨List.length_eq_zero_iff.mp hw, data, timeout, hc⟩

theorem Inv.writer (h : s.Inv) (hq : s.queue ≠ []) (hm : thread ∈ s.waitQ) :
    ∃ timeout, s.calls thread = some (.Put (s.swapData thread) timeout) := by
  obtain ⟨call, hc, hw⟩ := h.waits thread hm
  cases call with
  | Put data timeout =>
    obtain ⟨_, hd⟩ := hw
    exact ⟨timeout, hd ▸ hc⟩
  | PutFront data => exact hw.elim
  | Get data timeout => exact absurd (List.length_eq_zero_iff.mp hw) hq

variable (pol : Policy Tid)

theorem put_moves (h : s.Inv) (thread : Tid) (data : Message cfg) (timeout : Timeout) :
    ∃ put got, Moves s (s.put pol thread data timeout) put got ∧
      s.queue ++ put = got ++ (s.put pol thread data timeout).queue := by
  by_cases hr : s.queue.length < cfg.maxMsgs
  · rcases s.zUnpendFirstThread_cases pol with ⟨_, ht⟩ | ⟨reader, hm, ht⟩
    · simp only [Fifo.put, hr, if_true, ht]
      exact ⟨[data], [], ⟨_, rfl, rfl, rfl⟩, rfl⟩
    · simp only [Fifo.put, hr, if_true, ht]
      obtain ⟨hn, buf, t', hg⟩ := h.reader hr hm
      refine ⟨[data], [data], ⟨[⟨reader, .Get buf t', OK, data⟩,
        ⟨thread, .Put data timeout, OK, data⟩], ?_, rfl, rfl⟩, by simp [hn]⟩
      rw [Threads.returns_log, Threads.handOver_log (.Get buf t')]
      · simp
      · exact hg
  · have hl : (s.zUnpendFirstThread pol).2.log = s.log := rfl
    simp only [Fifo.put, hr, if_false]
    split
    · exact ⟨[], [], ⟨_, rfl, rfl, rfl⟩, by simp⟩
    · exact ⟨[], [], ⟨[], by simp [Threads.zPendCurr, hl], rfl, rfl⟩, by simp⟩

theorem putFront_moves (h : s.Inv) (thread : Tid) (data : Message cfg) :
    ∃ put got, Moves s (s.putFront pol thread data) put got ∧
      put ++ s.queue = got ++ (s.putFront pol thread data).queue := by
  by_cases hr : s.queue.length < cfg.maxMsgs
  · rcases s.zUnpendFirstThread_cases pol with ⟨_, ht⟩ | ⟨reader, hm, ht⟩
    · simp only [Fifo.putFront, hr, if_true, ht]
      exact ⟨[data], [], ⟨_, rfl, rfl, rfl⟩, rfl⟩
    · simp only [Fifo.putFront, hr, if_true, ht]
      obtain ⟨hn, buf, t', hg⟩ := h.reader hr hm
      refine ⟨[data], [data], ⟨[⟨reader, .Get buf t', OK, data⟩,
        ⟨thread, .PutFront data, OK, data⟩], ?_, rfl, rfl⟩, by simp [hn]⟩
      rw [Threads.returns_log, Threads.handOver_log (.Get buf t')]
      · simp
      · exact hg
  · simp only [Fifo.putFront, hr, if_false]
    exact ⟨[], [], ⟨_, rfl, rfl, rfl⟩, rfl⟩

theorem get_cons (h : s.Inv) {m : Message cfg} {rest : List (Message cfg)}
    (hq : s.queue = m :: rest) (thread : Tid) (data : Message cfg) (timeout : Timeout) :
    ∃ put, Moves s (s.get pol thread data timeout) put [m] ∧ (s.get pol thread data timeout).queue = rest ++ put ∧
      ∀ o, s.calls o = none → (s.get pol thread data timeout).calls o = none := by
  rcases s.zUnpendFirstThread_cases pol with ⟨_, ht⟩ | ⟨writer, hm, ht⟩
  · simp only [Fifo.get, hq, ht]
    exact ⟨[], ⟨_, rfl, rfl, rfl⟩, by simp, fun _ hf => hf⟩
  · simp only [Fifo.get, hq, ht]
    obtain ⟨t', hp⟩ := h.writer (by simp [hq]) hm
    refine ⟨[s.swapData writer], ⟨[⟨writer, .Put (s.swapData writer) t', OK,
      s.swapData writer⟩, ⟨thread, .Get data timeout, OK, m⟩], ?_, rfl, rfl⟩, rfl, ?_⟩
    · rw [Threads.returns_log, Threads.zReadyThread_log (.Put (s.swapData writer) t')]
      · simp
      · exact hp
    · intro o hf
      by_cases heq : o = writer
      · simp [heq]
      · simpa [Function.update_of_ne heq] using hf

theorem get_moves (h : s.Inv) (thread : Tid) (data : Message cfg) (timeout : Timeout) :
    ∃ put got, Moves s (s.get pol thread data timeout) put got ∧
      s.queue ++ put = got ++ (s.get pol thread data timeout).queue := by
  cases hq : s.queue with
  | nil =>
    simp only [Fifo.get, hq]
    split
    · exact ⟨[], [], ⟨_, rfl, rfl, rfl⟩, rfl⟩
    · exact ⟨[], [], ⟨[], by simp [Threads.zPendCurr], rfl, rfl⟩, rfl⟩
  | cons m rest =>
    obtain ⟨put, hm, hqu, _⟩ := get_cons pol h hq thread data timeout
    exact ⟨put, [m], hm, by simp [hqu]⟩

theorem timeOut_moves {call : Call cfg} (hc : s.calls thread = some call) :
    Moves s { s with toThreads := s.timeOut thread } [] [] := by
  refine ⟨[⟨thread, call, EAGAIN, s.swapData thread⟩], ?_, ?_, ?_⟩
  · show (s.timeOut thread).log = _
    rw [Threads.timeOut, Threads.zReadyThread_log call]
    exact hc
  · cases call <;> rfl
  · cases call <;> rfl

end Fifo

def Op.isPurge : Op cfg → Bool
  | .Purge => true
  | _ => false

def Op.isPutFront : Op cfg → Bool
  | .PutFront _ _ => true
  | _ => false

namespace Fifo

variable (pol : Policy Tid) {s : Fifo cfg}

theorem step_moves {next : Fifo cfg} {op : Op cfg} (h : s.Inv) (hp : op.isPurge = false)
    (hs : Fifo.step pol s op = some next) :
    ∃ put got, Moves s next put got ∧
      (if op.isPutFront then put ++ s.queue else s.queue ++ put) = got ++ next.queue := by
  unfold Fifo.step at hs
  split at hs
  · next he =>
      cases hs
      cases op with
      | Put thread data timeout => exact put_moves pol h thread data timeout
      | PutFront thread data => exact putFront_moves pol h thread data
      | Get thread data timeout => exact get_moves pol h thread data timeout
      | Purge => cases hp
      | TimeOut thread =>
        simp only [enabled, Bool.and_eq_true, decide_eq_true_eq] at he
        obtain ⟨call, hc, _⟩ := h.waits thread he.1
        exact ⟨[], [], timeOut_moves hc, by simp [Op.isPutFront, Fifo.exec]⟩
  · cases hs

theorem run_sent_perm {fin : Fifo cfg} {ops : List (Op cfg)} (h : s.Inv)
    (hsn : s.sent.Perm (s.received ++ s.queue)) (ho : ∀ op ∈ ops, op.isPurge = false)
    (hr : run (Fifo.step pol) s ops = some fin) :
    fin.Inv ∧ fin.sent.Perm (fin.received ++ fin.queue) := by
  refine run_invariant (fun s : Fifo cfg => s.Inv ∧ s.sent.Perm (s.received ++ s.queue))
    (fun _ op => op.isPurge = false) ?_ ⟨h, hsn⟩ (fun _ => ho) hr
  rintro s op next ⟨hi, hpr⟩ hp hs
  refine ⟨hi.step pol hs, ?_⟩
  obtain ⟨put, got, hm, hq⟩ := step_moves pol hi hp hs
  have hc : (s.queue ++ put).Perm (got ++ next.queue) := by
    rw [← hq]
    split
    · exact List.perm_append_comm
    · exact List.Perm.refl _
  rw [hm.sent, hm.received]
  calc (s.sent ++ put).Perm (s.received ++ s.queue ++ put) := hpr.append_right put
    _ = s.received ++ (s.queue ++ put) := List.append_assoc ..
    List.Perm _ (s.received ++ (got ++ next.queue)) := hc.append_left _
    _ = s.received ++ got ++ next.queue := (List.append_assoc ..).symm

theorem run_sent_eq {fin : Fifo cfg} {ops : List (Op cfg)} (h : s.Inv) (hsn : s.sent = s.received ++ s.queue)
    (ho : ∀ op ∈ ops, op.isPurge = false ∧ op.isPutFront = false)
    (hr : run (Fifo.step pol) s ops = some fin) :
    fin.Inv ∧ fin.sent = fin.received ++ fin.queue := by
  refine run_invariant (fun s : Fifo cfg => s.Inv ∧ s.sent = s.received ++ s.queue)
    (fun _ op => op.isPurge = false ∧ op.isPutFront = false) ?_ ⟨h, hsn⟩ (fun _ => ho) hr
  rintro s op next ⟨hi, heq⟩ ⟨hp, hf⟩ hs
  refine ⟨hi.step pol hs, ?_⟩
  obtain ⟨put, got, hm, hq⟩ := step_moves pol hi hp hs
  simp only [hf, Bool.false_eq_true, if_false] at hq
  rw [hm.sent, hm.received, heq, List.append_assoc, hq, List.append_assoc]

theorem run_gets (h : s.Inv) {thread : Tid} (hf : s.calls thread = none) (data : Message cfg)
    (messages l : List (Message cfg)) (hq : s.queue = messages ++ l) :
    ∃ fin, run (Fifo.step pol) s
        (List.replicate messages.length (.Get thread data K_NO_WAIT)) = some fin ∧
      fin.received = s.received ++ messages := by
  induction messages generalizing s l with
  | nil => exact ⟨s, rfl, by simp⟩
  | cons m messages ih =>
    have hs : Fifo.step pol s (.Get thread data K_NO_WAIT) = some (s.get pol thread data K_NO_WAIT) := by
      simp [Fifo.step, enabled, hf, Fifo.exec]
    rw [List.cons_append] at hq
    obtain ⟨put, hm, hn, hc⟩ := get_cons pol h hq thread data K_NO_WAIT
    rw [List.append_assoc] at hn
    obtain ⟨fin, hrn, hr⟩ := ih (h.step pol hs) (hc thread hf) _ hn
    refine ⟨fin, run_cons_eq_some.mpr ⟨_, hs, hrn⟩, ?_⟩
    rw [hr, hm.received, List.append_assoc, List.singleton_append]

end Fifo

theorem delivery_exactly_once (policy : Policy Tid) (buffer : Nat → UInt8)
    (swapData : Tid → Message cfg) (ops : List (Op cfg)) (hops : ∀ op ∈ ops, op.isPurge = false)
    (s : State cfg) (hrun : run (step policy) (init buffer swapData) ops = some s) :
    s.sent.Perm (s.received ++ s.queue) ∧
      ((∀ op ∈ ops, op.isPutFront = false) → s.sent = s.received ++ s.queue) ∧
      ∀ thread data, s.calls thread = none → ∃ final, run (step policy) s
            (List.replicate s.usedMsgs (.Get thread data K_NO_WAIT)) = some final ∧
          final.received = s.received ++ s.queue := by
  obtain ⟨hrg, hrn⟩ :=
    (State.fifo_simulation policy).run_some (ringOk_init buffer swapData) hrun
  have hi := Fifo.inv_init swapData
  obtain ⟨hin, hp⟩ := Fifo.run_sent_perm policy hi (List.Perm.refl []) hops hrn
  refine ⟨hp, fun hpt => ?_, fun thread data hfr => ?_⟩
  · exact (Fifo.run_sent_eq policy hi rfl (fun op hop => ⟨hops op hop, hpt op hop⟩) hrn).2
  · obtain ⟨final', hg, hr⟩ := Fifo.run_gets policy hin hfr data s.queue []
      (List.append_nil _).symm
    rw [s.length_queue] at hg
    obtain ⟨final, hf, rfl⟩ := (State.fifo_simulation policy).run_inv hrg hg
    exact ⟨final, hf, hr⟩

-- A reader waits and is handed the first message, a writer waits on the full queue and is let
-- in by a get.
def handoffs : List (Op ⟨1, 1, 1, rfl⟩) :=
  [.Get 1 (fun _ => 0) K_FOREVER, .Put 2 (fun _ => 10) K_NO_WAIT, .Put 2 (fun _ => 20) K_NO_WAIT,
    .Put 3 (fun _ => 30) K_FOREVER, .Get 1 (fun _ => 0) K_NO_WAIT]

theorem delivery_exactly_once_handoffs :
    ∃ s, run (step (Policy.byPriority fun _ => 0)) (init (fun _ => 0) fun _ _ => 0) handoffs = some s ∧
      s.sent = s.received ++ s.queue ∧ s.received.length = 2 ∧ s.queue.length = 1 := by
  have hd := delivery_exactly_once (Policy.byPriority fun _ => 0) (fun _ => 0)
    (fun _ _ => 0) handoffs (by decide) _ rfl
  exact ⟨_, rfl, hd.2.1 (by decide), rfl, rfl⟩

end Gale.Msgq
