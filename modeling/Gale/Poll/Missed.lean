import Gale.Poll.Producers

namespace Gale.Poll

open Function Lib

def emptyObjects (sizes : Nat → Nat) : (obj : Obj) → obj.State
  | .Sem _ => ⟨0, 1⟩
  | .Queue _ => (0 : Nat)
  | .Signal _ => ⟨0, 0⟩
  | .Msgq _ => ⟨0, 0, 1⟩
  | .Pipe address => ⟨0, sizes address, ⟨true, false⟩⟩

variable {events : List Event} {sizes : Nat → Nat}

theorem isConditionMet_emptyObjects (event : Event) : isConditionMet (emptyObjects sizes) event = none := by
  cases event with
  | Ignore => rfl
  | On obj => cases obj <;> rfl

theorem emptyObjects_pipesFit : State.PipesFit sizes (emptyObjects sizes) :=
  fun _ => ⟨0, ⟨true, false⟩, rfl, Nat.zero_le _⟩

theorem run_pollTurns {s : State} {i n : Nat} (hpc : s.pc = .Registering i i K_FOREVER) (hp : s.isPolling = true)
    (ho : s.objects = emptyObjects sizes) (hn : i + n = events.length) :
    ∃ fin, run (step events) s (List.replicate (n + 1) .PollTurn) = some fin ∧
      (∃ registered timeout, fin.pc = .Pended registered timeout) ∧
      fin.objects = s.objects ∧ fin.calls = s.calls := by
  induction n generalizing s i with
  | zero =>
    have hen : events[i]? = none := List.getElem?_eq_none_iff.mpr (by omega)
    refine ⟨s.pendTurn events i K_FOREVER, ?_, ?_, ?_, ?_⟩
    · simp [run, step, hpc, hen]
    · exact ⟨i, K_FOREVER, by simp [State.pendTurn, hp, Timeout.isNoWait, K_FOREVER, K_NO_WAIT]⟩
    · exact s.pendTurn_objects i K_FOREVER
    · simp [State.pendTurn, hp, Timeout.isNoWait, K_FOREVER, K_NO_WAIT]
  | succ n ih =>
    have hlt : i < events.length := by omega
    have he : events[i]? = some events[i] := List.getElem?_eq_getElem hlt
    have ht : s.registerTurn events[i] i i K_FOREVER =
        { s.registerEvent i events[i] with
          pc := .Registering (i + 1) (i + 1) K_FOREVER } := by
      simp [State.registerTurn, ho, isConditionMet_emptyObjects, hp, Timeout.isNoWait, K_FOREVER, K_NO_WAIT]
    obtain ⟨hk, hcl, hs⟩ := s.registerEvent_frame i events[i]
    obtain ⟨fin, hr, hpn, hob, hc⟩ := ih
      (s := { s.registerEvent i events[i] with
        pc := .Registering (i + 1) (i + 1) K_FOREVER })
      rfl (hs.trans hp) (hk.trans ho) (by omega)
    refine ⟨fin, ?_, hpn, hob.trans hk, hc.trans hcl⟩
    refine run_cons_eq_some.mpr ⟨_, ?_, hr⟩
    simp [step, hpc, he, ht]

-- The writer has told nobody, and holds the lock of the pipe.
def announced (sizes : Nat → Nat) (address : Nat) : State :=
  { start (emptyObjects sizes) with
    held := update (fun _ => false) (.Pipe address) true
    calls := update (fun _ => none) 0 (some (.Store address 1 K_NO_WAIT)) }

theorem run_announced {addr : Nat} (hs : 0 < sizes addr) : run (step events) (start (emptyObjects sizes))
      [.PipeWrite 0 addr 1 K_NO_WAIT, .Continue 0] = some (announced sizes addr) := by
  have hw : (start (emptyObjects sizes)).kPipeWrite 0 addr 1 K_NO_WAIT =
      { start (emptyObjects sizes) with
        held := update (fun _ => false) (.Pipe addr) true
        calls := update (fun _ => none) 0 (some (.Announce addr 1 K_NO_WAIT)) } := by
    have hd : (Pipe.writeDecide 0 (sizes addr) ⟨true, false⟩ 1 false).decision = .WriteOk := by
      simp [Pipe.writeDecide, Nat.pos_iff_ne_zero.mp hs]
    simp [State.kPipeWrite, start, emptyObjects, hd]
  refine run_cons_eq_some.mpr ⟨(start (emptyObjects sizes)).kPipeWrite 0 addr 1 K_NO_WAIT, ?_, ?_⟩
  · have hm : (start (emptyObjects sizes)).mayCall 0 (.Pipe addr) = true := rfl
    simp [step, hm]
  · rw [hw]
    refine run_cons_eq_some.mpr ⟨announced sizes addr, ?_, rfl⟩
    simp [step, State.zHandleObjPollEvents, start, announced]

theorem missed_of_pipe {addr : Nat} (he : .On (.Pipe addr) ∈ events) (hs : 0 < sizes addr) :
    ∃ ops final, run (step events) (start (emptyObjects sizes)) ops = some final ∧ ¬ NotMissed events final := by
  obtain ⟨pended, htr, hpc, ho, hc⟩ := run_pollTurns
    (s := { announced sizes addr with isPolling := true, pc := .Registering 0 0 K_FOREVER })
    rfl rfl rfl (Nat.zero_add events.length)
  have hcl : pended.calls 0 = some (.Store addr 1 K_NO_WAIT) := by
    rw [hc]
    rfl
  have hp : pended.objects (.Pipe addr) = (⟨0, sizes addr, ⟨true, false⟩⟩ : PipeBuffer) := by
    rw [ho]
    rfl
  have hw : min 1 (sizes addr - 0) = 1 := by omega
  have hst : pended.pipeStore 0 addr 1 K_NO_WAIT =
      { pended.setObject (.Pipe addr) (⟨1, sizes addr, ⟨true, false⟩⟩ : PipeBuffer) with
        held := update pended.held (.Pipe addr) false
        calls := update pended.calls 0 none } := by
    simp only [State.pipeStore, hp, hw, if_true]
    rfl
  refine ⟨[.PipeWrite 0 addr 1 K_NO_WAIT, .Continue 0] ++
    (.Enter K_FOREVER :: (List.replicate (events.length + 1) .PollTurn ++ [.Continue 0])),
    pended.pipeStore 0 addr 1 K_NO_WAIT, ?_, fun hm => ?_⟩
  · refine run_append_eq_some.mpr ⟨_, run_announced hs, run_cons_eq_some.mpr ⟨_, rfl, ?_⟩⟩
    refine run_append_eq_some.mpr ⟨pended, htr, run_cons_eq_some.mpr ⟨_, ?_, rfl⟩⟩
    simp [step, hcl]
  · rw [hst] at hm
    have hn := hm hpc (fun t => ?_) _ he
    · have hnw : isConditionMet (pended.setObject (.Pipe addr)
          (⟨1, sizes addr, ⟨true, false⟩⟩ : PipeBuffer)).objects (.On (.Pipe addr)) = some .PipeDataAvailable := by
        simp [isConditionMet, State.setObject, isAvailable]
      cases hnw.symm.trans hn
    · by_cases ht : t = 0
      · simp [ht]
      · simp [update_of_ne ht, hc, announced]

theorem no_producer_missed_iff (events : List Event) (sizes : Nat → Nat) :
    (∀ objects, State.PipesFit sizes objects → ∀ ops,
      Throughout (step events) (NotMissed events) (start objects) ops) ↔
    ∀ address, .On (.Pipe address) ∈ events → sizes address = 0 := by
  constructor
  · intro hsf address hev
    by_contra hsize
    obtain ⟨ops, final, hr, hm⟩ := missed_of_pipe hev (Nat.pos_of_ne_zero hsize)
    exact hm ((hsf _ emptyObjects_pipesFit ops).last hr)
  · intro he objects hf ops
    have hi : Throughout (step events)
        (fun s => s.Inv events ∧ State.PipesFit sizes s.objects) (start objects) ops := by
      refine throughout_of_step (fun _ _ _ h hs => ?_) ?_ ops
      · exact ⟨step_inv h.1 hs, step_pipesFit h.2 hs⟩
      · exact ⟨State.start_inv objects, hf⟩
    exact hi.mono fun _ h => notMissed_of_inv h.1 h.2 he

-- One pipe of four bytes, empty. The writer of one byte finds no poller to tell;
-- k_poll finds the ring empty, registers and pends; the byte is stored and the
-- write returns.
theorem no_producer_missed_fails : ∃ final, run (step [.On (.Pipe 0)]) (start (emptyObjects fun _ => 4))
        [.PipeWrite 0 0 1 K_FOREVER, .Continue 0, .Enter K_FOREVER, .PollTurn, .PollTurn,
          .Continue 0] = some final ∧
      final.pc = .Pended 1 K_FOREVER ∧ (∀ thread, final.calls thread = none) ∧
      isConditionMet final.objects (.On (.Pipe 0)) = some .PipeDataAvailable := by
  refine ⟨_, rfl, rfl, fun thread => ?_, rfl⟩
  cases thread with
  | zero | succ _ => rfl

end Gale.Poll
