import Gale.Kheap
import Gale.Lib.WaitQueue

namespace Gale.Kheap

open Lib Heap

namespace Request

def Legal : Request → Prop
  | .AlignedAlloc align _ => align &&& (align - 1) = 0
  | _ => True

theorem attempt_sane {layout : Layout} {m : Session} {request : Request} (h : m.Sane layout)
    (hl : request.Legal) (hp : request.ptr = 0 ∨ request.ptr ∈ m.live.map Block.ptr) :
    (request.attempt layout.cfg m).1.Sane layout := by
  cases request with
  | Alloc bs => exact h.alloc bs
  | AlignedAlloc al bs => exact h.alignedAlloc hl bs
  | Realloc ptr bs =>
    rcases hp with hz | hm
    · cases hz
      exact h.realloc_null bs
    · obtain ⟨block, hb, rfl⟩ := List.mem_map.mp hm
      exact h.realloc hb bs

theorem leaves_eq (request : Request) {ret : Nat} {isNoWait : Bool}
    (h : ret ≠ 0 → isNoWait = true) : request.leaves ret isNoWait = isNoWait := by
  cases request <;> simp only [leaves, allocActionDecide] <;> by_cases hr : ret = 0 <;>
    cases isNoWait <;> simp_all

end Request

theorem turn_eq (cfg : Config) (s : State) (tid : Tid) (call : Call) (expired : Bool) : s.turn cfg tid call expired =
      if cfg.multithreading = false ∨ (call.request.attempt cfg.heap s.memory).2 ≠ 0 ∨ call.timeout = K_NO_WAIT then
        { s with memory := (call.request.attempt cfg.heap s.memory).1 }.returns tid
          { call with frees := call.frees + call.request.frees cfg.heap s.memory }
          (call.request.attempt cfg.heap s.memory).2
      else
        { s with memory := (call.request.attempt cfg.heap s.memory).1 }.pend tid
          { call with frees := call.frees + call.request.frees cfg.heap s.memory } expired := by
  unfold State.turn
  simp only
  rw [Request.leaves_eq _ (by simp +contextual)]
  simp only [Timeout.isNoWait, Bool.or_eq_true, Bool.not_eq_eq_eq_not, Bool.not_true,
    decide_eq_true_eq, beq_iff_eq, or_assoc]

theorem forall_calls_update {property : Call × Status → Prop} {calls : Tid → Option (Call × Status)}
    (h : ∀ tid, ∀ entry ∈ calls tid, property entry) (tid : Tid)
    {next : Option (Call × Status)} (hn : ∀ entry ∈ next, property entry) :
    ∀ o, ∀ entry ∈ Function.update calls tid next o, property entry := by
  intro o entry he
  rw [Function.update_apply] at he
  split at he
  · exact hn entry he
  · exact h o entry he

structure Valid (cfg : Config) (layout : Layout) (s : State) : Prop where
  cfg_eq : layout.cfg = cfg.heap
  sane : s.memory.Sane layout
  legal : ∀ thread, ∀ entry ∈ s.calls thread, entry.1.request.Legal
  parked : Parked (fun c => ∃ call, c = some (call, Status.Pended)) s.waitQ s.calls
  idle : cfg.multithreading = false → s.waitQ = []

namespace Valid

variable {cfg : Config} {layout : Layout} {s next : State} {t : Tid} {call : Call}

theorem init (hc : layout.cfg = cfg.heap) {heap : ZHeap} {held : Nat → Option Nat}
    (h : Represents layout heap held) : Valid cfg layout (init heap) where
  cfg_eq := hc
  sane := ⟨held, h, Blocks.nil layout held⟩
  legal := by
    intro t entry he
    cases he
  parked := ⟨List.nodup_nil, by simp [Kheap.init]⟩
  idle := fun _ => rfl

section

variable (h : Valid cfg layout s)
include h

theorem turn (hl : call.request.Legal) (hp : call.request.ptr = 0 ∨ s.live call.request.ptr = true)
    (hi : ¬ ∃ o, s.calls t = some (o, .Pended)) (expired : Bool) :
    Valid cfg layout (s.turn cfg t call expired) := by
  have hsn : (call.request.attempt cfg.heap s.memory).1.Sane layout := by
    rw [← h.cfg_eq]
    exact Request.attempt_sane h.sane hl (by simpa [State.live] using hp)
  rw [turn_eq]
  split
  · refine ⟨h.cfg_eq, hsn, ?_, ?_, h.idle⟩
    · exact forall_calls_update h.legal t (by simp)
    · exact h.parked.update t (h.parked.not_mem t hi) none
  · next hst =>
      refine ⟨h.cfg_eq, hsn, ?_, ?_, fun hs => absurd (.inl hs) hst⟩
      · refine forall_calls_update h.legal t fun entry he => ?_
        cases he
        exact hl
      · exact h.parked.enqueue t hi ⟨_, rfl⟩

theorem unpendAll : Valid cfg layout s.unpendAll := by
  refine ⟨h.cfg_eq, h.sane, ?_, ⟨List.nodup_nil, by simp [State.unpendAll]⟩, fun _ => rfl⟩
  intro t entry he
  simp only [State.unpendAll] at he
  split at he
  · obtain ⟨old, ho, rfl⟩ := Option.map_eq_some_iff.mp he
    exact h.legal t old ho
  · exact h.legal t entry he

theorem kHeapFree {mem : Nat} (hm : mem = 0 ∨ s.live mem = true) : Valid cfg layout (s.kHeapFree cfg mem) := by
  have hf : Valid cfg layout { s with memory := s.memory.free cfg.heap mem } := by
    refine ⟨h.cfg_eq, ?_, h.legal, h.parked, h.idle⟩
    rw [← h.cfg_eq]
    rcases hm with rfl | hl
    · exact h.sane.free_null
    · obtain ⟨block, hb, rfl⟩ := List.mem_map.mp (show mem ∈ s.memory.live.map Block.ptr by
        simpa [State.live] using hl)
      exact h.sane.free hb
  unfold State.kHeapFree
  split
  · exact hf.unpendAll
  · exact hf

theorem timeOut (hc : s.calls t = some (call, .Pended)) : Valid cfg layout (s.timeOut t call) := by
  refine ⟨h.cfg_eq, h.sane, ?_, h.parked.dequeue t _, ?_⟩
  · refine forall_calls_update h.legal t fun entry he => ?_
    cases he
    exact h.legal t (call, .Pended) hc
  · intro hs
    rw [State.timeOut, h.idle hs]
    rfl

theorem lend (lent : List Nat) : Valid cfg layout { s with lent := lent } :=
  ⟨h.cfg_eq, h.sane, h.legal, h.parked, h.idle⟩

end

theorem not_pended_of_none (hc : s.calls t = none) : ¬ ∃ o, s.calls t = some (o, .Pended) := by
  rintro ⟨o, ho⟩
  cases hc.symm.trans ho

theorem retry (h : Valid cfg layout s) (hc : s.calls t = some (call, .Woken))
    (hp : call.request.ptr = 0 ∨ s.live call.request.ptr = true) (expired : Bool) :
    Valid cfg layout (s.retry cfg t call expired) := by
  refine Valid.turn (h.lend _) ?_ ?_ ?_ expired
  · exact h.legal t (call, .Woken) hc
  · exact hp
  · rintro ⟨o, ho⟩
    cases hc.symm.trans ho

end Valid

section Inversion

variable {cfg : Config} {s next : State} {t : Tid}

theorem step_timeOut_inv (hs : step cfg s (.TimeOut t) = some next) :
    ∃ call, s.calls t = some (call, .Pended) ∧ next = s.timeOut t call := by
  simp only [step] at hs
  split at hs
  · next call hc =>
      obtain ⟨-, hn⟩ := Option.ite_none_right_eq_some.mp hs
      exact ⟨call, hc, (Option.some.inj hn).symm⟩
  · cases hs

theorem step_retry_inv {expired : Bool} (hs : step cfg s (.Retry t expired) = some next) :
    ∃ call, s.calls t = some (call, .Woken) ∧ (call.request.ptr = 0 ∨ s.live call.request.ptr = true) ∧
      next = s.retry cfg t call expired := by
  simp only [step] at hs
  split at hs
  · next call hc =>
      obtain ⟨hp, hn⟩ := Option.ite_none_right_eq_some.mp hs
      exact ⟨call, hc, hp, (Option.some.inj hn).symm⟩
  · cases hs

end Inversion

theorem step_valid {cfg : Config} {layout : Layout} {s next : State} {op : Op}
    (h : Valid cfg layout s) (hs : step cfg s op = some next) : Valid cfg layout next := by
  cases op with
  | Alloc tid bs timeout expired =>
    obtain ⟨hc, hn⟩ := Option.ite_none_right_eq_some.mp hs
    cases hn
    refine h.turn ?_ ?_ (Valid.not_pended_of_none hc) expired
    · exact trivial
    · exact .inl rfl
  | AlignedAlloc tid al bs timeout expired =>
    obtain ⟨⟨hc, ha⟩, hn⟩ := Option.ite_none_right_eq_some.mp hs
    cases hn
    refine h.turn ?_ ?_ (Valid.not_pended_of_none hc) expired
    · exact ha
    · exact .inl rfl
  | Realloc tid ptr bs timeout expired =>
    obtain ⟨⟨hc, hp⟩, hn⟩ := Option.ite_none_right_eq_some.mp hs
    cases hn
    refine h.turn ?_ ?_ (Valid.not_pended_of_none hc) expired
    · exact trivial
    · exact hp.imp_right And.left
  | Free tid mem =>
    obtain ⟨⟨-, hm⟩, hn⟩ := Option.ite_none_right_eq_some.mp hs
    cases hn
    exact h.kHeapFree (hm.imp_right And.left)
  | TimeOut tid =>
    obtain ⟨call, hc, rfl⟩ := step_timeOut_inv hs
    exact h.timeOut hc
  | Retry tid expired =>
    obtain ⟨call, hc, hp, rfl⟩ := step_retry_inv hs
    exact h.retry hc hp expired

end Gale.Kheap
