import Gale.Heap.Totals
import Gale.Kheap.Release

namespace Gale.Kheap

open Lib Heap

def Request.GivesBack (cfg : Heap.Config) (m : Session) : Request → Prop
  | .Realloc ptr bytes => ptr ≠ 0 ∧ m.heap.givesBack cfg ptr bytes
  | _ => False

namespace State

def attempts (s : State) : Op → Option Request
  | .Alloc _ bytes _ _ => some (.Alloc bytes)
  | .AlignedAlloc _ align bytes _ _ => some (.AlignedAlloc align bytes)
  | .Realloc _ ptr bytes _ _ => some (.Realloc ptr bytes)
  | .Retry thread _ => (s.calls thread).map fun entry => entry.1.request
  | _ => none

def GivesBack (cfg : Config) (s : State) (op : Op) : Prop :=
  ∃ request ∈ s.attempts op, request.GivesBack cfg.heap s.memory

-- If the step leaves more memory free, it wakes all that were pended before it.
def Wakes (cfg : Config) (s : State) (op : Op) : Prop :=
  ∀ next, step cfg s op = some next → s.memory.heap.freeTotal < next.memory.heap.freeTotal →
    ∀ thread ∈ s.waitQ, thread ∉ next.waitQ ∧ ∃ call, next.calls thread = some (call, .Woken)

end State

variable {layout : Layout} {cfg : Config} {s : State} {op : Op}

theorem Request.attempt_freeTotal {m : Session} {request : Request} (h : m.Sane layout)
    (hl : request.Legal) (hp : request.ptr = 0 ∨ request.ptr ∈ m.live.map Block.ptr) :
    m.heap.freeTotal < (request.attempt layout.cfg m).1.heap.freeTotal ↔ request.GivesBack layout.cfg m := by
  obtain ⟨held, hh, hb⟩ := h
  cases request with
  | Alloc bs =>
    have hle := hh.freeTotal_allocates (hh.sysHeapAlloc bs)
    exact iff_of_false (Nat.not_lt.mpr hle) not_false
  | AlignedAlloc al bs =>
    have hle := hh.freeTotal_allocates (hh.sysHeapAlignedAlloc hl bs)
    exact iff_of_false (Nat.not_lt.mpr hle) not_false
  | Realloc ptr bs =>
    rcases hp with hz | hm
    · cases hz
      have hle := hh.freeTotal_allocates (hh.sysHeapAlloc bs)
      exact iff_of_false (Nat.not_lt.mpr hle) fun hg => hg.1 rfl
    · obtain ⟨block, hbl, rfl⟩ := List.mem_map.mp hm
      obtain ⟨c, n, hc, hhl, hf, -⟩ := hb.placed block hbl
      have hif := hh.freeTotal_reallocates hhl hf
        (hh.sysHeapRealloc hhl hc hf bs)
      obtain ⟨starts, hi⟩ := hh
      obtain ⟨-, -, hs⟩ := hi.of_held hhl
      have hg : m.heap.givesBack layout.cfg block.ptr bs ↔ bs = 0 ∨
          layout.cfg.bytesToChunksz layout.endChunk bs (block.ptr - layout.chunkMem c) < n := by
        unfold ZHeap.givesBack
        rw [hi.memToChunkid_eq, hf.chunk, hi.chunkMem_eq, hi.endChunk, hs]
      rw [← hg] at hif
      exact hif.trans (and_iff_right hf.ne_zero).symm

theorem turn_memory (cfg : Config) (s : State) (t : Tid) (call : Call) (expired : Bool) :
    (s.turn cfg t call expired).memory = (call.request.attempt cfg.heap s.memory).1 := by
  rw [turn_eq]
  split <;> rfl

theorem mem_waitQ_turn (cfg : Config) (s : State) (t : Tid) (call : Call) (expired : Bool)
    {o : Tid} (h : o ∈ s.waitQ) : o ∈ (s.turn cfg t call expired).waitQ := by
  rw [turn_eq]
  split
  · exact h
  · exact List.mem_append_left _ h

theorem wakes_turn_iff {t : Tid} {call : Call} {expired : Bool} {lent : List Nat} (h : Valid cfg layout s)
    (hs : step cfg s op = some ({ s with lent := lent }.turn cfg t call expired))
    (ha : s.attempts op = some call.request) (hl : call.request.Legal)
    (hp : call.request.ptr = 0 ∨ s.live call.request.ptr = true) :
    s.Wakes cfg op ↔ (s.GivesBack cfg op → s.waitQ = []) := by
  have hm : s.memory.heap.freeTotal < ({ s with lent := lent }.turn cfg t call expired).memory.heap.freeTotal ↔
      s.GivesBack cfg op := by
    rw [turn_memory, ← h.cfg_eq]
    refine (Request.attempt_freeTotal h.sane hl (by simpa [State.live] using hp)).trans ?_
    unfold State.GivesBack
    rw [ha, h.cfg_eq]
    simp
  constructor
  · intro hw hg
    refine List.eq_nil_iff_forall_not_mem.mpr fun o ho => ?_
    have hgn := (hw _ hs (hm.mpr hg) o ho).1
    exact hgn (mem_waitQ_turn cfg { s with lent := lent } t call expired ho)
  · intro hn next hnx hls o ho
    cases hs.symm.trans hnx
    rw [hn (hm.mp hls)] at ho
    cases ho

theorem not_givesBack_of_none (h : s.attempts op = none) : ¬ s.GivesBack cfg op := by
  rintro ⟨request, hr, -⟩
  cases h.symm.trans hr

theorem wakes_free {t : Tid} {mem : Nat} (h : Valid cfg layout s)
    (hs : step cfg s (.Free t mem) = some (s.kHeapFree cfg mem)) :
    s.Wakes cfg (.Free t mem) := by
  intro next hn _ o ho
  cases hs.symm.trans hn
  cases hm : cfg.multithreading with
  | false =>
    rw [h.idle hm] at ho
    cases ho
  | true =>
    obtain ⟨call, hc⟩ := h.parked.waits o ho
    simp only [State.kHeapFree, hm, if_true, State.unpendAll]
    refine ⟨List.not_mem_nil, call, ?_⟩
    rw [if_pos ho, hc]
    rfl

theorem wakes_iff {next : State} (h : Valid cfg layout s) (hs : step cfg s op = some next) :
    s.Wakes cfg op ↔ (s.GivesBack cfg op → s.waitQ = []) := by
  cases op with
  | Alloc t bs timeout expired =>
    obtain ⟨-, hn⟩ := Option.ite_none_right_eq_some.mp hs
    cases hn
    exact wakes_turn_iff h hs rfl trivial (.inl rfl)
  | AlignedAlloc t al bs timeout expired =>
    obtain ⟨⟨-, ha⟩, hn⟩ := Option.ite_none_right_eq_some.mp hs
    cases hn
    exact wakes_turn_iff h hs rfl ha (.inl rfl)
  | Realloc t ptr bs timeout expired =>
    obtain ⟨⟨-, hp⟩, hn⟩ := Option.ite_none_right_eq_some.mp hs
    cases hn
    exact wakes_turn_iff h hs rfl trivial (hp.imp_right And.left)
  | Free t mem =>
    obtain ⟨-, hn⟩ := Option.ite_none_right_eq_some.mp hs
    cases hn
    exact iff_of_true (wakes_free h hs) (not_givesBack_of_none rfl).elim
  | TimeOut t =>
    obtain ⟨call, -, rfl⟩ := step_timeOut_inv hs
    refine iff_of_true ?_ (not_givesBack_of_none rfl).elim
    intro o ho hl
    cases hs.symm.trans ho
    exact absurd hl (Nat.lt_irrefl _)
  | Retry t expired =>
    obtain ⟨call, hc, hp, rfl⟩ := step_retry_inv hs
    have hat : s.attempts (.Retry t expired) = some call.request := by
      simp [State.attempts, hc]
    exact wakes_turn_iff h hs hat (h.legal t (call, .Woken) hc) hp

def sleeperCalls : List Op := [.Alloc 1 150 K_NO_WAIT false, .Alloc 2 40 K_FOREVER false]

def shrinkInPlace : Op := .Realloc 1 1084 8 K_NO_WAIT false

end Gale.Kheap
