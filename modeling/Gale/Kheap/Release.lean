import Gale.Heap.Integrity
import Gale.Kheap.Invariant
import Gale.Lib.Memory

namespace Gale.Kheap

open Function

open Lib Heap

-- How often the call gave up the block it had: it freed it, or it returned the same
-- memory as the new block.
def Reallocated.releases (r : Reallocated) : Nat := r.frees + if r.ret = r.given.ptr then 1 else 0

def Reallocated.Once (r : Reallocated) : Prop :=
  r.frees ≤ 1 ∧ (r.ret = 0 ∧ r.releases = 0 ∧ r.live = true ∨ r.releases = 1)

def State.ReleasesOnce (s : State) : Prop :=
  (∀ thread, ∀ entry ∈ s.calls thread, entry.1.frees ≤ 1) ∧ ∀ r ∈ s.log, r.Once

def Op.Within (calls : Set (Nat × Timeout)) : Op → Prop
  | .Realloc _ ptr bytes timeout _ => ptr ≠ 0 → (bytes, timeout) ∈ calls
  | _ => True

variable {layout : Layout} {m : Session} {block : Block}

theorem ptr_ne_zero (h : m.Sane layout) (hbl : block ∈ m.live) : block.ptr ≠ 0 := by
  obtain ⟨held, -, hb⟩ := h
  obtain ⟨c, n, -, -, hf, -⟩ := hb.placed block hbl
  exact hf.ne_zero

theorem realloc_cases (h : m.Sane layout) (hbl : block ∈ m.live) (bs : Nat) :
    (bs ≠ 0 ∧ (m.realloc layout.cfg block.ptr bs).2 = 0 ∧ m.heap.reallocFrees layout.cfg block.ptr bs = 0 ∧
        block ∈ (m.realloc layout.cfg block.ptr bs).1.live) ∨
      (((m.realloc layout.cfg block.ptr bs).2 = 0 → bs = 0) ∧ m.heap.reallocFrees layout.cfg block.ptr bs +
          (if (m.realloc layout.cfg block.ptr bs).2 = block.ptr then 1 else 0) = 1) := by
  obtain ⟨held, hhp, hbc⟩ := h
  obtain ⟨c, n, hc, hh, hft, -⟩ := hbc.placed block hbl
  have hr := hhp.sysHeapRealloc hh hc hft bs
  unfold Session.realloc
  generalize m.heap.sysHeapRealloc layout.cfg block.ptr bs = result at hr ⊢
  generalize m.heap.reallocFrees layout.cfg block.ptr bs = frees at hr ⊢
  have hp := hft.ne_zero
  cases hr with
  | Released hb _ => exact .inr ⟨fun _ => hb, by rw [if_neg hp.symm]⟩
  | InPlace _ _ _ _ => exact .inr ⟨fun hrt => absurd hrt hp, by rw [if_pos rfl]⟩
  | @Moved _ ptr' c' _ _ _ hheld' _ hf _ =>
    have hne : ptr' ≠ block.ptr := by
      rintro rfl
      have heq : c = c' := hft.chunk.symm.trans hf.chunk
      subst heq
      cases hh.symm.trans hheld'
    exact .inr ⟨fun hrt => absurd hrt hf.ne_zero, by rw [if_neg hne]⟩
  | Failed hb _ _ =>
    refine .inl ⟨hb, rfl, rfl, ?_⟩
    simp only [hp, hb, if_false, if_true]
    exact hbl

theorem Request.mem_live_attempt {cfg : Heap.Config} {request : Request} (hb : block ∈ m.live)
    (hne : request.ptr = 0 ∨ block.ptr ≠ request.ptr) :
    block ∈ (request.attempt cfg m).1.live := by
  have hg : ∀ live ptr bs align, block ∈ live → block ∈ Session.grant live ptr bs align := by
    intro live ptr bs align hm
    unfold Session.grant
    split
    · exact hm
    · exact List.mem_cons_of_mem _ hm
  cases request with
  | Alloc bs | AlignedAlloc align bs => exact hg _ _ _ _ hb
  | Realloc ptr bs =>
    simp only [Request.ptr] at hne
    simp only [attempt, Session.realloc]
    by_cases hz : ptr = 0
    · rw [if_pos hz]
      exact hg _ _ _ _ hb
    · have hne := hne.resolve_left hz
      have hd : block ∈ Session.drop m.live ptr :=
        List.mem_filter.mpr ⟨hb, by simpa using hne⟩
      rw [if_neg hz]
      split
      · exact hd
      · split
        · exact hb
        · split
          · exact List.mem_map.mpr ⟨block, hb, by rw [if_neg hne]⟩
          · exact hg _ _ _ _ hd

structure Keeps (s : State) (call : Call) : Prop where
  frees : call.frees = 0
  owns : call.request.ptr = 0 ∧ call.given = none ∨
    ∃ block bytes, call.given = some block ∧ call.request = .Realloc block.ptr bytes ∧ bytes ≠ 0 ∧
      block ∈ s.memory.live ∧ block.ptr ∈ s.lent

def State.call (s : State) (thread : Tid) : Option Call := (s.calls thread).map Prod.fst

theorem Keeps.mono {s next : State} {call : Call} (h : Keeps s call)
    (hl : ∀ block ∈ s.memory.live, block.ptr = call.request.ptr → block.ptr ∈ s.lent → block ∈ next.memory.live)
    (hln : ∀ ptr ∈ s.lent, ptr = call.request.ptr → ptr ∈ next.lent) : Keeps next call := by
  refine ⟨h.frees, h.owns.imp_right ?_⟩
  rintro ⟨block, bs, hg, hr, hby, hb, hm⟩
  have hp : block.ptr = call.request.ptr := by rw [hr]; rfl
  exact ⟨block, bs, hg, hr, hby, hl block hb hp hm, hln _ hm hp⟩

section Call

variable (s : State) (t : Tid) (call : Call)

theorem call_returns (ret : Nat) : (s.returns t call ret).call = update s.call t none := by
  funext o
  by_cases heq : o = t <;> simp [State.call, State.returns, heq]

theorem call_pend (expired : Bool) : (s.pend t call expired).call = update s.call t
      (some { call with timeout := sysTimepointTimeout call.timeout expired }) := by
  funext o
  by_cases heq : o = t <;> simp [State.call, State.pend, heq]

theorem call_unpendAll : s.unpendAll.call = s.call := by
  funext o
  simp only [State.call, State.unpendAll]
  split
  · rw [Option.map_map]
    rfl
  · rfl

theorem call_timeOut {st : Status} (hc : s.calls t = some (call, st)) : (s.timeOut t call).call = s.call := by
  funext o
  by_cases heq : o = t <;> simp [State.call, State.timeOut, heq, hc]

end Call

structure Ready (s : State) (thread : Tid) (call : Call) : Prop where
  frees : call.frees = 0
  owns : call.request.ptr = 0 ∧ call.given = none ∨
    ∃ block bytes, call.given = some block ∧ call.request = .Realloc block.ptr bytes ∧
      (bytes = 0 → call.timeout = K_NO_WAIT) ∧ block ∈ s.memory.live
  others : ∀ other ≠ thread, ∀ call' ∈ s.call other, Keeps s call'
  apart : ∀ other ≠ thread, ∀ call' ∈ s.call other, call.request.ptr ≠ 0 →
    call'.request.ptr ≠ call.request.ptr

def Apart (calls : Tid → Option Call) : Prop :=
  ∀ thread other, ∀ call ∈ calls thread, ∀ call' ∈ calls other,
    call.request.ptr ≠ 0 → call.request.ptr = call'.request.ptr → thread = other

structure Inv (cfg : Config) (layout : Layout) (s : State) : Prop where
  valid : Valid cfg layout s
  keeps : ∀ thread, ∀ call ∈ s.call thread, Keeps s call
  apart : Apart s.call
  once : ∀ r ∈ s.log, r.Once

namespace Ready

variable {cfg : Config} {lo : Layout} {s : State} {thread : Tid} {call : Call}

theorem attempt (h : Ready s thread call) (hv : Valid cfg lo s) :
    (call.given = none ∧ call.request.frees cfg.heap s.memory = 0) ∨ ∃ block, call.given = some block ∧
        (((call.request.attempt cfg.heap s.memory).2 = 0 ∧ call.request.frees cfg.heap s.memory = 0 ∧ block.ptr ≠ 0 ∧
            block ∈ (call.request.attempt cfg.heap s.memory).1.live ∧
            ∃ bs, call.request = .Realloc block.ptr bs ∧ bs ≠ 0) ∨
          (((call.request.attempt cfg.heap s.memory).2 = 0 → call.timeout = K_NO_WAIT) ∧
            call.request.frees cfg.heap s.memory +
              (if (call.request.attempt cfg.heap s.memory).2 = block.ptr then 1 else 0) = 1)) := by
  rcases h.owns with ⟨hp, hnn⟩ | ⟨block, bs, hg, hr, hn, hb⟩
  · refine .inl ⟨hnn, ?_⟩
    cases hr : call.request with
    | Alloc bs | AlignedAlloc al bs => rfl
    | Realloc ptr bs =>
      rw [hr] at hp
      exact if_pos hp
  · refine .inr ⟨block, hg, ?_⟩
    rw [hr, ← hv.cfg_eq]
    rcases realloc_cases hv.sane hb bs with ⟨hby, hrt, hf, hl⟩ | ⟨hrt, hs⟩
    · exact .inl ⟨hrt, hf, ptr_ne_zero hv.sane hb, hl, bs, rfl, hby⟩
    · exact .inr ⟨fun hz => hn (hrt hz), hs⟩

theorem others_keep (h : Ready s thread call) {next : State} {o : Tid} {call' : Call}
    (ho : o ≠ thread) (hc : call' ∈ s.call o)
    (hm : next.memory = (call.request.attempt cfg.heap s.memory).1)
    (hl : ∀ ptr ∈ s.lent, ptr ∈ next.lent) : Keeps next call' := by
  refine (h.others o ho call' hc).mono ?_ fun ptr hp _ => hl ptr hp
  intro block hb hp _
  rw [hm]
  refine Request.mem_live_attempt hb ?_
  by_cases hz : call.request.ptr = 0
  · exact .inl hz
  · refine .inr ?_
    rw [hp]
    exact h.apart o ho call' hc hz

theorem apart_update (h : Ready s thread call) (ha : Apart s.call) {next : Option Call}
    (hn : ∀ c ∈ next, c.request = call.request) :
    Apart (update s.call thread next) := by
  intro t o c hc c' hc' hp heq
  rcases update_cases hc with ⟨ht, hc⟩ | ⟨ht, hc⟩
  · rcases update_cases hc' with ⟨ho, -⟩ | ⟨ho, hc'⟩
    · rw [ht, ho]
    · rw [hn c hc] at hp heq
      exact absurd heq.symm (h.apart o ho c' hc' hp)
  · rcases update_cases hc' with ⟨-, hc'⟩ | ⟨-, hc'⟩
    · rw [hn c' hc'] at heq
      exact absurd heq (h.apart t ht c hc (heq ▸ hp))
    · exact ha t o c hc c' hc' hp heq

theorem turn (h : Ready s thread call) (hv : Valid cfg lo s)
    (ha : Apart s.call) (honce : ∀ r ∈ s.log, r.Once) {expired : Bool}
    (ht : Valid cfg lo (s.turn cfg thread call expired)) :
    Inv cfg lo (s.turn cfg thread call expired) := by
  have hat := h.attempt hv
  rw [turn_eq] at ht ⊢
  split at ht
  · next hlv =>
      rw [if_pos hlv]
      refine ⟨ht, ?_, ?_, ?_⟩
      · intro o c' hcl
        rw [call_returns] at hcl
        by_cases heq : o = thread
        · rw [heq, update_self] at hcl
          cases hcl
        · rw [update_of_ne heq] at hcl
          exact h.others_keep heq hcl rfl fun _ hp => hp
      · rw [call_returns]
        exact h.apart_update ha (by simp)
      · intro r hr
        rcases hat with ⟨hn, -⟩ | ⟨block, hg, hcs⟩
        · simp only [State.returns, hn] at hr
          exact honce r hr
        · simp only [State.returns, hg, List.mem_append, List.mem_singleton] at hr
          rcases hr with hr | rfl
          · exact honce r hr
          · simp only [Reallocated.Once, Reallocated.releases, h.frees, Nat.zero_add]
            rcases hcs with ⟨hrt, hf, hp, hl, -⟩ | ⟨-, hsm⟩
            · rw [hrt, hf, if_neg hp.symm]
              exact ⟨Nat.zero_le 1, .inl ⟨rfl, rfl, by simpa using hl⟩⟩
            · exact ⟨by omega, .inr hsm⟩
  · next hs =>
      rw [if_neg hs]
      have hln : ∀ ptr ∈ s.lent, ptr ∈ (State.pend
          { s with memory := (call.request.attempt cfg.heap s.memory).1 } thread
          { call with frees := call.frees + call.request.frees cfg.heap s.memory } expired).lent := by
        intro ptr hp
        simp only [State.pend]
        split
        · exact List.mem_cons_of_mem _ hp
        · exact hp
      refine ⟨ht, ?_, ?_, honce⟩
      · intro o c' hcl
        rw [call_pend] at hcl
        by_cases heq : o = thread
        · rw [heq, update_self] at hcl
          cases hcl
          rcases hat with ⟨hn, hf⟩ | ⟨block, hg, hcs⟩
          · refine ⟨by simp only [h.frees, hf], .inl ⟨?_, hn⟩⟩
            rcases h.owns with hz | ⟨block, -, hg, -⟩
            · exact hz.1
            · cases hn.symm.trans hg
          · rcases hcs with ⟨-, hf, -, hl, bs, hrq, hb⟩ | ⟨hnw, -⟩
            · refine ⟨by simp only [h.frees, hf], .inr ⟨block, bs, hg, hrq, hb, hl, ?_⟩⟩
              have hp : call.request.ptr = block.ptr := by rw [hrq]; rfl
              simp only [State.pend, hg, h.frees, hf, hp]
              exact List.mem_cons_self
            · exact absurd (.inr (by
                by_cases hrt : (call.request.attempt cfg.heap s.memory).2 = 0
                · exact .inr (hnw hrt)
                · exact .inl hrt)) hs
        · rw [update_of_ne heq] at hcl
          exact h.others_keep heq hcl rfl hln
      · rw [call_pend]
        refine h.apart_update ha fun c hc => ?_
        cases hc
        rfl

end Ready

namespace Inv

variable {cfg : Config} {lo : Layout} {s next : State} {thread : Tid} {call : Call}

theorem init (hcf : lo.cfg = cfg.heap) {heap : ZHeap} {held : Nat → Option Nat}
    (h : Represents lo heap held) : Inv cfg lo (init heap) where
  valid := Valid.init hcf h
  keeps := by
    intro thread call hc
    cases hc
  apart := by
    intro thread o call hc
    cases hc
  once := by
    intro r hr
    cases hr

section

variable (h : Inv cfg lo s)
include h

theorem releasesOnce : s.ReleasesOnce := by
  refine ⟨fun thread entry he => ?_, h.once⟩
  have hk := h.keeps thread entry.1 (Option.mem_map_of_mem Prod.fst he)
  exact hk.frees.le.trans (Nat.zero_le 1)

theorem mem_lent (hc : call ∈ s.call thread) (hp : call.request.ptr ≠ 0) : call.request.ptr ∈ s.lent := by
  rcases (h.keeps thread call hc).owns with hz | ⟨block, bs, -, hr, -, -, hl⟩
  · exact absurd hz.1 hp
  · rw [hr]
    exact hl

theorem ready (hf : call.frees = 0) (ho : call.request.ptr = 0 ∧ call.given = none ∨
      ∃ block bs, call.given = some block ∧ call.request = .Realloc block.ptr bs ∧
        (bs = 0 → call.timeout = K_NO_WAIT) ∧ block ∈ s.memory.live ∧ block.ptr ∉ s.lent) :
    Ready s thread call := by
  refine ⟨hf, ?_, fun o _ => h.keeps o, ?_⟩
  · refine ho.imp_right ?_
    rintro ⟨block, bs, hg, hr, hn, hb, -⟩
    exact ⟨block, bs, hg, hr, hn, hb⟩
  · intro o _ c' hc hp heq
    rcases ho with hz | ⟨block, bs, -, hr, -, -, hfr⟩
    · exact hp hz.1
    · have hl := h.mem_lent hc (heq ▸ hp)
      rw [heq, hr] at hl
      exact hfr hl

theorem realloc {ptr bs : Nat} {timeout : Timeout} {expired : Bool}
    (hs : step cfg s (.Realloc thread ptr bs timeout expired) = some next)
    (hn : ptr ≠ 0 → bs = 0 → timeout = K_NO_WAIT) : Inv cfg lo next := by
  have hnx := step_valid h.valid hs
  obtain ⟨⟨-, hp⟩, heq⟩ := Option.ite_none_right_eq_some.mp hs
  cases heq
  refine (h.ready rfl ?_).turn h.valid h.apart h.once hnx
  rcases hp with rfl | ⟨hl, hfr⟩
  · refine .inl ⟨rfl, List.find?_eq_none.mpr fun block hb => ?_⟩
    simpa using ptr_ne_zero h.valid.sane hb
  · obtain ⟨block, hf⟩ : ∃ block, s.memory.live.find? (·.ptr = ptr) = some block := by
      obtain ⟨block, hb, hp⟩ := List.mem_map.mp (of_decide_eq_true hl)
      exact Option.isSome_iff_exists.mp (List.find?_isSome.mpr ⟨block, hb, by simpa using hp⟩)
    have hb := List.mem_of_find?_eq_some hf
    have heq : block.ptr = ptr := by simpa using List.find?_some hf
    subst heq
    exact .inr ⟨block, bs, hf, rfl, hn (ptr_ne_zero h.valid.sane hb), hb, hfr⟩

theorem retry (hcl : s.calls thread = some (call, .Woken)) {expired : Bool}
    (hn : Valid cfg lo (s.retry cfg thread call expired)) :
    Inv cfg lo (s.retry cfg thread call expired) := by
  have how : call ∈ s.call thread := by
    rw [State.call, hcl]
    rfl
  have hk := h.keeps thread call how
  have ha : ∀ o ≠ thread, ∀ c' ∈ s.call o, call.request.ptr ≠ 0 → c'.request.ptr ≠ call.request.ptr := by
    intro o ho c' hc hp heq
    exact ho (h.apart thread o call how c' hc hp heq.symm).symm
  have hrd : Ready { s with lent :=
      if call.given.isSome ∧ call.frees = 0 then s.lent.erase call.request.ptr else s.lent }
      thread call := by
    refine ⟨hk.frees, ?_, ?_, ha⟩
    · refine hk.owns.imp_right ?_
      rintro ⟨block, bs, hg, hr, hby, hb, -⟩
      exact ⟨block, bs, hg, hr, fun hz => absurd hz hby, hb⟩
    · intro o ho c' hc
      refine (h.keeps o c' hc).mono (fun block hb _ _ => hb) ?_
      intro ptr hp heq
      simp only
      split
      · next hl =>
          refine (List.mem_erase_of_ne ?_).mpr hp
          rw [heq]
          refine ha o ho c' hc ?_
          rcases hk.owns with hz | ⟨block, bs, -, hr, -, hb, -⟩
          · rw [hz.2] at hl
            cases hl.1
          · rw [hr]
            exact ptr_ne_zero h.valid.sane hb
      · exact hp
  exact hrd.turn (h.valid.lend _) h.apart h.once hn

theorem kHeapFree {mem : Nat} (hmm : mem = 0 ∨ s.live mem = true ∧ mem ∉ s.lent) :
    Inv cfg lo (s.kHeapFree cfg mem) := by
  have hn := h.valid.kHeapFree (hmm.imp_right And.left)
  have hlv : ∀ block ∈ s.memory.live, block.ptr ∈ s.lent → block ∈ (s.memory.free cfg.heap mem).live := by
    intro block hb hl
    refine List.mem_filter.mpr ⟨hb, ?_⟩
    rcases hmm with rfl | ⟨-, hf⟩
    · simpa using ptr_ne_zero h.valid.sane hb
    · rw [decide_eq_true_eq]
      rintro rfl
      exact hf hl
  unfold State.kHeapFree at hn ⊢
  split at hn
  · next hm =>
      rw [if_pos hm]
      refine ⟨hn, ?_, ?_, h.once⟩
      · intro thread call hc
        rw [call_unpendAll] at hc
        exact (h.keeps thread call hc).mono (fun block hb _ => hlv block hb)
          fun ptr hp _ => hp
      · rw [call_unpendAll]
        exact h.apart
  · next hs =>
      rw [if_neg hs]
      refine ⟨hn, ?_, h.apart, h.once⟩
      intro thread call hc
      exact (h.keeps thread call hc).mono (fun block hb _ => hlv block hb)
        fun ptr hp _ => hp

theorem timeOut (hcl : s.calls thread = some (call, .Pended)) : Inv cfg lo (s.timeOut thread call) := by
  refine ⟨h.valid.timeOut hcl, ?_, ?_, h.once⟩
  · intro o c' hc
    rw [call_timeOut s thread call hcl] at hc
    exact ⟨(h.keeps o c' hc).frees, (h.keeps o c' hc).owns⟩
  · rw [call_timeOut s thread call hcl]
    exact h.apart

end

end Inv

theorem step_inv {cfg : Config} {s next : State} {op : Op} {calls : Set (Nat × Timeout)}
    (hcl : ∀ bs timeout, (bs, timeout) ∈ calls → bs = 0 → timeout = K_NO_WAIT)
    (h : Inv cfg layout s) (hw : op.Within calls) (hs : step cfg s op = some next) :
    Inv cfg layout next := by
  have hn := step_valid h.valid hs
  cases op with
  | Alloc thread bs timeout expired | AlignedAlloc thread al bs timeout expired =>
    obtain ⟨-, heq⟩ := Option.ite_none_right_eq_some.mp hs
    cases heq
    exact (h.ready rfl (.inl ⟨rfl, rfl⟩)).turn h.valid h.apart h.once hn
  | Realloc thread ptr bs timeout expired =>
    exact h.realloc hs fun hp => hcl bs timeout (hw hp)
  | Free thread mem =>
    obtain ⟨⟨-, hm⟩, heq⟩ := Option.ite_none_right_eq_some.mp hs
    cases heq
    exact h.kHeapFree hm
  | TimeOut thread =>
    obtain ⟨call, hc, rfl⟩ := step_timeOut_inv hs
    exact h.timeOut hc
  | Retry thread expired =>
    obtain ⟨call, hc, -, rfl⟩ := step_retry_inv hs
    exact h.retry hc hn

def threaded : Config := ⟨smallHeap, true⟩

-- The first thread reallocates its block to size 0: the block is free, and the thread
-- sleeps. The second thread gets the same memory, and then something else is freed.
def releasesAgain (timeout : Timeout) : List Op :=
  [.Alloc 1 20 K_NO_WAIT false, .Alloc 2 20 K_NO_WAIT false, .Realloc 1 1084 0 timeout true,
    .Alloc 2 20 K_NO_WAIT false, .Free 3 1116, .Retry 1 true]

theorem step_realloc_ticks {cfg : Config} (s : State) (thread : Tid) (ptr bs n : Nat) :
    step cfg s (.Realloc thread ptr bs (.Ticks (n + 1)) true) =
      step cfg s (.Realloc thread ptr bs (.Ticks 1) true) := by
  simp [step, turn_eq, State.returns, State.pend, sysTimepointTimeout, K_NO_WAIT]

theorem run_releasesAgain {timeout : Timeout} (h : timeout ≠ K_NO_WAIT) :
    ∃ heap after, sysHeapInit threaded.heap blank 1024 256 = some heap ∧
      run (step threaded) (init heap) (releasesAgain timeout) = some after ∧
      ¬ after.ReleasesOnce := by
  have hch : ((sysHeapInit threaded.heap blank 1024 256).bind fun heap =>
      (run (step threaded) (init heap) (releasesAgain timeout)).map fun after =>
        (after.calls 1).any (fun entry => 1 < entry.1.frees) ||
        after.log.any fun r => 1 < r.frees) = some true := by
    match timeout with
    | .Forever => decide +kernel
    | .Ticks 0 => exact absurd rfl h
    | .Ticks (n + 1) =>
      simp only [releasesAgain, run, step_realloc_ticks]
      decide +kernel
  obtain ⟨heap, hh, hch⟩ := Option.bind_eq_some_iff.mp hch
  obtain ⟨after, ha, hch⟩ := Option.map_eq_some_iff.mp hch
  refine ⟨heap, after, hh, ha, fun honce => ?_⟩
  rw [Bool.or_eq_true] at hch
  rcases hch with hc | hl
  · obtain ⟨entry, he, hm⟩ := (Option.any_eq_true _ _).mp hc
    exact absurd (honce.1 1 entry he) (Nat.not_le.mpr (of_decide_eq_true hm))
  · obtain ⟨r, hr, hm⟩ := List.any_eq_true.mp hl
    exact absurd (honce.2 r hr).1 (Nat.not_le.mpr (of_decide_eq_true hm))

end Gale.Kheap
