import Gale.Usage.Once

namespace Gale.Usage

open Lib

-- A clock that stands still but for one tick before its k-th reading.
def jump (k i : Nat) : Nat := if i < k then 1 else 2

theorem jump_le (k i : Nat) : jump k i ≤ 2 := by
  unfold jump
  split <;> omega

theorem jump_pos (k i : Nat) : 1 ≤ jump k i := by
  unfold jump
  split <;> omega

theorem jump_legal (k : Nat) : Legal (jump k) where
  nonzero := by
    intro i
    have hle := jump_le k i
    have hp := jump_pos k i
    simp only [U32]
    omega
  mono := by
    intro i
    unfold jump
    split <;> split <;> omega
  close := by
    intro i
    have hle := jump_le k (i + 1)
    simp only [U32]
    omega

structure Flushed (clock : Nat → Nat) (h : History) (p : Shape) : Prop where
  cpu : ∀ j, p.cpuFlushed = some j → ∃ i, p.opened = some i ∧ i < j ∧ j < p.reads ∧
    clock j ≤ clock i + h.state.cpu.usage.total
  thread : ∀ j, p.threadFlushed = some j → ∃ i, p.opened = some i ∧ i < j ∧ j < p.reads ∧
    clock j ≤ clock i + (h.state.threads p.current).total

section Step

variable {clock : Nat → Nat} {h after : History} {p : Shape} {op : Op}

theorem flushed_next {charges : Bool} {fl : Option Nat} {before total : Nat}
    (hb : ∀ j, fl = some j → ∃ i, p.opened = some i ∧ i < j ∧ j < p.reads ∧ clock j ≤ clock i + before)
    (hst : p.moves op = false)
    (hch : charges = true → p.readsClock op = true ∧ fl = none ∧
      ∃ i, p.opened = some i ∧ i < p.reads ∧ clock p.reads ≤ clock i + total)
    (hs : charges = false → total = before) :
    ∀ j, (if charges = true then fl.or (some p.reads) else fl) = some j →
      ∃ i, (p.next op).opened = some i ∧ i < j ∧ j < (p.next op).reads ∧ clock j ≤ clock i + total := by
  intro j hj
  rw [p.opened_next_of_stays op hst]
  cases hc : charges with
  | true =>
    obtain ⟨hr, hn, i, hi, hlt, hclock⟩ := hch hc
    rw [hc, if_pos rfl, hn, Option.none_or] at hj
    cases hj
    refine ⟨i, hi, hlt, ?_, hclock⟩
    rw [Shape.reads_next, if_pos hr]
    exact Nat.lt_succ_self _
  | false =>
    rw [hc, if_neg Bool.false_ne_true] at hj
    obtain ⟨i, hi, hij, hlt, hclock⟩ := hb j hj
    refine ⟨i, hi, hij, Nat.lt_of_lt_of_le hlt (p.reads_le_next op), ?_⟩
    rwa [hs hc]

theorem Inv.cpu_small (hsmall : ∀ i, clock i ≤ 2) (hinv : Inv clock h p) : h.state.cpu.usage.total ≤ 2 := by
  cases hf : p.first with
  | none =>
    rw [(hinv.unstarted hf).1]
    omega
  | some f =>
    have hc := hinv.cpu f hf
    have hm := hsmall p.cpuMark
    omega

theorem Inv.total_small (hsmall : ∀ i, clock i ≤ 2) (hinv : Inv clock h p) (t : Tid) :
    (h.state.threads t).total ≤ 2 := by
  cases hf : p.first with
  | none =>
    rw [(hinv.unstarted hf).2]
    omega
  | some f =>
    have ht := hinv.total f hf t
    have hm := hsmall (p.threadMark t)
    omega

theorem cycles_small (hclock : Legal clock) (hsmall : ∀ i, clock i ≤ 2) (ho : p.Ordered)
    {i : Nat} (hi : p.opened = some i) : p.cycles clock + clock i = clock p.reads := by
  have hle := hclock.le (Nat.le_of_lt (ho.opened i hi))
  have hr := hsmall p.reads
  rw [cycles_eq hclock ho hi]
  simp only [U32]
  omega

section

variable (hclock : Legal clock) (hsm : ∀ i, clock i ≤ 2) (hinv : Inv clock h p)
include hclock hsm hinv

theorem cpuTotal_small (hcy : p.cycles clock ≤ 2) (hc : p.chargesCpu op = true) :
    (h.state.call clock op).cpu.usage.total = h.state.cpu.usage.total + p.cycles clock := by
  have hb := hinv.cpu_small hsm
  rw [(hinv.agrees.called hclock.nonzero op).cpuTotal, if_pos hc]
  simp only [U64]
  omega

theorem total_small (hcy : p.cycles clock ≤ 2) (hc : p.chargesThread op = true) :
    ((h.state.call clock op).threads p.current).total = (h.state.threads p.current).total + p.cycles clock := by
  have hb := hinv.total_small hsm p.current
  rw [(hinv.agrees.called hclock.nonzero op).total, if_pos ⟨hc, rfl⟩]
  refine accumulate_small ?_
  simp only [U64_MAX]
  omega

theorem Flushed.next (hf : Flushed clock h p) (honce : p.CountsOnce op)
    (hst : h.step clock op = some after) : Flushed clock after (p.next op) := by
  cases hst
  have hcl := hinv.agrees.called hclock.nonzero op
  cases hm : p.moves op with
  | true =>
    refine ⟨?_, ?_⟩
    · intro j hj
      simp [Shape.next, hm] at hj
    · intro j hj
      simp [Shape.next, hm] at hj
  | false =>
    refine ⟨?_, ?_⟩
    · intro j hj
      simp only [Shape.next, hm, Bool.false_eq_true, if_false] at hj
      refine flushed_next hf.cpu hm ?_ ?_ j hj
      · intro hc
        obtain ⟨-, ho, hn⟩ := honce.cpu hc
        obtain ⟨i, hi⟩ := Option.ne_none_iff_exists'.mp ho
        have hcy := cycles_small hclock hsm hinv.ordered hi
        have hr := hsm p.reads
        refine ⟨p.reads_of_chargesCpu op hc, hn, i, hi, hinv.ordered.opened i hi, ?_⟩
        rw [cpuTotal_small hclock hsm hinv (by omega) hc]
        omega
      · intro hs
        rw [hcl.cpuTotal, if_neg (by simp [hs])]
    · intro j hj
      simp only [Shape.next, hm, Bool.false_eq_true, if_false] at hj
      rw [p.current_next_of_stays op hm]
      refine flushed_next hf.thread hm ?_ ?_ j hj
      · intro hc
        obtain ⟨-, ho, hn⟩ := honce.thread hc
        obtain ⟨i, hi⟩ := Option.ne_none_iff_exists'.mp ho
        have hcy := cycles_small hclock hsm hinv.ordered hi
        have hr := hsm p.reads
        refine ⟨p.reads_of_chargesThread op hc, hn, i, hi, hinv.ordered.opened i hi, ?_⟩
        rw [total_small hclock hsm hinv (by omega) hc]
        omega
      · intro hs
        rw [hcl.total, if_neg (by simp [hs])]

end

theorem elapsed_of_reading (hclock : Legal clock) (hinv : Inv clock h p)
    (hr : p.readsClock op = true) (hs : ∀ t, op ≠ .Start t)
    (hst : h.step clock op = some after) {bound : Nat}
    (hb : ∀ f, p.first = some f → clock p.reads < clock f + (bound + 1)) :
    after.elapsed clock ≤ bound := by
  cases hst
  have hf : h.firstAfter clock op = h.first := by
    cases op with
    | Start t => exact absurd rfl (hs t)
    | _ => rfl
  have hl : clock ((h.state.call clock op).reads - 1) = clock p.reads := by
    rw [(hinv.agrees.called hclock.nonzero op).agrees.reads, Shape.reads_next, if_pos hr]
    rfl
  simp only [History.elapsed, History.last, hf, hinv.first, hl]
  cases hp : p.first with
  | none => exact Nat.zero_le _
  | some f =>
    have hls := hb f hp
    simp only [Option.map_some]
    omega

end Step

-- The reading before which the clock ticks for a charge that should not be made: none, the
-- charge itself, or the flush that made it a second one.
def Shape.instant (p : Shape) (flushed : Option Nat) : Nat :=
  match p.opened, p.first with
  | none, _ => p.reads + 1
  | some _, none => p.reads
  | some _, some _ => flushed.getD p.reads

theorem overcharged {p : Shape} {fl : Option Nat} {n : Nat} (hor : p.Ordered)
    (hm : ¬ (p.first ≠ none ∧ p.opened ≠ none ∧ fl = none))
    (hfs : ∀ j, fl = some j → ∃ i, p.opened = some i ∧ i < j ∧ j < p.reads ∧
      jump (p.instant fl) j ≤ jump (p.instant fl) i + n) :
    p.cycles (jump (p.instant fl)) = 1 ∧ ∀ f, p.first = some f →
      jump (p.instant fl) p.reads < jump (p.instant fl) f + (n + 1) := by
  cases ho : p.opened with
  | none =>
    have hin : p.instant fl = p.reads + 1 := by simp [Shape.instant, ho]
    have hnw : jump (p.reads + 1) p.reads = 1 := if_pos (Nat.lt_succ_self _)
    rw [hin, hnw]
    refine ⟨?_, ?_⟩
    · simp [Shape.cycles, Shape.usage0, ho, hnw, elapsedCycles, U32]
    · intro f _
      have hp := jump_pos (p.reads + 1) f
      omega
  | some i =>
    have hlt := hor.opened i ho
    have hon {k : Nat} (hop : i < k) (hnw : k ≤ p.reads) : p.cycles (jump k) = 1 := by
      have hcy := cycles_small (jump_legal k) (jump_le k) hor ho
      have hi : jump k i = 1 := if_pos hop
      have hn : jump k p.reads = 2 := if_neg (Nat.not_lt.mpr hnw)
      omega
    cases hfr : p.first with
    | none =>
      have hin : p.instant fl = p.reads := by simp [Shape.instant, ho, hfr]
      rw [hin]
      exact ⟨hon hlt (Nat.le_refl _), fun f hf => absurd hf.symm (Option.some_ne_none f)⟩
    | some f =>
      cases hfl : fl with
      | none => exact absurd ⟨by simp [hfr], by simp [ho], hfl⟩ hm
      | some j =>
        have hin : p.instant fl = j := by
          simp [Shape.instant, ho, hfr, hfl]
        obtain ⟨i', hi', hij, hjn, hc⟩ := hfs j hfl
        cases ho.symm.trans hi'
        rw [← hfl, hin]
        rw [hin] at hc
        refine ⟨hon hij (Nat.le_of_lt hjn), fun f' _ => ?_⟩
        have hj : jump j j = 2 := if_neg (Nat.lt_irrefl j)
        have hi : jump j i = 1 := if_pos hij
        have hnw := jump_le j p.reads
        have hs := jump_pos j f'
        omega

section Runs

variable {clk : Nat → Nat} {current idle : Tid} {ct : Bool} {tracked : Tid → Bool}
  {ops : List Op}

theorem shape_of_pair (clk : Nat → Nat) :
    Simulation (pair (History.step clk) Shape.step) Shape.step Prod.snd fun _ => True :=
  pair_snd fun _ _ => rfl

theorem history_of_pair (clk : Nat → Nat) :
    Simulation (pair (History.step clk) Shape.step) (History.step clk) Prod.fst fun _ => True :=
  pair_fst fun _ _ => rfl

theorem along_pair (idle : Tid) (honce : Along Shape.step Shape.CountsOnce (bootShape current ct tracked) ops) :
    Along (pair (History.step clk) Shape.step) (fun s op => s.2.CountsOnce op)
      (boot current idle ct tracked, bootShape current ct tracked) ops :=
  ((shape_of_pair clk).along_iff Shape.CountsOnce ops trivial).mpr honce

theorem inv_throughout (hclock : Legal clk) (idle : Tid)
    (honce : Along Shape.step Shape.CountsOnce (bootShape current ct tracked) ops) :
    Throughout (pair (History.step clk) Shape.step) (fun s => Inv clk s.1 s.2)
      (boot current idle ct tracked, bootShape current ct tracked) ops := by
  refine throughout_of_along ?_ (boot_inv clk current idle ct tracked)
    (along_pair idle honce)
  intro s op after hinv honce hst
  obtain ⟨hh, hs⟩ := pair_eq_some.mp hst
  rw [← Option.some.inj hs]
  exact hinv.next hclock honce hh

theorem flushed_throughout (hclock : Legal clk) (hsmall : ∀ i, clk i ≤ 2) (idle : Tid)
    (honce : Along Shape.step Shape.CountsOnce (bootShape current ct tracked) ops) :
    Throughout (pair (History.step clk) Shape.step)
      (fun s => Inv clk s.1 s.2 ∧ Flushed clk s.1 s.2)
      (boot current idle ct tracked, bootShape current ct tracked) ops := by
  refine throughout_of_along ?_ ⟨boot_inv clk current idle ct tracked,
    fun _ hj => (nomatch hj), fun _ hj => (nomatch hj)⟩ (along_pair idle honce)
  rintro s op after ⟨hinv, hf⟩ honce hst
  obtain ⟨hh, hs⟩ := pair_eq_some.mp hst
  rw [← Option.some.inj hs]
  exact ⟨hinv.next hclock honce hh, hf.next hclock hsmall hinv honce hh⟩

theorem reached (hclock : Legal clk) (hsmall : ∀ i, clk i ≤ 2) (idle : Tid)
    (honce : Along Shape.step Shape.CountsOnce (bootShape current ct tracked) ops) {p : Shape}
    (hr : run Shape.step (bootShape current ct tracked) ops = some p) :
    ∃ h, run (History.step clk) (boot current idle ct tracked) ops = some h ∧ Inv clk h p ∧ Flushed clk h p := by
  have hs : run Shape.step (Prod.snd (boot current idle ct tracked, bootShape current ct tracked)) ops = some p := hr
  obtain ⟨fin, hp, rfl⟩ := (shape_of_pair clk).run_inv trivial hs
  obtain ⟨-, hfs⟩ := (history_of_pair clk).run_some trivial hp
  obtain ⟨hinv, hf⟩ := (flushed_throughout hclock hsmall idle honce).last hp
  exact ⟨fin.1, hfs, hinv, hf⟩

theorem not_bounded_of_cpu {p : Shape} {op : Op} (hc : p.chargesCpu op = true)
    (hms : ¬ (p.first ≠ none ∧ p.opened ≠ none ∧ p.cpuFlushed = none)) {h after : History}
    (hinv : Inv (jump (p.instant p.cpuFlushed)) h p)
    (hf : Flushed (jump (p.instant p.cpuFlushed)) h p)
    (hs : h.step (jump (p.instant p.cpuFlushed)) op = some after) :
    ¬ Bounded (jump (p.instant p.cpuFlushed)) after := by
  obtain ⟨hcy, hm⟩ := overcharged hinv.ordered hms hf.cpu
  have hclock := jump_legal (p.instant p.cpuFlushed)
  have hst (thread : Tid) : op ≠ .Start thread := by
    rintro rfl
    cases hc
  have he := elapsed_of_reading hclock hinv (p.reads_of_chargesCpu op hc) hst hs
    hm
  have ht := cpuTotal_small hclock (jump_le _) hinv (by omega) hc
  cases hs
  intro hb
  have hle := Nat.le_trans hb.cpu he
  simp only [ht, hcy] at hle
  omega

theorem not_bounded_of_thread {p : Shape} {op : Op} (hc : p.chargesThread op = true)
    (hms : ¬ (p.first ≠ none ∧ p.opened ≠ none ∧ p.threadFlushed = none)) {h after : History}
    (hinv : Inv (jump (p.instant p.threadFlushed)) h p)
    (hf : Flushed (jump (p.instant p.threadFlushed)) h p)
    (hs : h.step (jump (p.instant p.threadFlushed)) op = some after) :
    ¬ Bounded (jump (p.instant p.threadFlushed)) after := by
  obtain ⟨hcy, hm⟩ := overcharged hinv.ordered hms hf.thread
  have hclock := jump_legal (p.instant p.threadFlushed)
  have hst (thread : Tid) : op ≠ .Start thread := by
    rintro rfl
    cases hc
  have he := elapsed_of_reading hclock hinv (p.reads_of_chargesThread op hc) hst
    hs hm
  have ht := total_small hclock (jump_le _) hinv (by omega) hc
  cases hs
  intro hb
  have hle := Nat.le_trans (hb.elapsed p.current) he
  simp only [ht, hcy] at hle
  omega

theorem once_of_bounded (hb : ∀ clk, Legal clk → Throughout (History.step clk) (Bounded clk)
      (boot current idle ct tracked) ops) :
    Along Shape.step Shape.CountsOnce (bootShape current ct tracked) ops := by
  by_contra hnot
  obtain ⟨first, op, rest, p, next, rfl, hr, honce, -, hm⟩ := exists_first_miss hnot
  have ha (k : Nat) : ∃ h after, Inv (jump k) h p ∧ Flushed (jump k) h p ∧
      h.step (jump k) op = some after ∧ Bounded (jump k) after := by
    obtain ⟨h, hh, hinv, hf⟩ := reached (jump_legal k) (jump_le k) idle honce hr
    have ht := (hb (jump k) (jump_legal k)).after hh
    exact ⟨h, _, hinv, hf, rfl, (ht.2 _ rfl).head⟩
  refine hm ⟨fun hc => ?_, fun hc => ?_⟩
  · by_contra hbad
    obtain ⟨h, after, hinv, hf, hs, hok⟩ := ha (p.instant p.cpuFlushed)
    exact not_bounded_of_cpu hc hbad hinv hf hs hok
  · by_contra hbad
    obtain ⟨h, after, hinv, hf, hs, hok⟩ := ha (p.instant p.threadFlushed)
    exact not_bounded_of_thread hc hbad hinv hf hs hok

end Runs

theorem counted_once_iff (current idleThread : Tid) (cpuTracked : Bool) (tracked : Tid → Bool)
    (ops : List Op) :
    (∀ clock, Legal clock → Throughout (History.step clock) (Bounded clock)
        (boot current idleThread cpuTracked tracked) ops) ↔
      Along Shape.step Shape.CountsOnce (bootShape current cpuTracked tracked) ops := by
  refine ⟨once_of_bounded, fun honce clock hclock => ?_⟩
  have hinv := (inv_throughout hclock idleThread honce).mono fun _ h => h.bounded hclock
  exact ((history_of_pair clock).throughout_iff (Bounded clock) ops trivial).mp hinv

-- Thread 1 runs from 1 to 101. Its statistics are disabled, enabled again and then stopped.
theorem window_counted_twice : Legal (fun i => if i = 0 then 1 else 101) ∧
      ∃ h, run (History.step fun i => if i = 0 then 1 else 101) (boot 0 0 true fun _ => true)
          [.Start 1, .ThreadDisable 1, .ThreadEnable 1, .Stop] = some h ∧
        h.elapsed (fun i => if i = 0 then 1 else 101) = 100 ∧ h.ran 1 = 100 ∧
        h.state.cpu.usage.total = 200 ∧ (h.state.threads 1).total = 200 := by
  refine ⟨⟨?_, ?_, ?_⟩, _, rfl, by decide, by decide, by decide, by decide⟩
  · intro i
    simp only [U32]
    split <;> omega
  · intro i
    split <;> split <;> omega
  · intro i
    simp only [U32]
    split <;> split <;> omega

end Gale.Usage
