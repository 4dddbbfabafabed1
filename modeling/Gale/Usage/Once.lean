import Gale.Usage.Windows

namespace Gale.Usage

open Function Lib

structure Legal (clock : Nat → Nat) : Prop where
  nonzero : ∀ i, clock i % U32 ≠ 0
  mono : ∀ i, clock i ≤ clock (i + 1)
  close : ∀ i, clock (i + 1) < clock i + U32

theorem Legal.le {clock : Nat → Nat} (h : Legal clock) {i j : Nat} (hij : i ≤ j) : clock i ≤ clock j :=
  monotone_nat_of_le_succ h.mono hij

structure Bounded (clock : Nat → Nat) (h : History) : Prop where
  cpu : h.state.cpu.usage.total ≤ h.elapsed clock
  elapsed : ∀ thread, (h.state.threads thread).total ≤ h.elapsed clock
  ran : ∀ thread, (h.state.threads thread).total ≤ h.ran thread

section Arithmetic

theorem accumulate_le (n cycles : Nat) : (accumulate n cycles).2 ≤ n + cycles := by
  unfold accumulate
  by_cases hf : n + cycles ≤ U64_MAX
  · rw [checkedAdd_of_le hf]
  · rw [checkedAdd_of_not_le hf]
    exact Nat.le_add_right _ _

theorem accumulate_small {n cycles : Nat} (h : n + cycles ≤ U64_MAX) : (accumulate n cycles).2 = n + cycles := by
  rw [accumulate, checkedAdd_of_le h]

theorem elapsedCycles_mod {now before : Nat} (h : before ≤ now) :
    elapsedCycles (now % U32) (before % U32) = (now - before) % U32 := by
  simp only [elapsedCycles, U32]
  omega

end Arithmetic

namespace Shape

variable {p : Shape}

-- A total that has not been charged since then counts nothing after its mark.
def mark (p : Shape) (flushed : Option Nat) : Nat :=
  match p.opened, flushed with
  | some i, none => i
  | _, _ => p.reads - 1

def cpuMark (p : Shape) : Nat := p.mark p.cpuFlushed

def threadMark (p : Shape) (thread : Tid) : Nat :=
  if thread = p.current then p.mark p.threadFlushed else p.reads - 1

structure Ordered (p : Shape) : Prop where
  first : ∀ f, p.first = some f → f < p.reads
  opened : ∀ i, p.opened = some i → i < p.reads
  order : ∀ f i, p.first = some f → p.opened = some i → f ≤ i

theorem mark_of_unflushed {i : Nat} (h : p.opened = some i) : p.mark none = i := by
  simp [mark, h]

theorem mark_of_flushed (p : Shape) (j : Nat) : p.mark (some j) = p.reads - 1 := by
  cases ho : p.opened <;> simp [mark, ho]

theorem mark_of_closed (h : p.opened = none) (fl : Option Nat) : p.mark fl = p.reads - 1 := by
  simp [mark, h]

theorem Ordered.mark_le (h : Ordered p) (fl : Option Nat) : p.mark fl ≤ p.reads - 1 := by
  cases ho : p.opened with
  | none => rw [mark_of_closed ho]
  | some i =>
    cases fl with
    | none =>
      have hlt := h.opened i ho
      rw [mark_of_unflushed ho]
      omega
    | some j => rw [mark_of_flushed]

theorem Ordered.threadMark_le (h : Ordered p) (t : Tid) : p.threadMark t ≤ p.reads - 1 := by
  unfold threadMark
  split
  · exact h.mark_le _
  · exact Nat.le_refl _

section Next

variable (p : Shape) (op : Op)

theorem reads_next : (p.next op).reads = if p.readsClock op = true then p.reads + 1 else p.reads :=
  rfl

theorem reads_le_next : p.reads ≤ (p.next op).reads := by
  rw [reads_next]
  split <;> omega

theorem opened_next_of_moves (h : p.moves op = true) : (p.next op).opened = none ∨
      (p.next op).opened = some p.reads ∧ (p.next op).reads = p.reads + 1 := by
  cases op with
  | Start t => exact .inr ⟨rfl, rfl⟩
  | Stop => exact .inl rfl
  | ThreadUsage t =>
    have hc : t = p.current := by simpa [moves] using h
    exact .inr ⟨by simp [next, hc], by simp [next, readsClock, hc]⟩
  | ThreadEnable t | ThreadDisable t | SysEnable | SysDisable => cases h

theorem opened_next_of_stays (h : p.moves op = false) : (p.next op).opened = p.opened := by
  cases op with
  | Start t | Stop => cases h
  | ThreadUsage t =>
    have ho : ¬ t = p.current := by simpa [moves] using h
    simp [next, ho]
  | ThreadEnable t | ThreadDisable t | SysEnable | SysDisable => rfl

theorem first_next : (p.next op).first = p.first ∨ p.first = none ∧ p.moves op = true ∧
    (p.next op).first = some p.reads ∧ (p.next op).opened = some p.reads ∧ (p.next op).reads = p.reads + 1 := by
  cases op with
  | Start t =>
    cases hf : p.first with
    | none => exact .inr ⟨rfl, rfl, by simp [next, hf], rfl, rfl⟩
    | some f => exact .inl (by simp [next, hf])
  | _ => exact .inl rfl

theorem reads_of_chargesCpu (h : p.chargesCpu op = true) : p.readsClock op = true := by
  cases op <;> grind [chargesCpu, readsClock]

theorem reads_of_chargesThread (h : p.chargesThread op = true) : p.readsClock op = true := by
  cases op <;> grind [chargesThread, readsClock]

theorem mark_next (charges : Bool) (fl : Option Nat) : (p.next op).mark (if p.moves op = true then none
        else if charges = true then fl.or (some p.reads) else fl) =
        (p.next op).reads - 1 ∨
      (p.next op).mark (if p.moves op = true then none
        else if charges = true then fl.or (some p.reads) else fl) = p.mark fl ∧
        charges = false ∧ p.moves op = false := by
  cases hm : p.moves op with
  | true =>
    refine .inl ?_
    rcases p.opened_next_of_moves op hm with hc | ⟨ho, hr⟩
    · exact mark_of_closed hc _
    · simp only [if_true]
      rw [mark_of_unflushed ho, hr]
      rfl
  | false =>
    have hs := p.opened_next_of_stays op hm
    cases charges with
    | true =>
      refine .inl ?_
      cases fl <;> exact mark_of_flushed _ _
    | false =>
      simp only [Bool.false_eq_true, if_false]
      cases ho : p.opened with
      | none => exact .inl (mark_of_closed (hs.trans ho) _)
      | some i =>
        cases fl with
        | none =>
          refine .inr ⟨?_, by simp⟩
          rw [mark_of_unflushed (hs.trans ho), mark_of_unflushed ho]
        | some j => exact .inl (mark_of_flushed _ j)

theorem cpuMark_next : (p.next op).cpuMark = (p.next op).reads - 1 ∨
    (p.next op).cpuMark = p.cpuMark ∧ p.chargesCpu op = false ∧ p.moves op = false :=
  p.mark_next op (p.chargesCpu op) p.cpuFlushed

theorem current_next_of_stays (h : p.moves op = false) : (p.next op).current = p.current := by
  cases op with
  | Start t => cases h
  | _ => rfl

theorem threadMark_next (t : Tid) : (p.next op).threadMark t = (p.next op).reads - 1 ∨
      (p.next op).threadMark t = p.threadMark t ∧
        ¬ (p.chargesThread op = true ∧ t = p.current) ∧ p.moves op = false := by
  by_cases hn : t = (p.next op).current
  · have hmr : (p.next op).threadMark t = (p.next op).mark (p.next op).threadFlushed := by
      rw [threadMark, if_pos hn]
    rcases p.mark_next op (p.chargesThread op) p.threadFlushed with hl | ⟨hs, hc, hm⟩
    · exact .inl (hmr.trans hl)
    · have hcr : t = p.current := hn.trans (p.current_next_of_stays op hm)
      refine .inr ⟨?_, by simp [hc], hm⟩
      rw [hmr, threadMark, if_pos hcr]
      exact hs
  · exact .inl (by rw [threadMark, if_neg hn])

end Next

theorem Ordered.next (h : Ordered p) (op : Op) : Ordered (p.next op) := by
  have hle := p.reads_le_next op
  have ho (i : Nat) (hi : (p.next op).opened = some i) :
      p.opened = some i ∨ i = p.reads ∧ (p.next op).reads = p.reads + 1 := by
    cases hm : p.moves op with
    | true =>
      rcases p.opened_next_of_moves op hm with hc | ⟨hr, hrd⟩
      · cases hc.symm.trans hi
      · exact .inr ⟨(Option.some.inj (hr.symm.trans hi)).symm, hrd⟩
    | false => exact .inl ((p.opened_next_of_stays op hm).symm.trans hi)
  refine ⟨?_, ?_, ?_⟩
  · intro f hf
    rcases p.first_next op with hs | ⟨-, -, hfr, -, hrd⟩
    · have hlt := h.first f (hs.symm.trans hf)
      omega
    · cases hfr.symm.trans hf
      omega
  · intro i hi
    rcases ho i hi with hs | ⟨rfl, hrd⟩
    · have hlt := h.opened i hs
      omega
    · omega
  · intro f i hf hi
    rcases p.first_next op with hs | ⟨-, -, hfr, hr, -⟩
    · have hol := hs.symm.trans hf
      rcases ho i hi with hk | ⟨rfl, -⟩
      · exact h.order f i hol hk
      · exact Nat.le_of_lt (h.first f hol)
    · cases hfr.symm.trans hf
      cases hr.symm.trans hi
      exact Nat.le_refl _

end Shape

-- How far the totals have come: a window that has not been charged is still to count.
structure Inv (clock : Nat → Nat) (h : History) (p : Shape) : Prop where
  agrees : Agrees clock h.state p
  ordered : p.Ordered
  first : h.first = p.first.map clock
  unstarted : p.first = none →
    h.state.cpu.usage.total = 0 ∧ ∀ thread, (h.state.threads thread).total = 0
  cpu : ∀ f, p.first = some f → h.state.cpu.usage.total + clock f ≤ clock p.cpuMark
  total : ∀ f, p.first = some f → ∀ thread,
    (h.state.threads thread).total + clock f ≤ clock (p.threadMark thread)
  ran : ∀ thread, (h.state.threads thread).total + clock (p.reads - 1) ≤
    h.ran thread + clock (p.threadMark thread)

theorem Inv.bounded {clock : Nat → Nat} {h : History} {p : Shape} (hclock : Legal clock)
    (hinv : Inv clock h p) : Bounded clock h := by
  have hl : h.last clock = clock (p.reads - 1) := by rw [History.last, hinv.agrees.reads]
  have hr (thread : Tid) : (h.state.threads thread).total ≤ h.ran thread := by
    have hm := hclock.le (hinv.ordered.threadMark_le thread)
    have hth := hinv.ran thread
    omega
  cases hf : p.first with
  | none =>
    obtain ⟨hc, ht⟩ := hinv.unstarted hf
    refine ⟨by rw [hc]; exact Nat.zero_le _, fun thread => ?_, hr⟩
    rw [ht]
    exact Nat.zero_le _
  | some f =>
    have he : h.elapsed clock = clock (p.reads - 1) - clock f := by
      simp only [History.elapsed, hinv.first, hf, Option.map_some, hl]
    refine ⟨?_, fun thread => ?_, hr⟩
    · have hm := hclock.le (hinv.ordered.mark_le p.cpuFlushed)
      have hc := hinv.cpu f hf
      unfold Shape.cpuMark at hc
      omega
    · have hm := hclock.le (hinv.ordered.threadMark_le thread)
      have hth := hinv.total f hf thread
      rw [he]
      omega

theorem boot_inv (clock : Nat → Nat) (current idleThread : Tid) (cpuTracked : Bool)
    (tracked : Tid → Bool) : Inv clock (boot current idleThread cpuTracked tracked)
      (bootShape current cpuTracked tracked) where
  agrees := ⟨rfl, rfl, fun _ => rfl, rfl, rfl⟩
  ordered := ⟨fun _ hf => (nomatch hf), fun _ hi => (nomatch hi), fun _ _ hf => (nomatch hf)⟩
  first := rfl
  unstarted := fun _ => ⟨rfl, fun _ => rfl⟩
  cpu := fun _ hf => nomatch hf
  total := fun _ hf => nomatch hf
  ran := by
    intro t
    have hm : (bootShape current cpuTracked tracked).threadMark t = 0 := by
      simp [Shape.threadMark, Shape.mark, bootShape]
    rw [hm]
    simp [boot, bootShape]

section Step

variable {clk : Nat → Nat} {h after : History} {p : Shape} {op : Op}

theorem cycles_eq (hclock : Legal clk) (ho : p.Ordered) {i : Nat} (hi : p.opened = some i) :
    p.cycles clk = (clk p.reads - clk i) % U32 := by
  have hle := hclock.le (Nat.le_of_lt (ho.opened i hi))
  rw [Shape.cycles, Shape.usage0, hi]
  exact elapsedCycles_mod hle

theorem cycles_le (hclock : Legal clk) (ho : p.Ordered) {i : Nat} (hi : p.opened = some i) :
    p.cycles clk + clk i ≤ clk p.reads := by
  have hle := hclock.le (Nat.le_of_lt (ho.opened i hi))
  have hm := Nat.mod_le (clk p.reads - clk i) U32
  rw [cycles_eq hclock ho hi]
  omega

section

variable (hclock : Legal clk) (hinv : Inv clk h p) (honce : p.CountsOnce op)
include hclock hinv honce

theorem cpuTotal_grows : (h.state.call clk op).cpu.usage.total + clk p.cpuMark ≤
      h.state.cpu.usage.total + clk (p.next op).cpuMark := by
  have hcl := hinv.agrees.called hclock.nonzero op
  have hm : clk p.cpuMark ≤ clk ((p.next op).reads - 1) := by
    have hle := p.reads_le_next op
    have hb := hinv.ordered.mark_le p.cpuFlushed
    exact hclock.le (by unfold Shape.cpuMark; omega)
  cases hc : p.chargesCpu op with
  | true =>
    obtain ⟨-, ho, hf⟩ := honce.cpu hc
    obtain ⟨i, hi⟩ := Option.ne_none_iff_exists'.mp ho
    have hr : (p.next op).reads = p.reads + 1 := by
      rw [Shape.reads_next, if_pos (p.reads_of_chargesCpu op hc)]
    have hb : p.cpuMark = i := by
      rw [Shape.cpuMark, hf]
      exact Shape.mark_of_unflushed hi
    have ha : (p.next op).cpuMark = p.reads := by
      rcases p.cpuMark_next op with hl | ⟨-, hn, -⟩
      · rw [hl, hr]
        rfl
      · cases hn.symm.trans hc
    have hcy := cycles_le hclock hinv.ordered hi
    have hmd := Nat.mod_le (h.state.cpu.usage.total + p.cycles clk) U64
    rw [hcl.cpuTotal, if_pos hc, hb, ha]
    omega
  | false =>
    rw [hcl.cpuTotal, if_neg (by simp [hc])]
    rcases p.cpuMark_next op with hl | ⟨hs, -⟩
    · rw [hl]
      omega
    · rw [hs]

theorem total_grows (t : Tid) : ((h.state.call clk op).threads t).total + clk (p.threadMark t) ≤
      (h.state.threads t).total + clk ((p.next op).threadMark t) := by
  have hcl := hinv.agrees.called hclock.nonzero op
  have hm : clk (p.threadMark t) ≤ clk ((p.next op).reads - 1) := by
    have hle := p.reads_le_next op
    have hb := hinv.ordered.threadMark_le t
    exact hclock.le (by omega)
  by_cases hc : p.chargesThread op = true ∧ t = p.current
  · obtain ⟨-, ho, hf⟩ := honce.thread hc.1
    obtain ⟨i, hi⟩ := Option.ne_none_iff_exists'.mp ho
    have hr : (p.next op).reads = p.reads + 1 := by
      rw [Shape.reads_next, if_pos (p.reads_of_chargesThread op hc.1)]
    have hb : p.threadMark t = i := by
      rw [Shape.threadMark, if_pos hc.2, hf]
      exact Shape.mark_of_unflushed hi
    have ha : (p.next op).threadMark t = p.reads := by
      rcases p.threadMark_next op t with hl | ⟨-, hn, -⟩
      · rw [hl, hr]
        rfl
      · exact absurd hc hn
    have hcy := cycles_le hclock hinv.ordered hi
    have had := accumulate_le (h.state.threads t).total (p.cycles clk)
    rw [hcl.total, if_pos hc, hb, ha]
    omega
  · rw [hcl.total, if_neg hc]
    rcases p.threadMark_next op t with hl | ⟨hs, -⟩
    · rw [hl]
      omega
    · rw [hs]

theorem Inv.unstarted_next (hf : p.first = none) : (h.state.call clk op).cpu.usage.total = 0 ∧
      ∀ t, ((h.state.call clk op).threads t).total = 0 := by
  have hcl := hinv.agrees.called hclock.nonzero op
  obtain ⟨hcp, ht⟩ := hinv.unstarted hf
  have hnt : ¬ p.chargesCpu op = true := fun hc => (honce.cpu hc).1 hf
  have hn (t : Tid) : ¬ (p.chargesThread op = true ∧ t = p.current) :=
    fun hc => (honce.thread hc.1).1 hf
  refine ⟨?_, fun t => ?_⟩
  · rw [hcl.cpuTotal, if_neg hnt, hcp]
  · rw [hcl.total, if_neg (hn t), ht t]

theorem Inv.next (hst : h.step clk op = some after) : Inv clk after (p.next op) := by
  cases hst
  have hcl := hinv.agrees.called hclock.nonzero op
  have hcp := cpuTotal_grows hclock hinv honce
  have ht := total_grows hclock hinv honce
  have hl : h.last clk = clk (p.reads - 1) := by rw [History.last, hinv.agrees.reads]
  have hsr (hm : p.moves op = true) (hr : (p.next op).reads = p.reads + 1) :
      (p.next op).cpuMark = p.reads ∧ ∀ t, (p.next op).threadMark t = p.reads := by
    refine ⟨?_, fun t => ?_⟩
    · rcases p.cpuMark_next op with hmr | ⟨-, -, hs⟩
      · rw [hmr, hr]
        rfl
      · cases hs.symm.trans hm
    · rcases p.threadMark_next op t with hmr | ⟨-, -, hs⟩
      · rw [hmr, hr]
        rfl
      · cases hs.symm.trans hm
  refine ⟨hcl.agrees, hinv.ordered.next op, ?_, ?_, ?_, ?_, ?_⟩
  · cases op with
    | Start t =>
      cases hfr : p.first <;>
        simp [Shape.next, History.firstAfter, hinv.first, hfr, hinv.agrees.reads]
    | _ => exact hinv.first
  · intro hn
    rcases p.first_next op with hsm | ⟨-, -, hfr, -, -⟩
    · exact hinv.unstarted_next hclock honce (hsm.symm.trans hn)
    · cases hfr.symm.trans hn
  · intro f hf
    rcases p.first_next op with hsm | ⟨hn, hm, hfr, -, hr⟩
    · have hbf := hinv.cpu f (hsm.symm.trans hf)
      show (h.state.call clk op).cpu.usage.total + clk f ≤ _
      omega
    · cases hfr.symm.trans hf
      rw [(hinv.unstarted_next hclock honce hn).1, (hsr hm hr).1, Nat.zero_add]
  · intro f hf t
    rcases p.first_next op with hsm | ⟨hn, hm, hfr, -, hr⟩
    · have hbf := hinv.total f (hsm.symm.trans hf) t
      have hg := ht t
      show ((h.state.call clk op).threads t).total + clk f ≤ _
      omega
    · cases hfr.symm.trans hf
      rw [(hinv.unstarted_next hclock honce hn).2, (hsr hm hr).2, Nat.zero_add]
  · intro t
    have hbf := hinv.ran t
    have hg := ht t
    show ((h.state.call clk op).threads t).total + clk ((p.next op).reads - 1) ≤
      update h.ran h.state.cpu.current (h.ran h.state.cpu.current +
        (clk ((h.state.call clk op).reads - 1) - h.last clk)) t + _
    rw [hcl.agrees.reads, hl, hinv.agrees.current]
    by_cases hc : t = p.current
    · rw [hc, update_self, ← hc]
      omega
    · have ho : p.threadMark t = p.reads - 1 := by rw [Shape.threadMark, if_neg hc]
      have hnw : (p.next op).threadMark t = (p.next op).reads - 1 := by
        rcases p.threadMark_next op t with hmr | ⟨-, -, hs⟩
        · exact hmr
        · rw [Shape.threadMark, if_neg]
          rwa [p.current_next_of_stays op hs]
      rw [update_of_ne hc, hnw]
      rw [ho] at hbf hg
      have hsm : ((h.state.call clk op).threads t).total = (h.state.threads t).total := by
        rw [hcl.total, if_neg (fun hb => hc hb.2)]
      omega

end

end Step

end Gale.Usage
