import Gale.Dynamic

namespace Gale.Dynamic

open Function Lib

variable {cfg : Config} {s next : State cfg} {thread : Tid}

def State.setBits (s : State cfg) : Nat := Slots.count id s.dynamicBa

def alone (cfg : Config) (thread : Tid) (size : Nat) : List (Op cfg) :=
  [.AllocRead thread size, .AllocBit thread, .AllocWrite thread]

-- With no call in progress the count is that of the bits, and an allocation that runs
-- alone gets a slot if there is one.
def State.Honest (s : State cfg) : Prop :=
  s.calls = [] → s.galePoolActive = s.setBits ∧
    ∀ thread size, size ≤ cfg.stackSize → (∃ i, s.dynamicBa i = false) →
      ∃ next offset, run step s (alone cfg thread size) = some next ∧
        next.returned = s.returned ++ [(thread, some offset)]

-- At most limit calls are in progress at a time.
def State.Overlaps (limit : Nat) (s : State cfg) : Op cfg → Prop
  | .AllocRead _ _ => s.calls.length < limit
  | .FreeBit _ _ => s.calls.length < limit
  | _ => True

theorem overlaps_mono {lim bound : Nat} {op : Op cfg} (hle : lim ≤ bound)
    (h : s.Overlaps lim op) : s.Overlaps bound op := by
  cases op with
  | AllocRead thread size | FreeBit thread offset => exact Nat.lt_of_lt_of_le h hle
  | _ => trivial

theorem galeDynamicAllocDecide_eq (active mt : Nat) : galeDynamicAllocDecide active mt =
      if active < mt then ⟨.AllocOk, active + 1⟩ else ⟨.PoolFull, active⟩ := by
  by_cases hl : active < mt <;> simp [galeDynamicAllocDecide, allocDecide, hl]

theorem galeDynamicFreeDecide_eq (active : Nat) :
    galeDynamicFreeDecide active = if active > 0 then ⟨.FreeOk, active - 1⟩ else ⟨.Underflow, 0⟩ := by
  by_cases hp : active > 0 <;> simp [galeDynamicFreeDecide, freeDecide, hp]

variable {off : Fin cfg.poolSize} {pc : Pc cfg}

theorem setBits_set (h : s.dynamicBa off = false) : Slots.count id (update s.dynamicBa off true) = s.setBits + 1 := by
  have hc := Slots.count_update id s.dynamicBa off true
  simpa [State.setBits, h] using hc

theorem setBits_clear (h : s.dynamicBa off = true) :
    Slots.count id (update s.dynamicBa off false) + 1 = s.setBits := by
  have hc := Slots.count_update id s.dynamicBa off false
  simpa [State.setBits, h] using hc

theorem setBits_lt (h : s.dynamicBa off = false) : s.setBits < cfg.poolSize := by
  have hle := Slots.count_le id (update s.dynamicBa off true)
  rw [setBits_set h] at hle
  exact hle

theorem of_first (h : Slots.first (fun i => !s.dynamicBa i) = some off) : s.dynamicBa off = false := by
  simpa using Slots.of_first_eq_some h

-- What the call in progress has done so far, if it is the only one.
def State.Holds (s : State cfg) : Pc cfg → Prop
  | .AllocBit d => s.galePoolActive = s.setBits ∧ d.newActive = s.setBits + 1
  | .AllocWrite d _ => d.newActive = s.setBits
  | .FreeRead => s.galePoolActive = s.setBits + 1
  | .FreeWrite d => d.newActive = s.setBits

def State.Serial (s : State cfg) : Prop :=
  s.calls = [] ∧ s.galePoolActive = s.setBits ∨ ∃ thread pc, s.calls = [(thread, pc)] ∧ s.Holds pc

theorem calls_of_call (h : s.Serial) (hc : s.call thread = some pc) : s.calls = [(thread, pc)] ∧ s.Holds pc := by
  rcases h with ⟨hn, -⟩ | ⟨o, pc', ho, hh⟩
  · simp [State.call, hn] at hc
  · by_cases heq : thread = o
    · subst heq
      simp only [State.call, ho, List.lookup_cons_self, Option.some.injEq] at hc
      subst hc
      exact ⟨ho, hh⟩
    · simp [State.call, ho, List.lookup, beq_eq_false_iff_ne.mpr heq] at hc

theorem begins_serial (hc : s.calls = []) (hh : s.Holds pc) : (s.begins thread pc).Serial :=
  .inr ⟨thread, pc, by simp [State.begins, hc], hh⟩

theorem goes_serial {pc' : Pc cfg} (hc : s.calls = [(thread, pc)]) (hh : s.Holds pc') : (s.goes thread pc').Serial :=
  .inr ⟨thread, pc', by simp [State.goes, hc], hh⟩

theorem ends_serial (hc : s.calls = [(thread, pc)]) (ha : s.galePoolActive = s.setBits) : (s.ends thread).Serial :=
  .inl ⟨by simp [State.ends, hc], ha⟩

theorem returns_serial (h : s.Serial) (stack : Option (Fin cfg.poolSize)) : (s.returns thread stack).Serial := h

theorem idle_of_overlaps (h : s.Serial) (hl : s.calls.length < 1) : s.calls = [] ∧ s.galePoolActive = s.setBits := by
  rcases h with hi | ⟨o, pc, ho, -⟩
  · exact hi
  · rw [ho] at hl
    exact absurd hl (Nat.lt_irrefl 1)

theorem step_serial {op : Op cfg} (h : s.Serial) (hop : s.Overlaps 1 op)
    (hs : step s op = some next) : next.Serial := by
  cases op with
  | AllocRead thread size =>
    obtain ⟨hc, ha⟩ := idle_of_overlaps h hop
    obtain ⟨-, hn⟩ := Option.ite_none_right_eq_some.mp hs
    rw [galeDynamicAllocDecide_eq] at hn
    by_cases hsz : size > cfg.stackSize
    · rw [if_pos hsz] at hn
      cases hn
      exact returns_serial h none
    · rw [if_neg hsz] at hn
      by_cases hl : s.galePoolActive < cfg.poolSize
      · rw [if_pos hl] at hn
        cases hn
        exact begins_serial hc ⟨ha, by rw [ha]⟩
      · rw [if_neg hl] at hn
        cases hn
        exact returns_serial h none
  | AllocBit thread =>
    simp only [step] at hs
    split at hs
    · next d hcl =>
        obtain ⟨hc, ha, hnw⟩ := calls_of_call h hcl
        split at hs
        · cases hs
          exact returns_serial (ends_serial hc ha) none
        · next off hf =>
            cases hs
            refine goes_serial hc ?_
            simp [State.Holds, State.setBits, setBits_set (of_first hf), hnw]
    · cases hs
  | AllocWrite thread =>
    simp only [step] at hs
    split at hs
    · next d off hcl =>
        obtain ⟨hc, hnw⟩ := calls_of_call h hcl
        cases hs
        apply returns_serial
        exact ends_serial hc hnw
    · cases hs
  | FreeBit thread off =>
    obtain ⟨hc, ha⟩ := idle_of_overlaps h hop
    obtain ⟨-, hn⟩ := Option.ite_none_right_eq_some.mp hs
    by_cases hst : s.dynamicBa off = true
    · rw [if_pos hst] at hn
      cases hn
      refine begins_serial ?_ ?_
      · exact hc
      · exact ha.trans (setBits_clear hst).symm
    · rw [if_neg hst] at hn
      cases hn
      exact h
  | FreeRead thread =>
    simp only [step] at hs
    split at hs
    · next hcl =>
        obtain ⟨hc, ha⟩ := calls_of_call h hcl
        rw [galeDynamicFreeDecide_eq, if_pos (by rw [ha]; omega)] at hs
        cases hs
        refine goes_serial hc ?_
        rw [State.Holds, ha, Nat.add_sub_cancel]
    · cases hs
  | FreeWrite thread =>
    simp only [step] at hs
    split at hs
    · next d hcl =>
        obtain ⟨hc, hnw⟩ := calls_of_call h hcl
        cases hs
        exact ends_serial hc hnw
    · cases hs

theorem run_alone (hc : s.calls = []) (ha : s.galePoolActive < cfg.poolSize) (thread : Tid)
    {size : Nat} (hs : size ≤ cfg.stackSize)
    (hf : Slots.first (fun i => !s.dynamicBa i) = some off) :
    run step s (alone cfg thread size) = some { s with
        galePoolActive := s.galePoolActive + 1
        dynamicBa := update s.dynamicBa off true
        returned := s.returned ++ [(thread, some off)] } := by
  have hp : cfg.poolSize > 0 := Nat.zero_lt_of_lt ha
  simp [alone, run, step, State.call, State.begins, State.goes, State.ends, State.returns, hc,
    hp, Nat.not_lt.mpr hs, galeDynamicAllocDecide_eq, ha, hf]

theorem Serial.honest (h : s.Serial) : s.Honest := by
  intro hc
  have ha : s.galePoolActive = s.setBits := by
    rcases h with ⟨-, ha⟩ | ⟨o, pc, ho, -⟩
    · exact ha
    · cases hc.symm.trans ho
  refine ⟨ha, ?_⟩
  rintro thread size hs ⟨i, hfr⟩
  cases hf : Slots.first (fun i => !s.dynamicBa i) with
  | none =>
    have hst := Slots.of_first_eq_none hf i
    simp [hfr] at hst
  | some off =>
    have hl : s.galePoolActive < cfg.poolSize := by
      rw [ha]
      exact setBits_lt hfr
    exact ⟨_, off, run_alone hc hl thread hs hf, rfl⟩

-- The second thread reads the count before the first thread takes a slot and gives it
-- back. It writes between the first thread's last bit and its last read.
def crossing (cfg : Config) (hpool : 0 < cfg.poolSize) : List (Op cfg) :=
  [.AllocRead 2 0, .AllocRead 1 0, .AllocBit 1, .AllocWrite 1, .FreeBit 1 ⟨0, hpool⟩, .AllocBit 2,
    .AllocWrite 2, .FreeRead 1, .FreeWrite 1]

theorem run_crossing (cfg : Config) (hp : 0 < cfg.poolSize) : run step (init cfg) (crossing cfg hp) = some
      { galePoolActive := 0
        dynamicBa := update (fun _ => false) ⟨0, hp⟩ true
        calls := []
        returned := [(1, some ⟨0, hp⟩), (2, some ⟨0, hp⟩)] } := by
  have hf : Slots.first (fun _ : Fin cfg.poolSize => true) = some ⟨0, hp⟩ :=
    Slots.first_eq_some_of_least rfl fun j hj => absurd hj (Nat.not_lt_zero _)
  simp [crossing, run, step, init, State.call, State.begins, State.goes, State.ends, State.returns,
    galeDynamicAllocDecide_eq, galeDynamicFreeDecide_eq, hp, hf, List.lookup]

theorem along_crossing {limit : Nat} (hl : 1 < limit) (cfg : Config) (hp : 0 < cfg.poolSize) :
    Along step (State.Overlaps limit) (init cfg) (crossing cfg hp) := by
  have hf : Slots.first (fun _ : Fin cfg.poolSize => true) = some ⟨0, hp⟩ :=
    Slots.first_eq_some_of_least rfl fun j hj => absurd hj (Nat.not_lt_zero _)
  have hz : 0 < limit := by omega
  simp [crossing, Along, step, init, State.call, State.begins, State.goes, State.ends, State.returns,
    galeDynamicAllocDecide_eq, galeDynamicFreeDecide_eq, hp, hf, List.lookup,
    State.Overlaps, hl, hz]

theorem step_without_pool (hp : cfg.poolSize = 0) (hc : s.calls = []) (op : Op cfg) : step s op = none := by
  cases op with
  | FreeBit thread off => exact absurd off.isLt (by omega)
  | AllocRead thread size => simp [step, hp]
  | AllocBit thread | AllocWrite thread | FreeRead thread | FreeWrite thread =>
    simp [step, State.call, hc]

theorem pool_active_honest_iff (cfg : Config) (limit : Nat) :
    (∀ ops, Along step (State.Overlaps limit) (init cfg) ops →
        Throughout step State.Honest (init cfg) ops) ↔
      cfg.poolSize = 0 ∨ limit ≤ 1 := by
  have hi : (init cfg).Serial := .inl ⟨rfl, by simp [init, State.setBits, Slots.count]⟩
  constructor
  · intro h
    by_contra hnot
    obtain ⟨hp, hl⟩ := not_or.mp hnot
    have hp : 0 < cfg.poolSize := Nat.pos_of_ne_zero hp
    have hh := (h _ (along_crossing (Nat.not_le.mp hl) cfg hp)).last
      (run_crossing cfg hp)
    have hst : Slots.count id (update (fun _ => false) ⟨0, hp⟩ true) =
        (init cfg).setBits + 1 := setBits_set (s := init cfg) rfl
    exact absurd ((hh rfl).1.trans hst) (Nat.succ_ne_zero _).symm
  · rintro hor ops halong
    have hsr : Throughout step State.Serial (init cfg) ops := by
      rcases hor with hp | hl
      · have hid : Throughout step (fun s => s.calls = [] ∧ s.Serial) (init cfg) ops := by
          refine throughout_of_step (fun s op next h hs => ?_) ⟨rfl, hi⟩ ops
          rw [step_without_pool hp h.1 op] at hs
          cases hs
        exact hid.mono fun _ h => h.2
      · exact throughout_of_along
          (fun _ _ _ h hop hs => step_serial h (overlaps_mono hl hop) hs) hi halong
    exact hsr.mono fun _ h => Serial.honest h

-- Two slots: the second thread reads the count while the first has a slot, and writes
-- it back after that slot is free. The pool looks full from then on, with a slot free.
theorem looks_full_with_a_free_slot : ∃ s : State ⟨2, 1024⟩,
      run step (init ⟨2, 1024⟩) (alone ⟨2, 1024⟩ 1 512 ++
        [.AllocRead 2 512, .FreeBit 1 0, .FreeRead 1, .FreeWrite 1, .AllocBit 2, .AllocWrite 2]) =
          some s ∧
      s.calls = [] ∧ s.galePoolActive = 2 ∧ s.dynamicBa 1 = false ∧
      (step s (.AllocRead 3 512)).map (fun next => next.returned.getLast?) = some (some (3, none)) :=
  ⟨_, rfl, rfl, rfl, rfl, rfl⟩

end Gale.Dynamic
