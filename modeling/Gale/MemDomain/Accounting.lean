import Gale.MemDomain
import Gale.Lib.Run

namespace Gale.MemDomain

open Function Lib

inductive Call where
  | Add (part : MemPartition)
  | Remove (start size : UInt32)

def range (r : UInt32 × UInt32) : Set Nat := Set.Ico r.1.toNat (r.1.toNat + r.2.toNat)

def MemPartition.bounds (p : MemPartition) : UInt32 × UInt32 := (p.start, p.size)

theorem MemPartition.overlaps_comm (p q : MemPartition) : p.overlaps q = q.overlaps p := by
  simp only [overlaps, Bool.and_comm]

theorem MemPartition.disjoint_of_not_overlaps {p q : MemPartition} (h : p.overlaps q = false) :
    Disjoint (range p.bounds) (range q.bounds) := by
  simp only [overlaps, endU64, gt_iff_lt, Bool.and_eq_false_iff, decide_eq_false_iff_not] at h
  rw [Set.disjoint_left]
  intro a hp hq
  simp only [range, bounds, Set.mem_Ico] at hp hq
  omega

theorem MemPartition.overlaps_of_bounds_eq {p q : MemPartition} (h : p.isFree = false)
    (hb : p.bounds = q.bounds) : p.overlaps q = true := by
  obtain ⟨hs, hsz⟩ := Prod.mk.inj hb
  have hp : 0 < p.size.toNat := by
    simp only [isFree, decide_eq_false_iff_not] at h
    have hne : p.size.toNat ≠ 0 := fun hz => h (UInt32.toNat.inj hz)
    omega
  have hlt : p.endU64 > p.start.toNat := by
    simp only [endU64]
    omega
  have he : q.endU64 = p.endU64 := by simp [endU64, hs, hsz]
  simp [overlaps, ← hs, he, hlt]

variable {d : MemDomain} {part : MemPartition} {slot : Slot}

theorem of_checkAddPartition (h : d.checkAddPartition part = true) : part.isFree = false ∧ part.endU64 ≤ U32_MAX ∧
      ∀ i, (d.partitions i).isFree = false → part.overlaps (d.partitions i) = false := by
  unfold checkAddPartition at h
  split at h
  · cases h
  · next hs =>
    split at h
    · cases h
    · next he =>
      refine ⟨by simpa [MemPartition.isFree], Nat.not_lt.mp he, fun i ha => ?_⟩
      have hi := List.all_eq_true.mp h i (List.mem_finRange i)
      simpa [ha] using hi

theorem addPartition_cases (d : MemDomain) (part : MemPartition) : (∃ code, d.addPartition part = (d, .error code)) ∨
    (∃ slot, (d.partitions slot).isFree = true ∧ d.checkAddPartition part = true ∧ d.addPartition part =
        ({ partitions := update d.partitions slot part
           numPartitions := d.numPartitions + 1 }, .ok slot)) := by
  unfold addPartition
  split
  · next hc =>
    split
    · next slot hf => exact .inr ⟨slot, Slots.of_first_eq_some hf, hc, rfl⟩
    · exact .inl ⟨ENOSPC, rfl⟩
  · exact .inl ⟨EINVAL, rfl⟩

theorem removePartition_cases (d : MemDomain) (start size : UInt32) : d.removePartition start size = none ∨
    ((∀ i, (d.partitions i).bounds ≠ (start, size)) ∧ d.removePartition start size = some (d, .error ENOENT)) ∨
    (∃ slot, (d.partitions slot).bounds = (start, size) ∧ d.numPartitions ≠ 0 ∧ d.removePartition start size =
        some ({ partitions := update d.partitions slot .empty
                numPartitions := d.numPartitions - 1 }, .ok slot)) := by
  unfold removePartition
  split
  · next slot hf =>
    split
    · exact .inl rfl
    · next hc =>
      have hm := Slots.of_first_eq_some hf
      exact .inr (.inr ⟨slot, by simpa [MemPartition.bounds] using hm, hc, rfl⟩)
  · next hf =>
    refine .inr (.inl ⟨fun i hb => ?_, rfl⟩)
    have hn := Slots.of_first_eq_none hf i
    simp only [MemPartition.bounds, Prod.mk.injEq] at hb
    simp [hb] at hn

def activeCount (d : MemDomain) : Nat := Slots.count (fun p => !p.isFree) d.partitions

-- What an invariant of the table alone says; the free slots are those never
-- used or cleared by a remove.
structure WellFormed (d : MemDomain) : Prop where
  count : d.numPartitions = d.activeCount
  noWrap : ∀ i, (d.partitions i).isFree = false → (d.partitions i).endU64 ≤ U32_MAX
  apart : ∀ i j, i ≠ j → (d.partitions i).isFree = false → (d.partitions j).isFree = false →
    (d.partitions i).overlaps (d.partitions j) = false
  cleared : ∀ i, (d.partitions i).isFree = true → (d.partitions i).start = 0

theorem WellFormed.bounds_inj (h : d.WellFormed) {i j : Slot} (hi : (d.partitions i).isFree = false)
    (hb : (d.partitions i).bounds = (d.partitions j).bounds) : i = j := by
  have hs := (Prod.mk.inj hb).2
  have hj : (d.partitions j).isFree = false := by
    rw [← hi, MemPartition.isFree, MemPartition.isFree, hs]
  by_contra hne
  have ha := h.apart i j hne hi hj
  rw [MemPartition.overlaps_of_bounds_eq hi hb] at ha
  cases ha

theorem WellFormed.bounds_of_free (h : d.WellFormed) {i : Slot}
    (hf : (d.partitions i).isFree = true) : (d.partitions i).bounds = (0, 0) := by
  have hz : (d.partitions i).size = 0 := by simpa [MemPartition.isFree] using hf
  rw [MemPartition.bounds, h.cleared i hf, hz]

theorem init_wellFormed : init.WellFormed where
  count := by decide
  noWrap := by
    intro i ha
    cases ha
  apart := by
    intro i j _ ha
    cases ha
  cleared := fun _ _ => rfl

theorem WellFormed.write (h : d.WellFormed) {num : Nat}
    (hcn : num = Slots.count (fun p => !p.isFree) (update d.partitions slot part))
    (ha : part.isFree = false → part.endU64 ≤ U32_MAX ∧
      ∀ i, i ≠ slot → (d.partitions i).isFree = false → part.overlaps (d.partitions i) = false)
    (hc : part.isFree = true → part.start = 0) :
    WellFormed { partitions := update d.partitions slot part, numPartitions := num } where
  count := hcn
  noWrap := by
    intro i hi
    by_cases heq : i = slot
    · subst heq
      simp only [update_self] at hi ⊢
      exact (ha hi).1
    · simp only [update_of_ne heq] at hi ⊢
      exact h.noWrap i hi
  apart := by
    intro i j hne hi hj
    by_cases hs : i = slot
    · subst hs
      simp only [update_self, update_of_ne hne.symm] at hi hj ⊢
      exact (ha hi).2 j hne.symm hj
    · by_cases ho : j = slot
      · subst ho
        simp only [update_self, update_of_ne hne] at hi hj ⊢
        rw [MemPartition.overlaps_comm]
        exact (ha hj).2 i hne hi
      · simp only [update_of_ne hs, update_of_ne ho] at hi hj ⊢
        exact h.apart i j hne hi hj
  cleared := by
    intro i hi
    by_cases heq : i = slot
    · subst heq
      simp only [update_self] at hi ⊢
      exact hc hi
    · simp only [update_of_ne heq] at hi ⊢
      exact h.cleared i hi

theorem WellFormed.add (h : d.WellFormed) (hf : (d.partitions slot).isFree = true)
    (hc : d.checkAddPartition part = true) :
    WellFormed { partitions := update d.partitions slot part
                 numPartitions := d.numPartitions + 1 } := by
  obtain ⟨ha, he, hcl⟩ := of_checkAddPartition hc
  refine h.write ?_ (fun _ => ⟨he, fun i _ => hcl i⟩) fun hp => ?_
  · have hcn := Slots.count_update (fun p => !p.isFree) d.partitions slot part
    simp only [hf, ha, Bool.not_true, Bool.not_false, Bool.false_eq_true, if_false, if_true] at hcn
    have hb := h.count
    simp only [activeCount] at hb
    omega
  · rw [ha] at hp
    cases hp

theorem activeCount_clear (ha : (d.partitions slot).isFree = false) (num : Nat) :
    activeCount { partitions := update d.partitions slot .empty, numPartitions := num } + 1 =
      d.activeCount := by
  have hc := Slots.count_update (fun p => !p.isFree) d.partitions slot .empty
  have he : MemPartition.empty.isFree = true := rfl
  simpa only [activeCount, ha, he, Bool.not_true, Bool.not_false, Bool.false_eq_true, if_false, if_true,
    Nat.add_zero] using hc

theorem WellFormed.remove (h : d.WellFormed) (ha : (d.partitions slot).isFree = false) :
    WellFormed { partitions := update d.partitions slot .empty
                 numPartitions := d.numPartitions - 1 } := by
  refine h.write ?_ (fun he => ?_) fun _ => rfl
  · have hc := activeCount_clear ha (d.numPartitions - 1)
    have hb := h.count
    simp only [activeCount] at hc hb
    omega
  · cases he

-- The domain with the ranges added and not yet removed, as the results of the
-- calls report them.
structure Ledger where
  domain : MemDomain
  live : List (UInt32 × UInt32)

namespace Ledger

def init : Ledger where
  domain := MemDomain.init
  live := []

def step (l : Ledger) : Call → Option Ledger
  | .Add part =>
    match l.domain.addPartition part with
    | (domain, .ok _) => some { domain, live := part.bounds :: l.live }
    | (domain, .error _) => some { domain, live := l.live }
  | .Remove start size =>
    match l.domain.removePartition start size with
    | none => none
    | some (domain, .ok _) => some { domain, live := l.live.erase (start, size) }
    | some (domain, .error _) => some { domain, live := l.live }

structure Accounted (l : Ledger) : Prop where
  count : l.domain.numPartitions = l.domain.activeCount
  disjoint : ∀ i j, i ≠ j → (l.domain.partitions i).isFree = false →
    (l.domain.partitions j).isFree = false →
    Disjoint (range (l.domain.partitions i).bounds) (range (l.domain.partitions j).bounds)
  noWrap : ∀ i, (l.domain.partitions i).isFree = false → (l.domain.partitions i).endU64 ≤ U32_MAX
  union : (⋃ i ∈ {i | (l.domain.partitions i).isFree = false},
    range (l.domain.partitions i).bounds) = ⋃ r ∈ l.live, range r

def RemovesOne (l : Ledger) : Call → Prop
  | .Remove start size => ∀ domain slot, l.domain.removePartition start size = some (domain, .ok slot) →
        (l.domain.partitions slot).isFree = false ∧
        (l.domain.partitions slot).bounds = (start, size) ∧
        domain.partitions = update l.domain.partitions slot .empty
  | _ => True

def NamesActive (l : Ledger) : Call → Prop
  | .Remove start size =>
    ¬ (start = 0 ∧ size = 0 ∧ ∃ i, (l.domain.partitions i).isFree = true)
  | _ => True

structure Inv (l : Ledger) : Prop where
  wellFormed : l.domain.WellFormed
  nodup : l.live.Nodup
  mem_live : ∀ r, r ∈ l.live ↔
    ∃ i, (l.domain.partitions i).isFree = false ∧ (l.domain.partitions i).bounds = r

variable {l next : Ledger} {slot : Slot}

theorem Inv.accounted (h : l.Inv) : l.Accounted where
  count := h.wellFormed.count
  disjoint := fun i j hne hi hj =>
    MemPartition.disjoint_of_not_overlaps (h.wellFormed.apart i j hne hi hj)
  noWrap := h.wellFormed.noWrap
  union := by
    ext a
    simp only [Set.mem_iUnion, Set.mem_ofPred_eq, exists_prop]
    constructor
    · rintro ⟨i, hi, ha⟩
      exact ⟨_, (h.mem_live _).mpr ⟨i, hi, rfl⟩, ha⟩
    · rintro ⟨r, hr, ha⟩
      obtain ⟨i, hi, rfl⟩ := (h.mem_live r).mp hr
      exact ⟨i, hi, ha⟩

theorem init_inv : init.Inv where
  wellFormed := init_wellFormed
  nodup := List.nodup_nil
  mem_live := by
    intro r
    constructor
    · intro hr
      cases hr
    · rintro ⟨i, ha, _⟩
      cases ha

theorem Inv.add (h : l.Inv) {part : MemPartition} (hf : (l.domain.partitions slot).isFree = true)
    (hc : l.domain.checkAddPartition part = true) :
    Inv { domain := { partitions := update l.domain.partitions slot part
                      numPartitions := l.domain.numPartitions + 1 }
          live := part.bounds :: l.live } where
  wellFormed := h.wellFormed.add hf hc
  nodup := by
    obtain ⟨ha, _, hcl⟩ := of_checkAddPartition hc
    refine List.nodup_cons.mpr ⟨fun hm => ?_, h.nodup⟩
    obtain ⟨i, hi, hb⟩ := (h.mem_live _).mp hm
    have hap := hcl i hi
    rw [MemPartition.overlaps_of_bounds_eq ha hb.symm] at hap
    cases hap
  mem_live := by
    intro r
    rw [List.mem_cons, h.mem_live]
    constructor
    · rintro (rfl | ⟨i, hi, hb⟩)
      · exact ⟨slot, by simpa using (of_checkAddPartition hc).1, by simp⟩
      · have hne : i ≠ slot := by
          rintro rfl
          rw [hf] at hi
          cases hi
        exact ⟨i, by simpa [update_of_ne hne] using hi, by simpa [update_of_ne hne] using hb⟩
    · rintro ⟨i, hi, hb⟩
      by_cases heq : i = slot
      · subst heq
        simp only [update_self] at hb
        exact .inl hb.symm
      · simp only [update_of_ne heq] at hi hb
        exact .inr ⟨i, hi, hb⟩

theorem Inv.remove (h : l.Inv) (ha : (l.domain.partitions slot).isFree = false) :
    Inv { domain := { partitions := update l.domain.partitions slot .empty
                      numPartitions := l.domain.numPartitions - 1 }
          live := l.live.erase (l.domain.partitions slot).bounds } where
  wellFormed := h.wellFormed.remove ha
  nodup := h.nodup.erase _
  mem_live := by
    intro r
    rw [h.nodup.mem_erase_iff, h.mem_live]
    constructor
    · rintro ⟨hne, i, hi, rfl⟩
      have hs : i ≠ slot := by
        rintro rfl
        exact hne rfl
      exact ⟨i, by simpa [update_of_ne hs] using hi, by simp [update_of_ne hs]⟩
    · rintro ⟨i, hi, hb⟩
      by_cases heq : i = slot
      · subst heq
        simp only [update_self] at hi
        cases hi
      · simp only [update_of_ne heq] at hi hb
        refine ⟨fun hr => heq ?_, i, hi, hb⟩
        exact h.wellFormed.bounds_inj hi (hb.trans hr)

theorem Inv.active_of_bounds (h : l.Inv) {start size : UInt32} (hc : l.NamesActive (.Remove start size))
    (hb : (l.domain.partitions slot).bounds = (start, size)) :
    (l.domain.partitions slot).isFree = false := by
  by_contra hfree
  rw [Bool.not_eq_false] at hfree
  obtain ⟨hs, hsz⟩ := Prod.mk.inj (hb.symm.trans (h.wellFormed.bounds_of_free hfree))
  exact hc ⟨hs, hsz, slot, hfree⟩

theorem Inv.step {call : Call} (h : l.Inv) (hc : l.NamesActive call) (hs : l.step call = some next) : next.Inv := by
  cases call with
  | Add part =>
    rcases l.domain.addPartition_cases part with ⟨code, heq⟩ |
      ⟨slot, hfree, hcheck, heq⟩
    · simp only [Ledger.step, heq, Option.some.injEq] at hs
      subst hs
      exact h
    · simp only [Ledger.step, heq, Option.some.injEq] at hs
      subst hs
      exact h.add hfree hcheck
  | Remove start size =>
    rcases l.domain.removePartition_cases start size with heq | ⟨_, heq⟩ | ⟨slot, hb, _, heq⟩
    · simp only [Ledger.step, heq] at hs
      cases hs
    · simp only [Ledger.step, heq, Option.some.injEq] at hs
      subst hs
      exact h
    · simp only [Ledger.step, heq, Option.some.injEq] at hs
      subst hs
      have ha := h.active_of_bounds hc hb
      rw [← hb]
      exact h.remove ha

theorem Inv.removesOne (h : l.Inv) {call : Call} (hc : l.NamesActive call) : l.RemovesOne call := by
  cases call with
  | Add part => trivial
  | Remove start size =>
    intro domain found hr
    rcases l.domain.removePartition_cases start size with heq | ⟨_, heq⟩ | ⟨slot, hb, _, heq⟩
    · rw [heq] at hr
      cases hr
    · rw [heq] at hr
      cases hr
    · rw [heq] at hr
      cases hr
      exact ⟨h.active_of_bounds hc hb, hb, rfl⟩

theorem Inv.remove_free_breaks (h : l.Inv) {i : Slot}
    (hf : (l.domain.partitions i).isFree = true) (hs : l.step (.Remove 0 0) = some next) :
    ¬ next.Accounted := by
  have hi := h.wellFormed.bounds_of_free hf
  rcases l.domain.removePartition_cases 0 0 with heq | ⟨hn, _⟩ | ⟨slot, hb, hc, heq⟩
  · simp only [Ledger.step, heq] at hs
    cases hs
  · exact absurd hi (hn i)
  · simp only [Ledger.step, heq, Option.some.injEq] at hs
    subst hs
    intro hac
    have hsl : (l.domain.partitions slot).isFree = true := by
      simpa [MemPartition.isFree] using (Prod.mk.inj hb).2
    have he : MemPartition.empty.isFree = true := rfl
    have hsm := Slots.count_update (fun p => !p.isFree) l.domain.partitions slot .empty
    have ha := hac.count
    have hbf := h.wellFormed.count
    simp only [hsl, he, activeCount] at hsm ha hbf
    omega

theorem NamesActive.breaks {call : Call} (h : l.Inv) (hc : ¬ l.NamesActive call)
    (hs : l.step call = some next) : ¬ next.Accounted := by
  cases call with
  | Add part => exact absurd trivial hc
  | Remove start size =>
    obtain ⟨rfl, rfl, i, hf⟩ := Classical.not_not.mp hc
    exact h.remove_free_breaks hf hs

-- One active partition, and a remove of the empty range: it succeeds and the
-- count no longer covers the partition.
theorem accounting_fails : ¬ ∀ calls : List Call,
      Throughout Ledger.step Accounted init calls ∧ Along Ledger.step RemovesOne init calls := by
  intro h
  have ha := (h [.Add ⟨0x1000, 0x100, 0⟩, .Remove 0 0]).1.2 _ rfl
  have hr := ha.2 _ rfl
  have hc : (0 : Nat) = 1 := hr.count
  cases hc

theorem accounting_iff_namesActive (calls : List Call) :
    (Throughout Ledger.step Accounted init calls ∧ Along Ledger.step RemovesOne init calls) ↔
      Along Ledger.step NamesActive init calls := by
  have hif : Throughout Ledger.step Accounted init calls ↔ Along Ledger.step NamesActive init calls :=
    throughout_iff_along Inv (fun _ h => h.accounted) (fun _ _ _ h hc hs => h.step hc hs)
      (fun _ _ _ h hc hs => NamesActive.breaks h hc hs) init_inv calls
  refine ⟨fun h => hif.mp h.1, fun h => ⟨hif.mpr h, ?_⟩⟩
  have hin := throughout_of_along (fun _ _ _ hi hc hs => Inv.step hi hc hs) init_inv h
  exact Along.of_throughout (fun _ _ _ hi _ hc => Inv.removesOne hi hc) hin h

end Ledger

end Gale.MemDomain
