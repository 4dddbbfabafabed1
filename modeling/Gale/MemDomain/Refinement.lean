import Gale.MemDomain.Accounting
import Gale.MemDomain.KernelPath

namespace Gale.MemDomain

open Function Lib

inductive Request where
  | Init (parts : List MemPartition)
  | Add (part : MemPartition)
  | Remove (start size : UInt32)

def codeOf : Except Int Slot → Int
  | .ok _ => OK
  | .error code => code

def initParts (d : MemDomain) : List MemPartition → MemDomain × Int
  | [] => (d, OK)
  | part :: rest =>
    match d.addPartition part with
    | (next, .ok _) => next.initParts rest
    | (next, .error code) => (next, code)

-- An init of more partitions than there are slots does not reach the model.
-- There is no answer where the model panics.
def serve (d : MemDomain) : Request → Option (MemDomain × Int)
  | .Init parts =>
    if parts.length ≤ MAX_PARTITIONS then some (MemDomain.init.initParts parts)
    else some (d, EINVAL)
  | .Add part => some ((d.addPartition part).1, codeOf (d.addPartition part).2)
  | .Remove start size =>
    (d.removePartition start size).map fun result => (result.1, codeOf result.2)

def KMemDomain.serve (d : KMemDomain) : Request → KMemDomain × Int
  | .Init parts => d.kMemDomainInit parts
  | .Add part => d.kMemDomainAddPartition part
  | .Remove start size => d.kMemDomainRemovePartition start size

def activeRanges (partitions : Slot → MemPartition) : Set (UInt32 × UInt32) :=
  {r | ∃ i, (partitions i).isFree = false ∧ (partitions i).bounds = r}

-- The two domains agree on which slots are free and on the active ones. What
-- a freed slot keeps of its partition is not compared.
structure Refines (c : KMemDomain) (m : MemDomain) : Prop where
  wellFormed : m.WellFormed
  free_eq : ∀ i, (c.partitions i).isFree = (m.partitions i).isFree
  bounds_eq : ∀ i, (m.partitions i).isFree = false → (c.partitions i).bounds = (m.partitions i).bounds
  num_eq : c.numPartitions = m.numPartitions

namespace Refines

variable {c : KMemDomain} {m : MemDomain}

theorem zeroed : Refines .zeroed MemDomain.init where
  wellFormed := init_wellFormed
  free_eq := fun _ => rfl
  bounds_eq := fun _ _ => rfl
  num_eq := rfl

theorem activeRanges_eq (h : Refines c m) : activeRanges c.partitions = activeRanges m.partitions := by
  ext r
  constructor
  · rintro ⟨i, hi, hb⟩
    rw [h.free_eq] at hi
    exact ⟨i, hi, (h.bounds_eq i hi).symm.trans hb⟩
  · rintro ⟨i, hi, hb⟩
    exact ⟨i, (h.free_eq i).trans hi, (h.bounds_eq i hi).trans hb⟩

theorem count_eq (h : Refines c m) : c.numPartitions = Slots.count (fun p => !p.isFree) c.partitions := by
  rw [h.num_eq, h.wellFormed.count]
  simp [activeCount, Slots.count, h.free_eq]

theorem num_le (h : Refines c m) : c.numPartitions ≤ MAX_PARTITIONS := by
  rw [h.count_eq]
  exact Slots.count_le _ _

theorem sizes_eq_zero (h : Refines c m) (i : Slot) :
    decide (c.sizes i = 0) = (m.partitions i).isFree :=
  h.free_eq i

theorem overlap_eq (h : Refines c m) (part : MemPartition) (i : Slot) : (c.sizes i > 0 &&
        partitionsOverlapDecide part.start part.size (c.starts i) (c.sizes i)) =
      !((m.partitions i).isFree || !part.overlaps (m.partitions i)) := by
  have hsi := h.sizes_eq_zero i
  cases hf : (m.partitions i).isFree with
  | true =>
    rw [hf, decide_eq_true_iff] at hsi
    simp [hsi]
  | false =>
    rw [hf, decide_eq_false_iff_not] at hsi
    obtain ⟨hs, hsz⟩ := Prod.mk.inj (h.bounds_eq i hf)
    have hp : c.sizes i > 0 := UInt32.pos_iff_ne_zero.mpr hsi
    have hst : c.starts i = (m.partitions i).start := hs
    have hss : c.sizes i = (m.partitions i).size := hsz
    rw [decide_eq_true hp, Bool.true_and, Bool.false_or, Bool.not_not, partitionsOverlapDecide, hst, hss]
    rfl

theorem check_eq (h : Refines c m) (part : MemPartition) :
    galeMemDomainCheckPartition part.start part.size c.starts c.sizes =
      if m.checkAddPartition part then OK else EINVAL := by
  simp only [galeMemDomainCheckPartition, h.overlap_eq]
  by_cases hs : part.size = 0
  · have hr : m.checkAddPartition part = false := by simp [checkAddPartition, hs]
    simp [partitionValidDecide, hs, hr]
  · by_cases he : part.endU64 > U32_MAX
    · have ho : ¬ part.start.toNat + part.size.toNat ≤ U32_MAX := Nat.not_le.mpr he
      have hr : m.checkAddPartition part = false := by simp [checkAddPartition, he]
      simp [partitionValidDecide, ho, hr]
    · have hp : part.size > 0 := UInt32.pos_iff_ne_zero.mpr hs
      have hf : part.start.toNat + part.size.toNat ≤ U32_MAX := Nat.not_lt.mp he
      have hv : partitionValidDecide part.start part.size = true := by
        simp [partitionValidDecide, hp, hf]
      have hc : m.checkAddPartition part = (List.finRange MAX_PARTITIONS).all fun i =>
          (m.partitions i).isFree || !part.overlaps (m.partitions i) := by
        rw [checkAddPartition, if_neg hs, if_neg he]
      rw [hv, hc, ← List.not_all_eq_any_not]
      cases (List.finRange MAX_PARTITIONS).all fun i =>
        (m.partitions i).isFree || !part.overlaps (m.partitions i) <;> rfl

variable {slot : Slot} {start size : UInt32} {k : Nat}

theorem write (h : Refines c m) {cpart mpart : MemPartition} {cnum mnum : Nat}
    (hwf : WellFormed { partitions := update m.partitions slot mpart,
                        numPartitions := mnum }) (hf : cpart.isFree = mpart.isFree)
    (hb : mpart.isFree = false → cpart.bounds = mpart.bounds) (hn : cnum = mnum) :
    Refines { partitions := update c.partitions slot cpart, numPartitions := cnum }
      { partitions := update m.partitions slot mpart, numPartitions := mnum } where
  wellFormed := hwf
  free_eq := by
    intro i
    by_cases heq : i = slot
    · subst heq
      simpa only [update_self] using hf
    · simpa only [update_of_ne heq] using h.free_eq i
  bounds_eq := by
    intro i hi
    by_cases heq : i = slot
    · subst heq
      simp only [update_self] at hi ⊢
      exact hb hi
    · simp only [update_of_ne heq] at hi ⊢
      exact h.bounds_eq i hi
  num_eq := hn

theorem place (h : Refines c m) {part : MemPartition} (hf : (m.partitions slot).isFree = true)
    (hc : m.checkAddPartition part = true) :
    Refines { partitions := update c.partitions slot part
              numPartitions := (c.numPartitions + 1) % 256 }
      { partitions := update m.partitions slot part
        numPartitions := m.numPartitions + 1 } := by
  refine h.write (h.wellFormed.add hf hc) rfl (fun _ => rfl) ?_
  have hle := h.num_le
  have hn := h.num_eq
  simp only [MAX_PARTITIONS] at hle
  omega

theorem first_free (h : Refines c m) : (Slots.first fun i => decide (c.sizes i = 0)) =
      Slots.first fun i => (m.partitions i).isFree := by
  simp only [h.sizes_eq_zero]

theorem add_eq (h : Refines c m) (part : MemPartition) : c.kMemDomainAddPartition part =
      if m.checkAddPartition part then
        match Slots.first fun i => (m.partitions i).isFree with
        | some slot =>
          ({ partitions := update c.partitions slot part
             numPartitions := (c.numPartitions + 1) % 256 }, OK)
        | none => (c, ENOSPC)
      else (c, EINVAL) := by
  simp only [KMemDomain.kMemDomainAddPartition, galeKMemDomainAddPartitionDecide, h.check_eq, h.first_free]
  cases m.checkAddPartition part with
  | false => rfl
  | true => cases (Slots.first fun i => (m.partitions i).isFree) <;> rfl

theorem add (h : Refines c m) (part : MemPartition) :
    (c.kMemDomainAddPartition part).2 = codeOf (m.addPartition part).2 ∧
      Refines (c.kMemDomainAddPartition part).1 (m.addPartition part).1 := by
  by_cases hc : m.checkAddPartition part = true
  · cases hf : Slots.first fun i => (m.partitions i).isFree with
    | none =>
      simp only [h.add_eq, addPartition, hc, hf, if_true]
      exact ⟨rfl, h⟩
    | some slot =>
      simp only [h.add_eq, addPartition, hc, hf, if_true]
      exact ⟨rfl, h.place (Slots.of_first_eq_some hf) hc⟩
  · simp only [h.add_eq, addPartition, if_neg hc]
    exact ⟨rfl, h⟩

-- What a remove may not ask for: the empty range at the start a free slot has
-- in C (what its last partition had) or in the model (zero).
def Unmatched (c : KMemDomain) (start size : UInt32) : Prop :=
  size = 0 → ∀ i, (c.partitions i).isFree = true → (c.partitions i).start ≠ start ∧ start ≠ 0

theorem remove_first (h : Refines c m) (hc : Unmatched c start size) :
    (Slots.first fun i => decide (c.starts i = start) && decide (c.sizes i = size)) = Slots.first fun i =>
        decide ((m.partitions i).start = start) && decide ((m.partitions i).size = size) := by
  congr 1
  funext i
  cases hf : (m.partitions i).isFree with
  | false =>
    obtain ⟨hst, hs⟩ := Prod.mk.inj (h.bounds_eq i hf)
    rw [KMemDomain.starts, KMemDomain.sizes, hst, hs]
  | true =>
    have hcf := (h.free_eq i).trans hf
    have hcz : c.sizes i = 0 := by simpa [hf] using h.sizes_eq_zero i
    have hms : (m.partitions i).size = 0 := by simpa [MemPartition.isFree] using hf
    have hm := h.wellFormed.cleared i hf
    by_cases hs : size = 0
    · obtain ⟨ho, hz⟩ := hc hs i hcf
      have hcs : c.starts i ≠ start := ho
      simp [hcs, hm, hz.symm]
    · simp [hcz, hms, Ne.symm hs]

theorem clear (h : Refines c m) (ha : (m.partitions slot).isFree = false) :
    Refines { partitions := update c.partitions slot { c.partitions slot with size := 0 }
              numPartitions := (if c.numPartitions > 0 then c.numPartitions - 1 else 0) % 256 }
      { partitions := update m.partitions slot .empty
        numPartitions := m.numPartitions - 1 } := by
  refine h.write (h.wellFormed.remove ha) rfl (fun he => ?_) ?_
  · cases he
  · have hle := h.num_le
    have hn := h.num_eq
    simp only [MAX_PARTITIONS] at hle
    split <;> omega

theorem active_of_bounds (h : Refines c m) (hc : Unmatched c start size)
    (hb : (m.partitions slot).bounds = (start, size)) :
    (m.partitions slot).isFree = false := by
  by_contra hfree
  rw [Bool.not_eq_false] at hfree
  obtain ⟨hs, hsz⟩ := Prod.mk.inj (hb.symm.trans (h.wellFormed.bounds_of_free hfree))
  exact (hc hsz slot ((h.free_eq slot).trans hfree)).2 hs

theorem remove (h : Refines c m) (hc : Unmatched c start size) :
    ∃ next result, m.removePartition start size = some (next, result) ∧
      (c.kMemDomainRemovePartition start size).2 = codeOf result ∧
      Refines (c.kMemDomainRemovePartition start size).1 next := by
  cases hf : Slots.first fun i =>
      decide ((m.partitions i).start = start) && decide ((m.partitions i).size = size) with
  | none =>
    refine ⟨m, .error ENOENT, ?_, ?_⟩
    · simp [removePartition, hf]
    · simp only [KMemDomain.kMemDomainRemovePartition, galeKMemDomainRemovePartitionDecide, h.remove_first hc, hf]
      exact ⟨rfl, h⟩
  | some slot =>
    have hm := Slots.of_first_eq_some hf
    simp only [Bool.and_eq_true, decide_eq_true_eq] at hm
    have ha := h.active_of_bounds hc (Prod.ext hm.1 hm.2)
    have hn : m.numPartitions ≠ 0 := by
      have hcn := activeCount_clear ha 0
      rw [h.wellFormed.count]
      omega
    refine ⟨{ partitions := update m.partitions slot .empty
              numPartitions := m.numPartitions - 1 }, .ok slot, ?_, ?_⟩
    · simp [removePartition, hf, if_neg hn]
    · simp only [KMemDomain.kMemDomainRemovePartition, galeKMemDomainRemovePartitionDecide, h.remove_first hc, hf]
      exact ⟨rfl, h.clear ha⟩

-- The state of the loop of an init at index k: the slots below it are taken
-- and the others free.
def FilledTo (m : MemDomain) (k : Nat) : Prop :=
  ∀ j, (m.partitions j).isFree = decide (k ≤ j.val)

theorem FilledTo.first_free (hf : FilledTo m k) (hk : k < MAX_PARTITIONS) :
    (Slots.first fun i => (m.partitions i).isFree) = some ⟨k, hk⟩ := by
  apply Slots.first_eq_some_of_least
  · simp [hf _]
  · intro j hj
    have hlt : j.val < k := hj
    simp [hf j, hlt]

theorem FilledTo.place {num : Nat} (hf : FilledTo m k) (hk : k < MAX_PARTITIONS)
    {part : MemPartition} (ha : part.isFree = false) :
    FilledTo { partitions := update m.partitions ⟨k, hk⟩ part, numPartitions := num }
      (k + 1) := by
  intro j
  by_cases heq : j = ⟨k, hk⟩
  · subst heq
    simp [ha]
  · have hne : j.val ≠ k := fun hv => heq (Fin.ext hv)
    simp only [update_of_ne heq, hf j]
    congr 1
    apply propext
    omega

theorem initParts (ps : List MemPartition) (h : Refines c m) (hf : FilledTo m k)
    (hr : k + ps.length ≤ MAX_PARTITIONS) :
    (c.initParts k ps).2 = (m.initParts ps).2 ∧ Refines (c.initParts k ps).1 (m.initParts ps).1 := by
  induction ps generalizing c m k with
  | nil => exact ⟨rfl, h⟩
  | cons part rest ih =>
    simp only [KMemDomain.initParts, galeMemDomainInitValidatePartition, h.check_eq]
    by_cases hc : m.checkAddPartition part = true
    · simp only [List.length_cons] at hr
      have hk : k < MAX_PARTITIONS := by omega
      have hfr := hf.first_free hk
      have hi : (fun j : Slot => if j.val = k then part else c.partitions j) = update c.partitions ⟨k, hk⟩ part := by
        funext j
        simp [update_apply, Fin.ext_iff]
      simp only [MemDomain.initParts, addPartition, hc, hfr, hi, if_true, ne_eq, not_true_eq_false, if_false]
      apply ih (h.place (Slots.of_first_eq_some hfr) hc)
      · exact hf.place hk (of_checkAddPartition hc).1
      · omega
    · have hrf : EINVAL ≠ OK := by decide
      simp only [MemDomain.initParts, addPartition, if_neg hc, if_pos hrf]
      exact ⟨trivial, h⟩

theorem init (c : KMemDomain) {ps : List MemPartition} (hr : ps.length ≤ MAX_PARTITIONS) :
    (c.kMemDomainInit ps).2 = (MemDomain.init.initParts ps).2 ∧
      Refines (c.kMemDomainInit ps).1 (MemDomain.init.initParts ps).1 := by
  rw [KMemDomain.kMemDomainInit, if_pos hr]
  apply zeroed.initParts ps
  · intro j
    rfl
  · omega

end Refines

-- Both domains under the same requests. The flag tells whether the last two
-- answers were the same code; no answer is not the same as any.
structure Pair where
  c : KMemDomain
  m : MemDomain
  agree : Bool

namespace Pair

def start : Pair where
  c := .zeroed
  m := MemDomain.init
  agree := true

def step (p : Pair) (request : Request) : Option Pair :=
  match p.m.serve request with
  | some (m, code) =>
    some { c := (p.c.serve request).1, m, agree := (p.c.serve request).2 = code }
  | none => some { c := (p.c.serve request).1, m := p.m, agree := false }

structure Implements (p : Pair) : Prop where
  agree : p.agree = true
  ranges : activeRanges p.c.partitions = activeRanges p.m.partitions
  count : p.c.numPartitions = Slots.count (fun part => !part.isFree) p.c.partitions

def NamesActive (p : Pair) : Request → Prop
  | .Remove start size => Refines.Unmatched p.c start size
  | _ => True

structure Inv (p : Pair) : Prop where
  refines : Refines p.c p.m
  agree : p.agree = true

variable {p next : Pair} {c : KMemDomain}

theorem Inv.implements (h : p.Inv) : p.Implements where
  agree := h.agree
  ranges := h.refines.activeRanges_eq
  count := h.refines.count_eq

theorem start_inv : start.Inv where
  refines := .zeroed
  agree := rfl

theorem Inv.step {request : Request} (h : p.Inv) (hcn : p.NamesActive request)
    (hs : p.step request = some next) : next.Inv := by
  cases request with
  | Init ps =>
    by_cases hrm : ps.length ≤ MAX_PARTITIONS
    · obtain ⟨hc, hr⟩ := Refines.init p.c hrm
      simp only [Pair.step, serve, KMemDomain.serve, if_pos hrm, Option.some.injEq] at hs
      subst hs
      exact ⟨hr, decide_eq_true hc⟩
    · simp only [Pair.step, serve, KMemDomain.serve, KMemDomain.kMemDomainInit, if_neg hrm, Option.some.injEq] at hs
      subst hs
      exact ⟨h.refines, by simp⟩
  | Add part =>
    obtain ⟨hc, hr⟩ := h.refines.add part
    simp only [Pair.step, serve, KMemDomain.serve, Option.some.injEq] at hs
    subst hs
    exact ⟨hr, decide_eq_true hc⟩
  | Remove start size =>
    obtain ⟨m, result, heq, hc, hr⟩ := h.refines.remove hcn
    simp only [Pair.step, serve, KMemDomain.serve, heq, Option.map_some, Option.some.injEq] at hs
    subst hs
    exact ⟨hr, decide_eq_true hc⟩

theorem remove_free_count {m : MemDomain} (h : Refines c m) {start : UInt32} {slot : Slot}
    (hf : (Slots.first fun i => decide (c.starts i = start) && decide (c.sizes i = 0)) =
      some slot) (hp : c.numPartitions ≠ 0) :
    (c.kMemDomainRemovePartition start 0).1.numPartitions ≠
      Slots.count (fun part => !part.isFree) (c.kMemDomainRemovePartition start 0).1.partitions := by
  have hm := Slots.of_first_eq_some hf
  simp only [Bool.and_eq_true, decide_eq_true_eq] at hm
  have hfr : (c.partitions slot).isFree = true := by
    simpa [MemPartition.isFree, KMemDomain.sizes] using hm.2
  have hs := Slots.count_update (fun part => !part.isFree) c.partitions slot
    { c.partitions slot with size := 0 }
  have hc : MemPartition.isFree { c.partitions slot with size := 0 } = true := rfl
  have hcn := h.count_eq
  simp only [hfr, hc, Bool.not_true, Bool.false_eq_true, if_false] at hs
  simp only [KMemDomain.kMemDomainRemovePartition, galeKMemDomainRemovePartitionDecide, hf]
  rw [if_pos (Nat.pos_of_ne_zero hp)]
  omega

theorem code_of_first_none {start size : UInt32}
    (hf : (Slots.first fun i => decide (c.starts i = start) && decide (c.sizes i = size)) = none) :
    (c.kMemDomainRemovePartition start size).2 = ENOENT := by
  simp [KMemDomain.kMemDomainRemovePartition, galeKMemDomainRemovePartitionDecide, hf]

theorem code_of_first_some {start size : UInt32} {slot : Slot}
    (hf : (Slots.first fun i => decide (c.starts i = start) && decide (c.sizes i = size)) = some slot) :
    (c.kMemDomainRemovePartition start size).2 = OK := by
  simp only [KMemDomain.kMemDomainRemovePartition, galeKMemDomainRemovePartitionDecide, hf]
  rfl

theorem Inv.remove_zero_breaks (h : p.Inv) {i : Slot} (hfr : (p.c.partitions i).isFree = true)
    (hs : p.step (.Remove 0 0) = some next) :
    ¬ next.Implements := by
  have hm := (h.refines.free_eq i).symm.trans hfr
  have hb := h.refines.wellFormed.bounds_of_free hm
  rcases p.m.removePartition_cases 0 0 with heq | ⟨hn, _⟩ | ⟨slot, _, hnm, heq⟩
  · simp only [Pair.step, serve, heq, Option.map_none, Option.some.injEq] at hs
    subst hs
    intro hi
    cases hi.agree
  · exact absurd hb (hn i)
  · simp only [Pair.step, serve, KMemDomain.serve, heq, Option.map_some, Option.some.injEq] at hs
    subst hs
    intro hi
    cases hf : Slots.first fun i => decide (p.c.starts i = 0) && decide (p.c.sizes i = 0) with
    | none =>
      have ha := hi.agree
      simp only [code_of_first_none hf, codeOf] at ha
      cases ha
    | some found =>
      have hp : p.c.numPartitions ≠ 0 := by
        rw [h.refines.num_eq]
        exact hnm
      exact remove_free_count h.refines hf hp hi.count

theorem Inv.remove_residue_breaks (h : p.Inv) {start : UInt32} {i : Slot}
    (hfr : (p.c.partitions i).isFree = true) (hst : (p.c.partitions i).start = start)
    (hne : start ≠ 0) (hs : p.step (.Remove start 0) = some next) : ¬ next.Implements := by
  have hc : (p.c.kMemDomainRemovePartition start 0).2 = OK := by
    cases hf : Slots.first fun i => decide (p.c.starts i = start) && decide (p.c.sizes i = 0) with
    | none =>
      have hi := Slots.of_first_eq_none hf i
      have hsz : p.c.sizes i = 0 := by
        simpa [MemPartition.isFree, KMemDomain.sizes] using hfr
      have hsr : p.c.starts i = start := hst
      simp [hsz, hsr] at hi
    | some slot => exact code_of_first_some hf
  have hn : ∀ j, (p.m.partitions j).bounds ≠ (start, 0) := by
    intro j hb
    obtain ⟨hj, hjs⟩ := Prod.mk.inj hb
    have hjf : (p.m.partitions j).isFree = true := by simpa [MemPartition.isFree] using hjs
    exact hne (hj.symm.trans (h.refines.wellFormed.cleared j hjf))
  rcases p.m.removePartition_cases start 0 with heq | ⟨_, heq⟩ | ⟨slot, hb, _, _⟩
  · simp only [Pair.step, serve, heq, Option.map_none, Option.some.injEq] at hs
    subst hs
    intro him
    cases him.agree
  · simp only [Pair.step, serve, KMemDomain.serve, heq, hc, Option.map_some, Option.some.injEq] at hs
    subst hs
    intro him
    cases him.agree
  · exact absurd hb (hn slot)

theorem NamesActive.breaks {request : Request} (h : p.Inv) (hc : ¬ p.NamesActive request)
    (hs : p.step request = some next) : ¬ next.Implements := by
  cases request with
  | Init ps | Add part => exact absurd trivial hc
  | Remove start size =>
    simp only [NamesActive, Refines.Unmatched, Classical.not_imp, not_forall] at hc
    obtain ⟨rfl, i, hf, hm⟩ := hc
    by_cases hz : start = 0
    · subst hz
      exact h.remove_zero_breaks hf hs
    · have hst : (p.c.partitions i).start = start := by
        by_contra hne
        exact hm ⟨hne, hz⟩
      exact h.remove_residue_breaks hf hst hz hs

-- A freed slot keeps its start in C: asking for the empty range there succeeds,
-- where the model finds no partition.
theorem implements_fails :
    ¬ ∀ requests : List Request, Throughout Pair.step Implements start requests := by
  intro h
  have hi := (h [.Init [⟨0x1000, 0x100, 0⟩], .Remove 0x1000 0x100, .Remove 0x1000 0]).2 _ rfl
  have hr := hi.2 _ rfl
  have ha := hr.2 _ rfl
  cases ha.agree

theorem implements_iff_namesActive (requests : List Request) :
    Throughout Pair.step Implements start requests ↔ Along Pair.step NamesActive start requests :=
  throughout_iff_along Inv (fun _ h => h.implements) (fun _ _ _ h hc hs => h.step hc hs)
    (fun _ _ _ h hc hs => NamesActive.breaks h hc hs) start_inv requests

end Pair

end Gale.MemDomain
