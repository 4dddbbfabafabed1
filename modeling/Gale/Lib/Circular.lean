import Mathlib

namespace Gale.Lib

open Function

variable {α : Type*}

-- A doubly linked list in memory that closes on itself: next and prev are the
-- links stored in the nodes.
def Circular (next prev : α → α) (nodes : List α) : Prop :=
  Cycle.Chain (fun node other => next node = other ∧ prev other = node) nodes

namespace Circular

variable {next prev next' prev' : α → α} {nodes rest : List α} {node : α}

theorem nil : Circular next prev [] := Cycle.Chain.nil _

theorem cons_iff : Circular next prev (node :: rest) ↔ List.IsChain (fun node o => next node = o ∧ prev o = node)
      (node :: (rest ++ [node])) :=
  Iff.rfl

theorem singleton_iff : Circular next prev [node] ↔ next node = node ∧ prev node = node :=
  Cycle.chain_singleton _ _

theorem rotate {other : List α} (hr : nodes ~r other) (h : Circular next prev nodes) : Circular next prev other := by
  unfold Circular at *
  rwa [← Cycle.coe_eq_coe.mpr hr]

theorem exists_rotated_cons (hm : node ∈ nodes) : ∃ rest, nodes ~r node :: rest := by
  obtain ⟨fr, back, rfl⟩ := List.append_of_mem hm
  exact ⟨back ++ fr, List.isRotated_append⟩

-- Between its ends a chain depends on the next of all nodes but the last and on
-- the prev of all but the first.
theorem chain_congr (hn : ∀ o ∈ nodes.dropLast, next' o = next o) (hp : ∀ o ∈ nodes.tail, prev' o = prev o)
    (h : List.IsChain (fun node o => next node = o ∧ prev o = node) nodes) :
    List.IsChain (fun node o => next' node = o ∧ prev' o = node) nodes := by
  induction nodes with
  | nil => exact List.isChain_nil
  | cons first rest ih =>
    cases rest with
    | nil => exact List.isChain_singleton _
    | cons b tail =>
      obtain ⟨hl, hr⟩ := List.isChain_cons_cons.mp h
      refine List.isChain_cons_cons.mpr ⟨⟨?_, ?_⟩, ih ?_ ?_ hr⟩
      · rw [hn first (by simp)]
        exact hl.1
      · rw [hp b (by simp)]
        exact hl.2
      · exact fun o hm => hn o (by
          exact List.mem_cons_of_mem _ hm)
      · exact fun o hm => hp o (List.mem_of_mem_tail hm)

theorem congr (hn : ∀ o ∈ nodes, next' o = next o)
    (hp : ∀ o ∈ nodes, prev' o = prev o) (h : Circular next prev nodes) :
    Circular next' prev' nodes := by
  cases nodes with
  | nil => exact nil
  | cons first rest =>
    refine cons_iff.mpr (chain_congr ?_ ?_ (cons_iff.mp h))
    · intro o hm
      rw [← List.cons_append, List.dropLast_concat] at hm
      exact hn o hm
    · intro o hm
      exact hp o (by simpa [or_comm] using hm)

theorem cons_concat_iff {first : α} : Circular next prev (node :: (rest ++ [first])) ↔
    List.IsChain (fun node o => next node = o ∧ prev o = node) (rest ++ [first]) ∧
      (rest ++ [first]).head? = some (next node) ∧ prev (next node) = node ∧
      next first = node ∧ prev node = first := by
  rw [cons_iff, List.append_assoc, List.singleton_append, List.isChain_cons_append_cons_cons, List.isChain_cons]
  constructor
  · rintro ⟨⟨hh, hc⟩, hl, -⟩
    obtain ⟨second, hs⟩ : ∃ second, (rest ++ [first]).head? = some second := by
      cases rest <;> simp
    obtain ⟨hn, hp⟩ := hh second hs
    subst hn
    exact ⟨hc, hs, hp, hl⟩
  · rintro ⟨hc, hh, hp, hl⟩
    refine ⟨⟨fun second hs => ?_, hc⟩, hl, List.isChain_singleton _⟩
    cases hh.symm.trans hs
    exact ⟨rfl, hp⟩

theorem links_of_mem (h : Circular next prev nodes) (hm : node ∈ nodes) :
    next node ∈ nodes ∧ prev node ∈ nodes ∧ prev (next node) = node ∧ next (prev node) = node := by
  obtain ⟨rest, hr⟩ := exists_rotated_cons hm
  have hc := h.rotate hr
  rw [hr.perm.mem_iff, hr.perm.mem_iff]
  rcases List.eq_nil_or_concat rest with rfl | ⟨fr, first, rfl⟩
  · obtain ⟨hn, hp⟩ := singleton_iff.mp hc
    simp [hn, hp]
  · rw [List.concat_eq_append] at hc ⊢
    obtain ⟨-, hh, hb, hf, hp⟩ := cons_concat_iff.mp hc
    refine ⟨List.mem_cons_of_mem _ (List.mem_of_mem_head? hh), by simp [hp], hb, ?_⟩
    rw [hp, hf]

theorem next_eq_self_iff (h : Circular next prev (node :: rest)) (hn : (node :: rest).Nodup) :
    next node = node ↔ rest = [] := by
  constructor
  · intro hs
    rcases List.eq_nil_or_concat rest with rfl | ⟨fr, first, rfl⟩
    · rfl
    · rw [List.concat_eq_append] at h hn
      have hh := (cons_concat_iff.mp h).2.1
      rw [hs] at hh
      exact absurd (List.mem_of_mem_head? hh) (List.nodup_cons.mp hn).1
  · rintro rfl
    exact (singleton_iff.mp h).1

variable [DecidableEq α]

theorem remove (h : Circular next prev (node :: rest)) (hn : (node :: rest).Nodup) (hr : rest ≠ []) :
    rest.head? = some (next node) ∧ Circular (update next (prev node) (next node))
        (update prev (next node) (prev node)) rest := by
  rcases List.eq_nil_or_concat rest with rfl | ⟨fr, first, rfl⟩
  · exact absurd rfl hr
  rw [List.concat_eq_append] at *
  obtain ⟨hc, hh, hp, hnx, hl⟩ := cons_concat_iff.mp h
  have hnd := (List.nodup_cons.mp hn).2
  refine ⟨hh, ?_⟩
  rw [hl]
  cases fr with
  | nil =>
    simp only [List.nil_append, List.head?_cons, Option.some.injEq] at hh
    rw [← hh, List.nil_append, singleton_iff, update_self, update_self]
    exact ⟨rfl, rfl⟩
  | cons b tail =>
    simp only [List.cons_append, List.head?_cons, Option.some.injEq] at hh
    subst hh
    rw [List.cons_append, cons_iff, List.append_assoc, List.singleton_append, List.isChain_cons_append_cons_cons]
    refine ⟨chain_congr ?_ ?_ hc, ⟨update_self .., update_self ..⟩, List.isChain_singleton _⟩
    · intro o hm
      rw [← List.cons_append, List.dropLast_concat] at hm
      refine update_of_ne ?_ _ _
      rintro rfl
      exact (List.nodup_append.mp hnd).2.2 o hm o (by simp) rfl
    · intro o hm
      refine update_of_ne ?_ _ _
      rintro rfl
      exact (List.nodup_cons.mp hnd).1 hm

theorem append (h : Circular next prev nodes) (hn : nodes.Nodup) {second : α}
    (hh : nodes.head? = some second) (hnd : node ∉ nodes) :
    Circular (update (update next node second) (prev second) node)
      (update (update prev node (prev second)) second node)
      (nodes ++ [node]) := by
  rcases List.eq_nil_or_concat nodes with rfl | ⟨fr, first, rfl⟩
  · cases hh
  rw [List.concat_eq_append] at *
  -- entered at its last node, the list shows the link from the last to the first
  have ht : Circular next prev (first :: fr) := h.rotate List.isRotated_append
  obtain ⟨hln, hc⟩ := List.isChain_cons.mp (cons_iff.mp ht)
  obtain ⟨-, hp⟩ := hln second hh
  rw [hp]
  have hs : second ∈ fr ++ [first] := List.mem_of_mem_head? hh
  have hnode_ne : ∀ o ∈ fr ++ [first], o ≠ node := by
    rintro o hm rfl
    exact hnd hm
  have hfirst_ne := hnode_ne first (by simp)
  have hsecond_ne := hnode_ne second hs
  refine Circular.rotate (List.isRotated_append (l := [node])) ?_
  rw [List.singleton_append, cons_concat_iff]
  refine ⟨chain_congr ?_ ?_ hc, ?_, ?_, update_self .., ?_⟩
  · intro o hm
    rw [List.dropLast_concat] at hm
    have ho : o ≠ first := by
      rintro rfl
      exact (List.nodup_append.mp hn).2.2 o hm o (by simp) rfl
    rw [update_of_ne ho, update_of_ne (hnode_ne o (by simp [hm]))]
  · intro o hm
    have ho : o ≠ second := by
      rintro rfl
      cases hl : fr ++ [first] with
      | nil => simp [hl] at hh
      | cons head tail =>
        simp only [hl, List.head?_cons, Option.some.injEq, List.tail_cons] at hh hm
        rw [hl, List.nodup_cons, hh] at hn
        exact hn.1 hm
    rw [update_of_ne ho, update_of_ne (hnode_ne o (List.mem_of_mem_tail hm))]
  · rw [update_of_ne hfirst_ne.symm, update_self]
    exact hh
  · rw [update_of_ne hfirst_ne.symm, update_self, update_self]
  · rw [update_of_ne hsecond_ne.symm, update_self]

end Circular

end Gale.Lib
