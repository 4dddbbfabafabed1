import Mathlib

namespace Gale.Lib

variable {α κ : Type*}

-- A list of entries of which no two have the same key.
structure Registry (key : α → κ) where
  entries : List α
  nodup : (entries.map key).Nodup

-- What is done to each entry in passing over a registry: it is changed, under the same
-- key, or removed.
structure Visit (key : α → κ) where
  apply : α → Option α
  key_eq : ∀ {a b}, apply a = some b → key b = key a

namespace Visit

variable {key : α → κ}

def always (f : α → α) (h : ∀ a, key (f a) = key a) : Visit key where
  apply a := some (f a)
  key_eq := by
    intro a b hb
    cases hb
    exact h a

def remove : Visit key where
  apply _ := none
  key_eq := fun hb => nomatch hb

def only [DecidableEq κ] (v : Visit key) (k : κ) : Visit key where
  apply a := if key a = k then v.apply a else some a
  key_eq := by
    intro a b hb
    split at hb
    · exact v.key_eq hb
    · cases hb
      rfl

end Visit

namespace Registry

variable {key : α → κ} (r : Registry key)

theorem eq_of_key_eq {a b : α} (ha : a ∈ r.entries) (hb : b ∈ r.entries) (h : key a = key b) : a = b :=
  List.inj_on_of_nodup_map r.nodup ha hb h

def foreach (r : Registry key) (v : Visit key) : Registry key where
  entries := r.entries.filterMap v.apply
  nodup := by
    have hsub : ((r.entries.filterMap v.apply).map key).Sublist (r.entries.map key) := by
      induction r.entries with
      | nil => exact List.Sublist.refl _
      | cons a rest ih =>
        cases ha : v.apply a with
        | none =>
          rw [List.filterMap_cons_none ha]
          exact ih.trans (List.sublist_cons_self _ _)
        | some b =>
          rw [List.filterMap_cons_some ha, List.map_cons, List.map_cons, v.key_eq ha]
          exact ih.cons_cons _
    exact r.nodup.sublist hsub

variable {v : Visit key}

theorem foreach_congr {w : Visit key} (h : ∀ a ∈ r.entries, v.apply a = w.apply a) : r.foreach v = r.foreach w := by
  simp only [foreach, List.filterMap_congr h]

theorem foreach_eq_self (h : ∀ a ∈ r.entries, v.apply a = some a) : r.foreach v = r := by
  simp only [foreach, List.filterMap_congr h, List.filterMap_some]

theorem foreach_foreach (v w : Visit key) {u : Visit key} (h : ∀ a ∈ r.entries, u.apply a = (v.apply a).bind w.apply) :
    (r.foreach v).foreach w = r.foreach u := by
  simp only [foreach, List.filterMap_filterMap, List.filterMap_congr h]

theorem mem_foreach {r : Registry key} {b : α} : b ∈ (r.foreach v).entries ↔ ∃ a ∈ r.entries, v.apply a = some b :=
  List.mem_filterMap

section Find

variable [DecidableEq κ]

def find? (r : Registry key) (k : κ) : Option α := r.entries.find? fun a => key a = k

variable {k : κ}

theorem find?_eq_some {r : Registry key} {a : α} : r.find? k = some a ↔ a ∈ r.entries ∧ key a = k := by
  constructor
  · intro h
    exact ⟨List.mem_of_find?_eq_some h, by simpa using List.find?_some h⟩
  · rintro ⟨hm, rfl⟩
    cases h : r.find? (key a) with
    | none => simpa using List.find?_eq_none.mp h a hm
    | some b =>
      have hb : key b = key a := by simpa using List.find?_some h
      rw [r.eq_of_key_eq (List.mem_of_find?_eq_some h) hm hb]

theorem find?_eq_none {r : Registry key} : r.find? k = none ↔ ∀ a ∈ r.entries, key a ≠ k := by
  simp [find?]

theorem find?_foreach (r : Registry key) (v : Visit key) (k : κ) :
    (r.foreach v).find? k = (r.find? k).bind v.apply := by
  ext b
  rw [find?_eq_some, mem_foreach, Option.bind_eq_some_iff]
  constructor
  · rintro ⟨⟨a, ha, hb⟩, rfl⟩
    exact ⟨a, find?_eq_some.mpr ⟨ha, (v.key_eq hb).symm⟩, hb⟩
  · rintro ⟨a, ha, hb⟩
    obtain ⟨hm, rfl⟩ := find?_eq_some.mp ha
    exact ⟨⟨a, hm, hb⟩, v.key_eq hb⟩

theorem find?_only (r : Registry key) (v : Visit key) (k other : κ) : (r.foreach (v.only k)).find? other =
      if other = k then (r.find? other).bind v.apply else r.find? other := by
  rw [find?_foreach]
  cases hf : r.find? other with
  | none => simp
  | some a =>
    obtain ⟨-, rfl⟩ := find?_eq_some.mp hf
    simp [Visit.only]

def append (r : Registry key) (a : α) (h : r.find? (key a) = none) : Registry key where
  entries := r.entries ++ [a]
  nodup := by
    rw [List.map_append, List.nodup_append]
    refine ⟨r.nodup, List.nodup_singleton _, ?_⟩
    intro k hk other hother
    obtain ⟨b, hb, rfl⟩ := List.mem_map.mp hk
    rw [List.mem_singleton.mp hother]
    exact find?_eq_none.mp h b hb

variable {r : Registry key} {a : α}

theorem mem_append {h : r.find? (key a) = none} {b : α} : b ∈ (r.append a h).entries ↔ b ∈ r.entries ∨ b = a := by
  simp [append]

theorem find?_append (h : r.find? (key a) = none) (k : κ) :
    (r.append a h).find? k = if key a = k then some a else r.find? k := by
  simp only [find?, append, List.find?_append]
  split
  · next hk =>
      subst hk
      have hn : r.entries.find? (fun b => decide (key b = key a)) = none := h
      simp [hn]
  · next hk => simp [hk]

theorem append_only (h : r.find? (key a) = none) {f : α → α} (hf : ∀ a, key (f a) = key a)
    (hk : key a = k) : (r.append a h).foreach ((Visit.always f hf).only k) = r.append (f a) (by rw [hf]; exact h) := by
  subst hk
  have hr : r.entries.filterMap ((Visit.always f hf).only (key a)).apply = r.entries := by
    calc r.entries.filterMap ((Visit.always f hf).only (key a)).apply
        = r.entries.filterMap some := by
          apply List.filterMap_congr
          intro b hb
          exact if_neg (find?_eq_none.mp h b hb)
      _ = r.entries := List.filterMap_some
  simp only [foreach, append, List.filterMap_append, hr]
  simp [Visit.only, Visit.always]

end Find

section Count

def count (r : Registry key) (p : α → Bool) : Nat := r.entries.countP p

variable {r : Registry key} {p : α → Bool}

theorem count_eq_zero : r.count p = 0 ↔ ∀ a ∈ r.entries, p a = false := by
  simp [count, List.countP_eq_zero]

theorem count_split (r : Registry key) (p q : α → Bool) :
    r.count p = r.count (fun a => p a && q a) + r.count (fun a => p a && !q a) := by
  simp only [count]
  induction r.entries with
  | nil => rfl
  | cons a rest ih =>
    simp only [List.countP_cons, ih]
    cases p a <;> cases q a <;> simp <;> omega

theorem count_eq_one {a : α} (ha : a ∈ r.entries) (hp : p a = true)
    (ho : ∀ b ∈ r.entries, p b = true → b = a) : r.count p = 1 := by
  classical
  have hc : r.entries.countP p = r.entries.countP (· == a) := by
    apply List.countP_congr
    intro b hb
    simp only [beq_iff_eq]
    exact ⟨ho b hb, fun h => h ▸ hp⟩
  rw [count, hc]
  exact List.count_eq_one_of_mem r.nodup.of_map ha

theorem count_foreach (r : Registry key) (v : Visit key) (hp : ∀ {a b}, v.apply a = some b → p b = p a) :
    (r.foreach v).count p + r.count (fun a => p a && (v.apply a).isNone) = r.count p := by
  simp only [count, foreach]
  induction r.entries with
  | nil => rfl
  | cons a rest ih =>
    cases ha : v.apply a with
    | none =>
      rw [List.filterMap_cons_none ha]
      simp only [List.countP_cons, ha, Option.isNone_none, Bool.and_true]
      omega
    | some b =>
      rw [List.filterMap_cons_some ha]
      simp only [List.countP_cons, hp ha, ha, Option.isNone_some, Bool.and_false]
      simp only [Bool.false_eq_true, if_false]
      omega

theorem count_append [DecidableEq κ] {a : α} (h : r.find? (key a) = none) (p : α → Bool) :
    (r.append a h).count p = r.count p + if p a then 1 else 0 := by
  simp [count, append, List.countP_append, List.countP_cons]

end Count

end Registry

end Gale.Lib
