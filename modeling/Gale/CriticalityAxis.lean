import Mathlib

namespace Gale.CriticalityAxis

-- From tools/xtask/src/gates/criticality_axis.rs.

def UNARGUED : String := "open"
def BY_CONSTRUCTION : String := "prevented-by-construction"

inductive Class where
  | Spatial
  | Temporal
  | Information
  deriving DecidableEq

def CLASSES : List Class := [.Spatial, .Temporal, .Information]

def KNOWN_OPEN : List (String × Class) :=
  [("FFI-WB55-001", .Spatial), ("FFI-WB55-001", .Temporal), ("FFI-WB55-001", .Information)]

structure Assignment where
  id : String
  element : String
  criticality : String
  target : String

structure FfiArg where
  id : String
  fromElement : String
  toElement : String
  target : String
  spatial : String
  temporal : String
  information : String
  construction : String

-- What Rust's trim removes.
def isWhitespace (c : Char) : Bool :=
  (9 ≤ c.toNat && c.toNat ≤ 13) || (0x2000 ≤ c.toNat && c.toNat ≤ 0x200A) ||
    c.toNat ∈ [0x20, 0x85, 0xA0, 0x1680, 0x2028, 0x2029, 0x202F, 0x205F, 0x3000]

def isBlank (text : String) : Bool := text.toList.all isWhitespace

inductive Failure where
  | MissingField (id : String)
  | UnknownElement (id element : String)
  | NoArgument (target : String) (a b : Assignment)
  | Unargued (id : String) (cls : Class)
  | NoConstruction (id : String) (cls : Class)
  | NoLongerOpen (id : String) (cls : Class)

inductive Verdict where
  | Refused
  | Fail (failures : List Failure)
  | Pass

def ledgered (id : String) (cls : Class) : Bool := KNOWN_OPEN.any fun (i, c) => i == id && c == cls

namespace FfiArg

def disposition (f : FfiArg) : Class → String
  | .Spatial => f.spatial
  | .Temporal => f.temporal
  | .Information => f.information

def isKnownOpen (f : FfiArg) (cls : Class) : Bool :=
  f.disposition cls == UNARGUED && ledgered f.id cls

def failures (f : FfiArg) (cls : Class) : List Failure :=
  (if f.isKnownOpen cls then []
    else if f.disposition cls = "" ∨ f.disposition cls = UNARGUED then [.Unargued f.id cls] else []) ++
    if f.disposition cls = BY_CONSTRUCTION ∧ isBlank f.construction then [.NoConstruction f.id cls]
    else []

end FfiArg

-- The index keeps the last argument that is inserted under a key.
def lookup (ffi : List FfiArg) (fromElement toElement target : String) : Option FfiArg :=
  ffi.reverse.find? fun f =>
    f.fromElement = fromElement ∧ f.toElement = toElement ∧ f.target = target

def assignmentFailures (ids : List String) (a : Assignment) : List Failure :=
  if a.element = "" ∨ a.criticality = "" ∨ a.target = "" then [.MissingField a.id]
  else if a.element ∉ ids then [.UnknownElement a.id a.element]
  else []

-- The ordered pairs that owe an argument, of the assignments that are taken over.
def pairs (ids : List String) (asg : List Assignment) : List (Assignment × Assignment) :=
  let kept := asg.filter fun a => (assignmentFailures ids a).isEmpty
  kept.flatMap fun a => (kept.filter fun b => a.target = b.target ∧
    ¬ (a.element = b.element ∨ a.criticality = b.criticality)).map fun b => (a, b)

def argument (ffi : List FfiArg) (pair : Assignment × Assignment) : Option FfiArg :=
  lookup ffi pair.1.element pair.2.element pair.1.target

def pairFailures (ffi : List FfiArg) (pair : Assignment × Assignment) : List Failure :=
  match argument ffi pair with
  | none => [.NoArgument pair.1.target pair.1 pair.2]
  | some f => CLASSES.flatMap f.failures

def openSeen (ffi : List FfiArg) (pairs : List (Assignment × Assignment)) : List (String × Class) :=
  (pairs.filterMap (argument ffi)).flatMap fun f => (CLASSES.filter f.isKnownOpen).map fun cls => (f.id, cls)

-- run, on what collect returned. The failures of all targets are taken together, and the
-- lines of the report are left out.
def run (asg : List Assignment) (ffi : List FfiArg) (ids : List String) : Verdict :=
  if asg.isEmpty then .Refused
  else
    let seen := openSeen ffi (pairs ids asg)
    let fail := asg.flatMap (assignmentFailures ids) ++ (pairs ids asg).flatMap (pairFailures ffi) ++
      (KNOWN_OPEN.filter fun entry => entry ∉ seen).map fun (id, cls) => .NoLongerOpen id cls
    if fail.isEmpty then .Pass else .Fail fail

def FfiArg.Dispositioned (f : FfiArg) : Prop := ∀ cls,
  (f.isKnownOpen cls ∨ f.disposition cls ≠ "" ∧ f.disposition cls ≠ UNARGUED) ∧
    (f.disposition cls = BY_CONSTRUCTION → ¬ isBlank f.construction)

section Gate

variable {asg : List Assignment} {ffi : List FfiArg} {ids : List String}

-- Both elements of the argument are assigned to its target.
def FfiArg.Between (asg : List Assignment) (f : FfiArg) : Prop := ∃ a ∈ asg, ∃ b ∈ asg,
  a.element = f.fromElement ∧ b.element = f.toElement ∧ a.target = f.target ∧ b.target = f.target

def SingleCriticality (asg : List Assignment) : Prop := ∀ a ∈ asg, ∀ b ∈ asg,
  a.element = b.element → a.target = b.target → a.criticality = b.criticality

structure Complete (asg : List Assignment) (ffi : List FfiArg) : Prop where
  argued : ∀ a ∈ asg, ∀ b ∈ asg, a.target = b.target → a.element ≠ b.element →
    a.criticality ≠ b.criticality → ∃ f ∈ ffi,
      f.fromElement = a.element ∧ f.toElement = b.element ∧ f.target = a.target
  single : SingleCriticality asg
  dispositioned : ∀ f ∈ ffi, f.Between asg → f.Dispositioned

-- The gate looks at the argument: it is the last of its key, and a pair owes it.
def FfiArg.LookedAt (asg : List Assignment) (ffi : List FfiArg) (f : FfiArg) : Prop :=
  lookup ffi f.fromElement f.toElement f.target = some f ∧ ∃ a ∈ asg, ∃ b ∈ asg,
    a.element = f.fromElement ∧ b.element = f.toElement ∧ a.target = f.target ∧ b.target = f.target ∧
      a.element ≠ b.element ∧ a.criticality ≠ b.criticality

theorem failures_eq_nil {f : FfiArg} : CLASSES.flatMap f.failures = [] ↔ f.Dispositioned := by
  have ha : (∀ cls ∈ CLASSES, f.failures cls = []) ↔ ∀ cls, f.failures cls = [] := by
    refine forall_congr' fun cls => ?_
    cases cls <;> simp [CLASSES]
  rw [List.flatMap_eq_nil_iff, ha]
  refine forall_congr' fun cls => ?_
  rw [FfiArg.failures, List.append_eq_nil_iff]
  refine and_congr ?_ ?_
  · split_ifs with hk hu
    · simp [hk]
    · simp [hk, ← not_or, hu]
    · simp [← not_or, hu]
  · split_ifs with hc
    · simp [hc]
    · simpa using not_and.mp hc

theorem mem_pairs {a b : Assignment} (hk : ∀ a ∈ asg, assignmentFailures ids a = []) :
    (a, b) ∈ pairs ids asg ↔ a ∈ asg ∧ b ∈ asg ∧ a.target = b.target ∧ a.element ≠ b.element ∧
      a.criticality ≠ b.criticality := by
  have hf : asg.filter (fun a => (assignmentFailures ids a).isEmpty) = asg :=
    List.filter_eq_self.mpr fun a ha => by simp [hk a ha]
  simp only [pairs, hf, List.mem_flatMap, List.mem_map, List.mem_filter, Prod.mk.injEq]
  simp

theorem run_eq_pass (h : run asg ffi ids = .Pass) :
    (∀ a ∈ asg, assignmentFailures ids a = []) ∧ ∀ pair ∈ pairs ids asg, pairFailures ffi pair = [] := by
  simp only [run] at h
  split_ifs at h with he hf
  simp only [List.isEmpty_iff, List.append_eq_nil_iff, List.flatMap_eq_nil_iff] at hf
  exact hf.1

theorem lookup_spec {fromElement toElement target : String} {f : FfiArg}
    (h : lookup ffi fromElement toElement target = some f) : f ∈ ffi ∧ f.fromElement = fromElement ∧
      f.toElement = toElement ∧ f.target = target := by
  have hk := List.find?_some h
  rw [decide_eq_true_iff] at hk
  exact ⟨List.mem_reverse.mp (List.mem_of_find?_eq_some h), hk⟩

theorem argument_of_pass (h : run asg ffi ids = .Pass) {a b : Assignment} (ha : a ∈ asg) (hb : b ∈ asg)
    (ht : a.target = b.target) (he : a.element ≠ b.element) (hc : a.criticality ≠ b.criticality) :
    ∃ f, lookup ffi a.element b.element a.target = some f ∧ f.Dispositioned := by
  obtain ⟨hk, hpr⟩ := run_eq_pass h
  have hp := hpr (a, b) ((mem_pairs hk).mpr ⟨ha, hb, ht, he, hc⟩)
  cases hf : lookup ffi a.element b.element a.target with
  | none => simp [pairFailures, argument, hf] at hp
  | some f =>
    simp only [pairFailures, argument, hf] at hp
    exact ⟨f, rfl, failures_eq_nil.mp hp⟩

end Gate

theorem pass_complete_iff {asg : List Assignment} {ffi : List FfiArg} {ids : List String}
    (hp : run asg ffi ids = .Pass) :
    Complete asg ffi ↔ SingleCriticality asg ∧
      ∀ f ∈ ffi, f.Between asg → ¬ f.LookedAt asg ffi → f.Dispositioned := by
  refine ⟨fun h => ⟨h.single, fun f hf hb _ => h.dispositioned f hf hb⟩, fun ⟨hs, hr⟩ => ?_⟩
  refine ⟨fun a ha b hb ht he hc => ?_, hs, fun f hf hb => ?_⟩
  · obtain ⟨f, hl, -⟩ := argument_of_pass hp ha hb ht he hc
    exact ⟨f, lookup_spec hl⟩
  · by_cases hlk : f.LookedAt asg ffi
    · obtain ⟨hls, a, ha, b, hb, hfr, hto, hta, htb, he, hc⟩ := hlk
      obtain ⟨g, hl, hd⟩ := argument_of_pass hp ha hb (hta.trans htb.symm) he hc
      rw [hfr, hto, hta] at hl
      cases hls.symm.trans hl
      exact hd
    · exact hr f hf hb hlk

def pair : List Assignment := [⟨"CA-1", "A", "ASIL-D", "T"⟩, ⟨"CA-2", "B", "QM", "T"⟩]

def argued : List FfiArg :=
  [⟨"FFI-WB55-001", "A", "B", "T", "open", "open", "open", ""⟩,
    ⟨"FFI-1", "B", "A", "T", "mitigated", "mitigated", "mitigated", ""⟩]

theorem pair_complete_iff : run pair argued ["A", "B"] = .Pass ∧
    (Complete pair argued ↔ SingleCriticality pair ∧
      ∀ f ∈ argued, f.Between pair → ¬ f.LookedAt pair argued → f.Dispositioned) := by
  have hp : run pair argued ["A", "B"] = .Pass := rfl
  exact ⟨hp, pass_complete_iff hp⟩

-- An argument behind another one of its key, and an element with a second criticality.
def hidden : FfiArg := ⟨"FFI-0", "B", "A", "T", "open", "", "", ""⟩

theorem hidden_argument_passes : run pair (hidden :: argued) ["A", "B"] = .Pass ∧
    hidden.isKnownOpen .Spatial = false ∧ hidden.disposition .Spatial = UNARGUED ∧
    run (pair ++ [⟨"CA-3", "A", "QM", "T"⟩]) argued ["A", "B"] = .Pass :=
  ⟨rfl, rfl, rfl, rfl⟩

end Gale.CriticalityAxis
