import Gale.Lib.Past
import Gale.Userspace.Indexes

namespace Gale.Userspace

open Lib Lib.Bits

variable {bits : Nat}

section Events

variable (o : Nat) (t : Tid)

def MakesPublic (e : State bits × Op) : Prop := e.2 = .AllGrant o

def Creates (e : State bits × Op) : Prop := e.1.created e.2 = some o

def Holds (s : State bits) (thread : Tid) : Prop :=
  ∃ ko i, s.kObjectFind o = some ko ∧ s.threadIndexGet thread = some i ∧ ko.perms i = true

-- The calls that give thread t permission on o. A parent's own object is not inherited.
def Grants (e : State bits × Op) : Prop :=
  match e.2 with
  | .Grant obj thread => obj = o ∧ thread = t
  | .Alloc current _ _ _ => Creates o e ∧ current = t
  | .Inherit parent child => child = t ∧ Holds o e.1 parent ∧ o ≠ parent
  | .Recycle current obj => obj = o ∧ current = t
  | _ => False

-- The calls that take it away, those among them by which t gets an index or gives it back;
-- an object made by another thread starts without it.
def Clears (e : State bits × Op) : Prop :=
  match e.2 with
  | .Revoke obj thread => obj = o ∧ thread = t
  | .Release current obj => obj = o ∧ current = t
  | .Recycle current obj => obj = o ∧ current ≠ t
  | .AllClear thread => thread = t
  | .Alloc current _ _ _ => Creates t e ∨ (Creates o e ∧ current ≠ t)
  | .CreateDynamic _ _ _ => Creates o e
  | .Free obj => obj = t ∧ e.1.freedIndex obj ≠ none
  | _ => False

end Events

namespace State

variable {s : State bits} {op : Op} {n : Nat}

theorem find_call_kept (h : s.created op ≠ some n) :
    (s.call op).kObjectFind n = (s.kObjectFind n).bind (s.fate op).apply := by
  cases hc : s.created op with
  | none =>
    rw [kObjectFind, (s.called op).kept hc]
    exact s.objects.find?_foreach (s.fate op) n
  | some name =>
    obtain ⟨-, hf, ho⟩ := (s.called op).made name hc
    have hne : (s.made op name).name ≠ n := by
      rw [made_name]
      exact fun hn => h (hn ▸ hc)
    rw [kObjectFind, ho, Registry.find?_append, if_neg hne]
    exact s.objects.find?_foreach (s.fate op) n

theorem find_call_made (h : s.created op = some n) : (s.call op).kObjectFind n = some (s.made op n) := by
  obtain ⟨-, hf, ho⟩ := (s.called op).made n h
  rw [kObjectFind, ho, Registry.find?_append, if_pos (s.made_name op n)]

theorem threadIndexGet_eq_some {tid : Tid} {i : Fin bits} : s.threadIndexGet tid = some i ↔
    ∃ tk, s.kObjectFind tid = some tk ∧ tk.threadId = some i :=
  Option.bind_eq_some_iff

theorem threadIndexGet_iff (h : Valid s) {t : Tid} {i : Fin bits} (ht : s.threadIndexGet t = some i)
    (tid : Tid) : s.threadIndexGet tid = some i ↔ tid = t := by
  constructor
  · intro hth
    obtain ⟨tk, hf, hi⟩ := threadIndexGet_eq_some.mp ht
    obtain ⟨u, ho, hi'⟩ := threadIndexGet_eq_some.mp hth
    obtain ⟨hmm, rfl⟩ := kObjectFind_eq_some.mp hf
    obtain ⟨hm, rfl⟩ := kObjectFind_eq_some.mp ho
    rw [h.distinct u hm tk hmm i hi' hi]
  · rintro rfl
    exact ht

end State

variable {ko : KObject bits}

theorem KObject.perms_setPerm {i j : Fin bits} : (ko.setPerm j).perms i = true ↔ i = j ∨ ko.perms i = true := by
  by_cases hij : i = j <;> simp [KObject.setPerm, hij]

theorem KObject.perms_clearPerm {i j : Fin bits} : (ko.clearPerm j).perms i = true ↔ ko.perms i = true ∧ i ≠ j := by
  by_cases hij : i = j <;> simp [KObject.clearPerm, hij]

section Permission

variable {s : State bits} {op : Op} {ko ko' : KObject bits} {i : Fin bits}

theorem perms_of_cleared {j : Fin bits} (hf : (s.fate op).apply ko = some ko')
    (hc : s.clearedIndex op ko.name = some j) :
    ko'.perms i = true ↔ ko.perms i = true ∧ i ≠ j := by
  rw [State.fate_apply] at hf
  split at hf
  · cases hf
  · rw [hc] at hf
    rw [KObject.unrefCheck_some hf]
    exact KObject.perms_clearPerm

theorem eq_changed (hf : (s.fate op).apply ko = some ko')
    (hc : s.clearedIndex op ko.name = none) : ko' = s.changed op ko := by
  rw [State.fate_apply] at hf
  split at hf
  · cases hf
  · rw [hc] at hf
    exact (Option.some.inj hf).symm

variable {o : Nat} {t : Tid}

theorem perms_of_clears (hf : (s.fate op).apply ko = some ko') (hg : ¬ Grants o t (s, op))
    (hcl : Clears o t (s, op) ↔ s.clearedIndex op ko.name = some i)
    (hch : s.changed op ko = ko) :
    ko'.perms i = true ↔ Grants o t (s, op) ∨ (ko.perms i = true ∧ ¬ Clears o t (s, op)) := by
  rw [or_iff_right hg, hcl]
  cases hc : s.clearedIndex op ko.name with
  | none => simp [eq_changed hf hc, hch]
  | some j =>
    rw [perms_of_cleared hf hc, Option.some_inj, ne_comm]

theorem perms_of_grants (hf : (s.fate op).apply ko = some ko')
    (hc : s.clearedIndex op ko.name = none) (hcl : ¬ Clears o t (s, op))
    (hch : (s.changed op ko).perms i = true ↔ Grants o t (s, op) ∨ ko.perms i = true) :
    ko'.perms i = true ↔ Grants o t (s, op) ∨ (ko.perms i = true ∧ ¬ Clears o t (s, op)) := by
  rw [eq_changed hf hc, hch]
  simp [hcl]

theorem find_call_free (hf : s.freedIndex t ≠ none) : (s.call (.Free t)).kObjectFind t = none := by
  obtain ⟨tidx, ht⟩ := Option.ne_none_iff_exists'.mp hf
  obtain ⟨tk, hfn, -⟩ := Option.bind_eq_some_iff.mp ht
  obtain ⟨htk, hd⟩ := State.dynObjectFind_eq_some.mp hfn
  obtain ⟨hm, rfl⟩ := State.kObjectFind_eq_some.mp htk
  have hr : State.removes (.Free tk.name) tk = true := by simp [State.removes, hd]
  have hc : s.created (.Free tk.name) ≠ some tk.name := (Option.some_ne_none _).symm
  rw [State.find_call_kept hc, htk, Option.bind_some, State.fate_apply, if_pos hr]

theorem threadIndexGet_of_freedIndex {obj : Nat} (hf : s.freedIndex obj = some i) : s.threadIndexGet obj = some i := by
  obtain ⟨tk, hfn, hi⟩ := Option.bind_eq_some_iff.mp hf
  obtain ⟨-, hi⟩ := Option.ite_none_right_eq_some.mp hi
  exact State.threadIndexGet_eq_some.mpr ⟨tk, (State.dynObjectFind_eq_some.mp hfn).1, hi⟩

theorem perms_changed_grant (hi : ∀ tid, s.threadIndexGet tid = some i ↔ tid = t)
    (obj : Nat) (tid : Tid) : (s.changed (.Grant obj tid) ko).perms i = true ↔
      (obj = ko.name ∧ tid = t) ∨ ko.perms i = true := by
  rw [← hi tid]
  simp only [State.changed]
  by_cases ho : ko.name = obj
  · subst ho
    cases s.threadIndexGet tid with
    | none => simp
    | some j =>
      simp only [if_true, KObject.perms_setPerm, Option.some_inj, true_and]
      rw [eq_comm]
  · simp [ho, Ne.symm ho]

theorem perms_changed_inherit (hi : ∀ tid, s.threadIndexGet tid = some i ↔ tid = t)
    (hko : s.kObjectFind ko.name = some ko) (parent child : Tid) :
    (s.changed (.Inherit parent child) ko).perms i = true ↔
      (child = t ∧ Holds ko.name s parent ∧ ko.name ≠ parent) ∨ ko.perms i = true := by
  rw [← hi child]
  have hhl : Holds ko.name s parent ↔ ∃ j, s.threadIndexGet parent = some j ∧ ko.perms j = true := by
    constructor
    · rintro ⟨found, j, hf, hj⟩
      cases hko.symm.trans hf
      exact ⟨j, hj⟩
    · rintro ⟨j, hj⟩
      exact ⟨ko, j, hko, hj⟩
  rw [hhl]
  simp only [State.changed]
  cases s.threadIndexGet parent with
  | none => simp
  | some parentId =>
    cases s.threadIndexGet child with
    | none => simp
    | some childId =>
      by_cases hh : ko.perms parentId = true ∧ ko.name ≠ parent
      · have hin : (∃ j, some parentId = some j ∧ ko.perms j = true) ∧ ko.name ≠ parent :=
          ⟨⟨parentId, rfl, hh.1⟩, hh.2⟩
        simp only [if_pos hh, KObject.perms_setPerm]
        rw [and_iff_left hin, Option.some_inj, eq_comm]
      · simp only [if_neg hh, Option.some_inj, exists_eq_left']
        exact (or_iff_right fun hg => hh hg.2).symm

theorem perms_call (h : Valid s) (ht : s.threadIndexGet t = some i)
    (hl : (s.call op).kObjectFind t ≠ none) (hob : ¬ Creates o (s, op))
    (hth : ¬ Creates t (s, op)) (ho : s.kObjectFind o = some ko)
    (hf : (s.fate op).apply ko = some ko') :
    ko'.perms i = true ↔ Grants o t (s, op) ∨ (ko.perms i = true ∧ ¬ Clears o t (s, op)) := by
  obtain ⟨hko, rfl⟩ := State.kObjectFind_eq_some.mp ho
  have hin := s.threadIndexGet_iff h ht
  cases op with
  | Alloc current ot size mem =>
    refine perms_of_clears hf (fun hg => hob hg.1) (iff_of_false ?_ ?_) rfl
    · exact fun hcl => hcl.elim hth fun hc => hob hc.1
    · obtain ⟨tk, hfn, hi⟩ := State.threadIndexGet_eq_some.mp ht
      have hu := h.not_free (State.kObjectFind_eq_some.mp hfn).1 hi
      simp only [State.clearedIndex]
      split
      · exact hu
      · exact (Option.some_ne_none i).symm
  | CreateDynamic current size mem =>
    exact perms_of_grants hf rfl hob (by simp [State.changed, Grants])
  | Free obj =>
    refine perms_of_clears hf id (iff_of_false ?_ ?_) rfl
    · rintro ⟨rfl, hfr⟩
      exact hl (find_call_free hfr)
    · intro hfr
      have hoj : obj = t := (hin obj).mp (threadIndexGet_of_freedIndex hfr)
      subst hoj
      exact hl (find_call_free (by rw [show s.freedIndex obj = some i from hfr]; exact Option.some_ne_none i))
  | Grant obj tid => exact perms_of_grants hf rfl id (perms_changed_grant hin obj tid)
  | Revoke obj tid =>
    refine perms_of_clears hf id ?_ rfl
    simp only [Clears, State.clearedIndex, ← hin tid]
    by_cases hoj : ko.name = obj
    · simp [hoj]
    · simp [hoj, Ne.symm hoj]
  | Release current obj =>
    refine perms_of_clears hf id ?_ rfl
    simp only [Clears, State.clearedIndex, ← hin current]
    by_cases hoj : ko.name = obj
    · simp [hoj]
    · simp [hoj, Ne.symm hoj]
  | AllGrant obj | Init obj | Uninit obj =>
    refine perms_of_grants hf rfl id ?_
    simp only [State.changed, Grants, false_or]
    split <;> rfl
  | Recycle current obj =>
    rw [eq_changed hf rfl]
    simp only [State.changed, Grants, Clears]
    by_cases hoj : ko.name = obj
    · simp [hoj, hin]
    · simp [hoj, Ne.symm hoj]
  | Inherit par child =>
    exact perms_of_grants hf rfl id (perms_changed_inherit hin ho par child)
  | AllClear tid =>
    refine perms_of_clears hf id ?_ rfl
    exact (hin tid).symm

end Permission

section Public

variable {s : State bits} {op : Op} {ko ko' : KObject bits}

theorem isPublic_changed (op : Op) (ko : KObject bits) : hasFlag K_OBJ_FLAG_PUBLIC (s.changed op ko).flags =
      (hasFlag K_OBJ_FLAG_PUBLIC ko.flags || decide (op = .AllGrant ko.name)) := by
  cases op with
  | AllGrant obj =>
    simp only [State.changed, Op.AllGrant.injEq]
    split
    · next ho =>
        simp only [KObject.setFlags, makePublicFlagsDecide, hasFlag_or, ho, decide_true]
        rfl
    · next ho => simp [Ne.symm ho]
  | Init obj | Recycle current obj =>
    simp only [State.changed, reduceCtorEq, decide_false, Bool.or_false]
    split
    · exact (hasFlag_or _ _ _).trans (Bool.or_false _)
    · rfl
  | Uninit obj =>
    simp only [State.changed, reduceCtorEq, decide_false, Bool.or_false]
    split
    · exact hasFlag_and_not _ _ _
    · rfl
  | Grant obj tid | Inherit par child =>
    simp only [State.changed, reduceCtorEq, decide_false, Bool.or_false]
    repeat' split
    all_goals rfl
  | _ => exact (Bool.or_false _).symm

theorem isPublic_fate (hf : (s.fate op).apply ko = some ko') : hasFlag K_OBJ_FLAG_PUBLIC ko'.flags =
      (hasFlag K_OBJ_FLAG_PUBLIC ko.flags || decide (op = .AllGrant ko.name)) := by
  cases hc : s.clearedIndex op ko.name with
  | none => rw [eq_changed hf hc, isPublic_changed]
  | some j =>
    have hop : op ≠ .AllGrant ko.name := by
      rintro rfl
      cases hc
    rw [State.fate_apply] at hf
    split at hf
    · cases hf
    · rw [hc] at hf
      rw [KObject.unrefCheck_some hf, decide_eq_false hop, Bool.or_false]
      rfl

theorem isPublic_made (s : State bits) (op : Op) (name : Nat) :
    hasFlag K_OBJ_FLAG_PUBLIC (s.made op name).flags = false := by
  have hf : hasFlag K_OBJ_FLAG_PUBLIC K_OBJ_FLAG_ALLOC = false := by decide
  have hz : hasFlag K_OBJ_FLAG_PUBLIC 0 = false := by decide
  unfold State.made
  split
  · exact hf
  · exact hz

end Public

structure Tracked (h : State bits × List (State bits × Op)) : Prop where
  valid : Valid h.1
  perms : ∀ t i o ko, h.1.threadIndexGet t = some i → h.1.kObjectFind o = some ko →
    (ko.perms i = true ↔ Since (Grants o t) (Clears o t) h.2)
  isPublic : ∀ o ko, h.1.kObjectFind o = some ko →
    (hasFlag K_OBJ_FLAG_PUBLIC ko.flags = true ↔ Since (MakesPublic o) (Creates o) h.2)

theorem Image.tracked (im : Image bits) : Tracked (im.boot, []) where
  valid := im.valid_boot
  perms := by
    intro t i o ko _ ho
    have hm := (State.kObjectFind_eq_some.mp ho).1
    simp [im.perms ko hm i, not_since_nil]
  isPublic := by
    intro o ko ho
    have hf := im.flags ko (State.kObjectFind_eq_some.mp ho).1
    rw [hasFlag_union, Bool.or_eq_false_iff] at hf
    simp [hf.2, not_since_nil]

namespace Tracked

variable {s : State bits} {past : List (State bits × Op)} {op : Op} {o : Nat} {t : Tid}
  {i : Fin bits}

theorem isPublic_call (h : Tracked (s, past)) {ko' : KObject bits}
    (ho : (s.call op).kObjectFind o = some ko') : hasFlag K_OBJ_FLAG_PUBLIC ko'.flags = true ↔
      Since (MakesPublic o) (Creates o) (past ++ [(s, op)]) := by
  rw [since_snoc]
  by_cases hc : Creates o (s, op)
  · rw [State.find_call_made hc] at ho
    cases ho
    have hop : ¬ MakesPublic o (s, op) := by
      rintro rfl
      cases hc
    simp [isPublic_made, hc, hop]
  · rw [State.find_call_kept hc] at ho
    obtain ⟨ko, hko, hf⟩ := Option.bind_eq_some_iff.mp ho
    obtain ⟨-, rfl⟩ := State.kObjectFind_eq_some.mp hko
    rw [isPublic_fate hf, Bool.or_eq_true, decide_eq_true_iff, h.isPublic _ ko hko]
    simp only [hc, not_false_eq_true, and_true]
    exact or_comm

theorem perms_of_creates (h : Valid s) (ht : (s.call op).threadIndexGet t = some i) (hc : Creates o (s, op)) :
    (s.made op o).perms i = true ↔ Grants o t (s, op) := by
  cases op with
  | Alloc current ot size mem =>
    obtain ⟨hh, -⟩ := (s.called (.Alloc current ot size mem)).made o hc
    have hcr : s.created (.Alloc current ot size mem) ≠ some current :=
      fun hs => hh (hs.symm.trans hc)
    have hi : (s.call (.Alloc current ot size mem)).threadIndexGet current =
        ((s.survivors (.Alloc current ot size mem)).find? current).bind KObject.threadId := by
      rw [State.threadIndexGet, State.find_call_kept hcr, State.survivors, Registry.find?_foreach]
      rfl
    have hm : (s.made (.Alloc current ot size mem) o).perms i = true ↔
        (s.call (.Alloc current ot size mem)).threadIndexGet current = some i := by
      rw [hi]
      exact decide_eq_true_iff
    rw [hm, State.threadIndexGet_iff (h.call _) ht]
    exact (and_iff_right hc).symm
  | CreateDynamic current size mem => exact iff_of_false Bool.false_ne_true id
  | _ => cases hc

theorem clears_of_creates (hc : Creates o (s, op)) (hg : ¬ Grants o t (s, op)) : Clears o t (s, op) := by
  cases op with
  | Alloc current ot size mem => exact .inr ⟨hc, fun ht => hg ⟨hc, ht⟩⟩
  | CreateDynamic current size mem => exact hc
  | _ => cases hc

theorem clears_of_creates_thread (ht : (s.call op).threadIndexGet t = some i) (hc : Creates t (s, op)) (name o : Nat) :
    s.clearedIndex op name = some i ∧ Clears o t (s, op) := by
  rw [State.threadIndexGet, State.find_call_made hc, Option.bind_some] at ht
  cases op with
  | Alloc current ot size mem => exact ⟨ht, .inl hc⟩
  | CreateDynamic current size mem => cases ht
  | _ => cases hc

theorem creates_of_grants {n : Nat} (hc : Creates n (s, op)) (hg : Grants o t (s, op)) : Creates o (s, op) := by
  cases op with
  | Alloc current ot size mem => exact hg.1
  | CreateDynamic current size mem => exact hg.elim
  | _ => cases hc

theorem perms_call (h : Tracked (s, past)) {ko' : KObject bits}
    (ht : (s.call op).threadIndexGet t = some i) (ho : (s.call op).kObjectFind o = some ko') :
    ko'.perms i = true ↔ Since (Grants o t) (Clears o t) (past ++ [(s, op)]) := by
  rw [since_snoc]
  by_cases hob : Creates o (s, op)
  · rw [State.find_call_made hob] at ho
    cases ho
    rw [perms_of_creates h.valid ht hob]
    constructor
    · exact .inl
    · rintro (hgrants | ⟨-, hc⟩)
      · exact hgrants
      · by_contra hgrants
        exact hc (clears_of_creates hob hgrants)
  rw [State.find_call_kept hob] at ho
  obtain ⟨ko, hko, hf⟩ := Option.bind_eq_some_iff.mp ho
  by_cases hth : Creates t (s, op)
  · obtain ⟨hcl, hc⟩ := clears_of_creates_thread ht hth ko.name o
    rw [perms_of_cleared hf hcl]
    refine iff_of_false (fun hp => hp.2 rfl) ?_
    rintro (hgrants | ⟨-, hk⟩)
    · exact hob (creates_of_grants hth hgrants)
    · exact hk hc
  · obtain ⟨tk', htk', hi⟩ := State.threadIndexGet_eq_some.mp ht
    have hl := htk'
    rw [State.find_call_kept hth] at htk'
    obtain ⟨tk, htk, hft⟩ := Option.bind_eq_some_iff.mp htk'
    have hs : tk.threadId = some i := (s.fate_threadId hft).symm.trans hi
    have hin : s.threadIndexGet t = some i := State.threadIndexGet_eq_some.mpr ⟨tk, htk, hs⟩
    rw [Userspace.perms_call h.valid hin (by rw [hl]; exact Option.some_ne_none tk') hob hth hko hf,
      h.perms t i o ko hin hko]

theorem call (h : Tracked (s, past)) (op : Op) : Tracked (s.call op, past ++ [(s, op)]) where
  valid := h.valid.call op
  perms := fun _ _ _ _ ht ho => h.perms_call ht ho
  isPublic := fun _ _ ho => h.isPublic_call ho

end Tracked

theorem tracked_throughout (im : Image bits) (ops : List Op) :
    Throughout (recorded step) Tracked (im.boot, []) ops := by
  refine throughout_of_step (fun h op next ht hs => ?_) im.tracked ops
  obtain ⟨hc, hp⟩ := recorded_eq_some.mp hs
  obtain ⟨-, hn⟩ := Option.ite_none_right_eq_some.mp hc
  obtain ⟨s, past⟩ := next
  cases hp
  cases hn
  exact Tracked.call ht op

theorem validate_eq_ok {s : State bits} {t : Tid} {ot : KObjects} (ht : ot = .Any ∨ ko.type = ot) :
    s.kObjectValidate t (some ko) ot .InitAny = OK ↔ hasFlag K_OBJ_FLAG_PUBLIC ko.flags = true ∨
        ∃ i, s.threadIndexGet t = some i ∧ ko.perms i = true := by
  have hm : decide (ot = .Any ∨ ko.type = ot) = true := decide_eq_true ht
  have hv : s.kObjectValidate t (some ko) ot .InitAny = OK ↔ s.threadPermsTest t ko = true := by
    simp only [State.kObjectValidate, galeKObjectValidateDecide, validateDecide, hm]
    cases s.threadPermsTest t ko <;> decide
  rw [hv, State.threadPermsTest, galeKObjectAccessDecide, accessDecide, Bool.or_eq_true]
  cases s.threadIndexGet t <;> simp

theorem access_decided_by_last_event (image : Image bits) {ops : List Op} {s : State bits}
    {past : List (State bits × Op)}
    (hrun : run (recorded step) (image.boot, []) ops = some (s, past)) {t : Tid}
    {tk : KObject bits} (ht : s.kObjectFind t = some tk) (hthread : tk.type = .Thread) {o : Nat}
    {ko : KObject bits} (ho : s.kObjectFind o = some ko) {otype : KObjects}
    (htype : otype = .Any ∨ ko.type = otype) :
    s.kObjectValidate t (s.kObjectFind o) otype .InitAny = OK ↔
      Since (MakesPublic o) (Creates o) past ∨ Since (Grants o t) (Clears o t) past := by
  have htr : Tracked (s, past) := (tracked_throughout image ops).last hrun
  have hm := (State.kObjectFind_eq_some.mp ht).1
  obtain ⟨i, hi⟩ := Option.isSome_iff_exists.mp ((htr.valid.thread tk hm).mp hthread)
  have hin : s.threadIndexGet t = some i := State.threadIndexGet_eq_some.mpr ⟨tk, ht, hi⟩
  rw [ho, validate_eq_ok htype, htr.isPublic o ko ho, ← htr.perms t i o ko hin ho, hin]
  simp

theorem inherited_access :
    ∃ s past, run (recorded step) (twoThreads.boot, []) [.Grant 30 10, .Inherit 10 20] =
        some (s, past) ∧
      s.kObjectValidate 20 (s.kObjectFind 30) (.Other 0) .InitAny = OK ∧
      (Since (MakesPublic 30) (Creates 30) past ∨ Since (Grants 30 20) (Clears 30 20) past) := by
  have hr : run (recorded step) (twoThreads.boot, []) [.Grant 30 10, .Inherit 10 20] =
    some (_, _) := rfl
  refine ⟨_, _, hr, by decide, ?_⟩
  refine (access_decided_by_last_event twoThreads hr rfl rfl rfl (.inr rfl)).mp ?_
  decide

theorem own_object_not_inherited :
    ∃ before s, run step twoThreads.boot [.Grant 10 10] = some before ∧ Holds 10 before 10 ∧
      step before (.Inherit 10 20) = some s ∧
      s.kObjectValidate 20 (s.kObjectFind 10) .Thread .InitAny = EPERM :=
  ⟨_, _, rfl, ⟨_, 0, rfl, rfl, rfl⟩, rfl, by decide⟩

end Gale.Userspace
