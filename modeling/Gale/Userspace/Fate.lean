import Gale.Userspace

namespace Gale.Userspace

open Function

open Lib Lib.Bits

variable {bits : Nat}

namespace KObject

variable {ko ko' : KObject bits} {i j : Fin bits}

structure Ident (bits : Nat) where
  name : Nat
  type : KObjects
  threadId : Option (Fin bits)
  dynamic : Bool

def ident (ko : KObject bits) : Ident bits := ⟨ko.name, ko.type, ko.threadId, ko.dynamic⟩

theorem unrefCheck_some (h : ko.unrefCheck i = some ko') : ko' = ko.clearPerm i := by
  simp only [unrefCheck] at h
  split at h
  · exact (Option.some.inj h).symm
  · split at h
    · exact (Option.some.inj h).symm
    · cases h

@[simp] theorem clearPerm_clearPerm (ko : KObject bits) (i : Fin bits) :
    (ko.clearPerm i).clearPerm i = ko.clearPerm i := by
  simp [clearPerm]

@[simp] theorem unrefCheck_clearPerm (ko : KObject bits) (i : Fin bits) :
    (ko.clearPerm i).unrefCheck i = ko.unrefCheck i := by
  simp [unrefCheck, clearPerm_clearPerm]

theorem unrefCheck_unrefCheck (ko : KObject bits) (i : Fin bits) :
    (ko.unrefCheck i).bind (·.unrefCheck i) = ko.unrefCheck i := by
  cases h : ko.unrefCheck i with
  | none => rfl
  | some ko' =>
    rw [Option.bind_some, unrefCheck_some h, unrefCheck_clearPerm, h, unrefCheck_some h]

theorem perms_setPerm_clearPerms (ko : KObject bits) (idx : Fin bits) :
    (ko.clearPerms.setPerm idx).perms = fun i => decide (some idx = some i) := by
  funext i
  simp [setPerm, clearPerms, update_apply, eq_comm]

end KObject

namespace State

variable (s : State bits)

def freedIndex (obj : Nat) : Option (Fin bits) :=
  (s.dynObjectFind obj).bind fun ko => if ko.type = .Thread then ko.threadId else none

-- The index whose permission on an object is cleared by a call, which then looks whether
-- the object is still referenced.
def clearedIndex (op : Op) (name : Nat) : Option (Fin bits) :=
  match op with
  | .Alloc _ otype _ _ => if otype = .Thread then Slots.first s.threadIdxMap else none
  | .Free obj => s.freedIndex obj
  | .Revoke obj thread => if name = obj then s.threadIndexGet thread else none
  | .Release current obj => if name = obj then s.threadIndexGet current else none
  | .AllClear thread => s.threadIndexGet thread
  | _ => none

def removes (op : Op) (ko : KObject bits) : Bool := op = .Free ko.name ∧ ko.dynamic = true

def changed (op : Op) (ko : KObject bits) : KObject bits :=
  match op with
  | .Grant obj thread =>
    if ko.name = obj then
      match s.threadIndexGet thread with
      | some index => ko.setPerm index
      | none => ko
    else ko
  | .AllGrant obj => if ko.name = obj then ko.setFlags (makePublicFlagsDecide ko.flags) else ko
  | .Init obj => if ko.name = obj then ko.setFlags (initFlagsDecide ko.flags) else ko
  | .Uninit obj => if ko.name = obj then ko.setFlags (uninitFlagsDecide ko.flags) else ko
  | .Recycle current obj =>
    if ko.name = obj then
      { ko with
        perms := fun i => s.threadIndexGet current = some i
        flags := recycleFlagsDecide ko.flags }
    else ko
  | .Inherit parent child =>
    match s.threadIndexGet parent, s.threadIndexGet child with
    | some parentId, some childId =>
      if ko.perms parentId ∧ ko.name ≠ parent then ko.setPerm childId else ko
    | _, _ => ko
  | _ => ko

theorem changed_ident (op : Op) (ko : KObject bits) : (s.changed op ko).ident = ko.ident := by
  unfold changed
  repeat' split
  all_goals rfl

def fate (op : Op) : WordlistCbFunc bits where
  apply ko :=
    if removes op ko then none
    else match s.clearedIndex op ko.name with
      | some index => ko.unrefCheck index
      | none => some (s.changed op ko)
  key_eq := by
    intro ko ko' h
    split at h
    · cases h
    · split at h
      · exact (clearPermsCb _).key_eq h
      · cases h
        exact congrArg KObject.Ident.name (s.changed_ident op ko)

theorem fate_apply (op : Op) (ko : KObject bits) : (s.fate op).apply ko =
    if removes op ko then none
    else match s.clearedIndex op ko.name with
      | some idx => ko.unrefCheck idx
      | none => some (s.changed op ko) := rfl

variable {op : Op} {ko ko' : KObject bits}

section

variable (h : (s.fate op).apply ko = some ko')
include h

theorem fate_ident : ko'.ident = ko.ident := by
  rw [fate_apply] at h
  split at h
  · cases h
  · split at h
    · rw [KObject.unrefCheck_some h]
      rfl
    · cases h
      exact s.changed_ident op ko

theorem fate_type : ko'.type = ko.type :=
  congrArg KObject.Ident.type (s.fate_ident h)

theorem fate_threadId : ko'.threadId = ko.threadId :=
  congrArg KObject.Ident.threadId (s.fate_ident h)

theorem fate_dynamic : ko'.dynamic = ko.dynamic :=
  congrArg KObject.Ident.dynamic (s.fate_ident h)

end

def created : Op → Option Nat
  | .Alloc current otype size mem => (s.zObjectAlloc current otype size mem).1
  | .CreateDynamic current size mem => (s.kObjectCreateDynamicAligned current size mem).1
  | _ => none

def mapAfter (op : Op) : Fin bits → Bool :=
  match op with
  | .Alloc _ otype _ _ =>
    match Slots.first s.threadIdxMap with
    | some tidx =>
      if otype = .Thread ∧ (s.created op).isSome then update s.threadIdxMap tidx false
      else s.threadIdxMap
    | none => s.threadIdxMap
  | .Free obj =>
    match s.freedIndex obj with
    | some tidx => update s.threadIdxMap tidx true
    | none => s.threadIdxMap
  | _ => s.threadIdxMap

def survivors (op : Op) : Registry (KObject.name : KObject bits → Nat) :=
  s.objects.foreach (s.fate op)

def made (op : Op) (name : Nat) : KObject bits :=
  match op with
  | .Alloc current otype _ _ =>
    { name := name
      type := otype
      flags := K_OBJ_FLAG_ALLOC
      perms := fun i => ((s.survivors op).find? current).bind KObject.threadId = some i
      threadId := s.clearedIndex op name
      dynamic := true }
  | _ => ⟨name, .Any, 0, fun _ => false, none, true⟩

@[simp] theorem made_name (op : Op) (name : Nat) : (s.made op name).name = name := by
  unfold made
  split <;> rfl

@[simp] theorem made_dynamic (op : Op) (name : Nat) : (s.made op name).dynamic = true := by
  unfold made
  split <;> rfl

structure Called (op : Op) (next : State bits) : Prop where
  map : next.threadIdxMap = s.mapAfter op
  kept : s.created op = none → next.objects = s.survivors op
  made : ∀ name, s.created op = some name → op.threads.head? ≠ some name ∧
    ∃ h : (s.survivors op).find? (s.made op name).name = none,
      next.objects = (s.survivors op).append (s.made op name) h

variable {s}

theorem kObjectFind_eq_some {obj : Nat} : s.kObjectFind obj = some ko ↔ ko ∈ s.objects.entries ∧ ko.name = obj :=
  Registry.find?_eq_some

section Calls

variable {op : Op}

theorem called_of_foreach {v : WordlistCbFunc bits} (hc : s.created op = none)
    (hm : s.mapAfter op = s.threadIdxMap) (hcl : s.call op = s.kObjectWordlistForeach v)
    (hf : ∀ ko ∈ s.objects.entries, (s.fate op).apply ko = v.apply ko) :
    Called s op (s.call op) := by
  refine ⟨by rw [hcl, hm]; rfl, fun _ => ?_, fun name h => by rw [hc] at h; cases h⟩
  rw [hcl]
  exact (s.objects.foreach_congr hf).symm

theorem called_of_same (hc : s.created op = none) (hm : s.mapAfter op = s.threadIdxMap)
    (hcl : s.call op = s) (hf : ∀ ko ∈ s.objects.entries, (s.fate op).apply ko = some ko) :
    Called s op (s.call op) := by
  refine ⟨by rw [hcl, hm], fun _ => ?_, fun name h => by rw [hc] at h; cases h⟩
  rw [hcl]
  exact (s.objects.foreach_eq_self hf).symm

theorem called_of_made {name : Nat} (hc : s.created op = some name)
    (hm : (s.call op).threadIdxMap = s.mapAfter op) (hh : op.threads.head? ≠ some name)
    (ho : ∃ h : (s.survivors op).find? (s.made op name).name = none,
      (s.call op).objects = (s.survivors op).append (s.made op name) h) :
    Called s op (s.call op) := by
  refine ⟨hm, fun hn => ?_, fun o hot => ?_⟩
  · cases hc.symm.trans hn
  · cases hc.symm.trans hot
    exact ⟨hh, ho⟩

theorem called_on (obj : Nat) (v : KObject bits → WordlistCbFunc bits)
    (hc : s.created op = none) (hmp : s.mapAfter op = s.threadIdxMap)
    (hnn : s.kObjectFind obj = none → s.call op = s)
    (hsm : ∀ ko, s.kObjectFind obj = some ko → s.call op = s.visit ko (v ko))
    (hh : ∀ ko, ko.name = obj → (s.fate op).apply ko = (v ko).apply ko)
    (hm : ∀ ko, ko.name ≠ obj → (s.fate op).apply ko = some ko) : Called s op (s.call op) := by
  cases hf : s.kObjectFind obj with
  | none =>
    exact called_of_same hc hmp (hnn hf) fun ko hko =>
      hm ko (Registry.find?_eq_none.mp hf ko hko)
  | some ko =>
    obtain ⟨hmm, hn⟩ := kObjectFind_eq_some.mp hf
    refine called_of_foreach hc hmp (hsm ko hf) fun o ho => ?_
    by_cases hs : o.name = ko.name
    · rw [s.objects.eq_of_key_eq ho hmm hs]
      simp only [Visit.only, if_true]
      exact hh ko hn
    · simp only [Visit.only, if_neg hs]
      exact hm o (hn ▸ hs)

end Calls

theorem visit_same (ko : KObject bits) : s.visit ko (.always (fun ko => ko) fun _ => rfl) = s := by
  have hs : s.objects.foreach (Visit.only (.always (fun ko => ko) fun _ => rfl) ko.name) =
      s.objects := by
    apply Registry.foreach_eq_self
    intro o _
    simp [Visit.only, Visit.always]
  simp [visit, hs]

variable (obj : Nat)

theorem called_grant (t : Tid) : Called s (.Grant obj t) (s.call (.Grant obj t)) := by
  refine called_on obj
    (fun _ => .always (fun ko => match s.threadIndexGet t with
      | some idx => ko.setPerm idx
      | none => ko) fun ko => by split <;> rfl) rfl rfl ?_ ?_ ?_ ?_
  · intro hf
    simp [call, kObjectAccessGrant, hf]
  · intro ko hf
    simp only [call, kObjectAccessGrant, hf, kThreadPermsSet]
    cases s.threadIndexGet t with
    | none => exact (visit_same ko).symm
    | some idx => rfl
  · intro ko hko
    simp [fate_apply, removes, clearedIndex, changed, hko, Visit.always]
  · intro ko hko
    simp [fate_apply, removes, clearedIndex, changed, hko]

theorem visit_clearPerm (ko : KObject bits) (idx : Fin bits) :
    (s.visit ko (.always (·.clearPerm idx) (·.clearPerm_name idx))).visit ko (clearPermsCb idx) =
      s.visit ko (clearPermsCb idx) := by
  have ho := s.objects.foreach_foreach
    (Visit.only (.always (·.clearPerm idx) (·.clearPerm_name idx)) ko.name)
    ((clearPermsCb idx).only ko.name) (u := (clearPermsCb idx).only ko.name) <| by
      intro o _
      by_cases hn : o.name = ko.name
      · simp [Visit.only, Visit.always, clearPermsCb, hn]
      · simp [Visit.only, hn]
  simp [visit, ho]

theorem called_revoke (t : Tid) : Called s (.Revoke obj t) (s.call (.Revoke obj t)) := by
  cases hi : s.threadIndexGet t with
  | none =>
    refine called_of_same rfl rfl ?_ fun ko _ => ?_
    · simp only [call, kObjectAccessRevoke, kThreadPermsClear, hi]
      split <;> rfl
    · simp [fate_apply, removes, clearedIndex, changed, hi]
  | some idx =>
    refine called_on obj (fun _ => clearPermsCb idx) rfl rfl ?_ ?_ ?_ ?_
    · intro hf
      simp [call, kObjectAccessRevoke, hf]
    · intro ko hf
      simp only [call, kObjectAccessRevoke, kThreadPermsClear, hf, hi]
      exact visit_clearPerm ko idx
    · intro ko hko
      simp [fate_apply, removes, clearedIndex, hko, hi, clearPermsCb]
    · intro ko hko
      simp [fate_apply, removes, clearedIndex, changed, hko]

theorem called_allClear (t : Tid) : Called s (.AllClear t) (s.call (.AllClear t)) := by
  cases hi : s.threadIndexGet t with
  | none =>
    refine called_of_same rfl rfl ?_ fun ko _ => ?_
    · simp [call, kThreadPermsAllClear, hi]
    · simp [fate_apply, removes, clearedIndex, changed, hi]
  | some idx =>
    refine called_of_foreach (v := clearPermsCb idx) rfl rfl ?_ fun ko _ => ?_
    · simp only [call, kThreadPermsAllClear, hi]
    · simp [fate_apply, removes, clearedIndex, hi, clearPermsCb]

theorem called_inherit (par child : Tid) : Called s (.Inherit par child) (s.call (.Inherit par child)) := by
  cases hp : s.threadIndexGet par with
  | none =>
    refine called_of_same rfl rfl ?_ fun ko _ => ?_
    · simp [call, kThreadPermsInherit, hp]
    · simp [fate_apply, removes, clearedIndex, changed, hp]
  | some parentId =>
    cases hc : s.threadIndexGet child with
    | none =>
      refine called_of_same rfl rfl ?_ fun ko _ => ?_
      · simp [call, kThreadPermsInherit, hp, hc]
      · simp [fate_apply, removes, clearedIndex, changed, hp, hc]
    | some childId =>
      refine called_of_foreach (v := wordlistCb par parentId childId) rfl rfl ?_ fun ko _ => ?_
      · simp only [call, kThreadPermsInherit, hp, hc]
      · simp [fate_apply, removes, clearedIndex, changed, hp, hc, wordlistCb, Visit.always]

theorem called_setFlags (flagsDecide : UInt8 → UInt8) (hc : s.created op = none)
    (hm : s.mapAfter op = s.threadIdxMap) (hn : s.kObjectFind obj = none → s.call op = s)
    (hs : ∀ ko, s.kObjectFind obj = some ko → s.call op = s.setFlags ko (flagsDecide ko.flags))
    (hf : ∀ ko, (s.fate op).apply ko = some (if ko.name = obj then ko.setFlags (flagsDecide ko.flags) else ko)) :
    Called s op (s.call op) := by
  refine called_on obj (fun ko => .always (·.setFlags (flagsDecide ko.flags)) (·.setFlags_name _))
    hc hm hn hs ?_ ?_
  · intro ko hko
    rw [hf, if_pos hko]
    rfl
  · intro ko hko
    rw [hf, if_neg hko]

theorem called_allGrant : Called s (.AllGrant obj) (s.call (.AllGrant obj)) := by
  refine called_setFlags obj makePublicFlagsDecide rfl rfl ?_ ?_ ?_
  · intro hf
    simp [call, kObjectAccessAllGrant, hf]
  · intro ko hf
    simp only [call, kObjectAccessAllGrant, hf]
  · intro ko
    simp [fate_apply, removes, clearedIndex, changed]

theorem called_init : Called s (.Init obj) (s.call (.Init obj)) := by
  refine called_setFlags obj initFlagsDecide rfl rfl ?_ ?_ ?_
  · intro hf
    simp [call, kObjectInit, hf]
  · intro ko hf
    simp only [call, kObjectInit, hf]
  · intro ko
    simp [fate_apply, removes, clearedIndex, changed]

theorem called_uninit : Called s (.Uninit obj) (s.call (.Uninit obj)) := by
  refine called_setFlags obj uninitFlagsDecide rfl rfl ?_ ?_ ?_
  · intro hf
    simp [call, kObjectUninit, hf]
  · intro ko hf
    simp only [call, kObjectUninit, hf]
  · intro ko
    simp [fate_apply, removes, clearedIndex, changed]

theorem threadIndexGet_visit (ko : KObject bits) {f : KObject bits → KObject bits}
    (hf : ∀ ko, (f ko).name = ko.name) (hid : ∀ ko, (f ko).threadId = ko.threadId) (thread : Tid) :
    (s.visit ko (.always f hf)).threadIndexGet thread = s.threadIndexGet thread := by
  simp only [threadIndexGet, kObjectFind, visit, Registry.find?_only]
  split
  · cases s.objects.find? thread with
    | none => rfl
    | some found => exact hid found
  · rfl

theorem visit_visit (ko : KObject bits) {f g : KObject bits → KObject bits}
    (hf : ∀ ko, (f ko).name = ko.name) (hg : ∀ ko, (g ko).name = ko.name) :
    (s.visit ko (.always f hf)).visit ko (.always g hg) =
      s.visit ko (.always (fun ko => g (f ko)) fun ko => (hg _).trans (hf ko)) := by
  have ho := s.objects.foreach_foreach
    (Visit.only (.always f hf) ko.name) (Visit.only (.always g hg) ko.name)
    (u := Visit.only (.always (fun ko => g (f ko)) fun ko => (hg _).trans (hf ko)) ko.name) <| by
      intro o _
      by_cases hn : o.name = ko.name
      · simp [Visit.only, Visit.always, hn, (hf o).trans hn]
      · simp [Visit.only, hn]
  simp [visit, ho]

theorem called_recycle (current : Tid) (obj : Nat) :
    Called s (.Recycle current obj) (s.call (.Recycle current obj)) := by
  refine called_on obj
    (fun ko => .always (fun o =>
      { o with
        perms := fun i => s.threadIndexGet current = some i
        flags := recycleFlagsDecide ko.flags }) fun _ => rfl) rfl rfl ?_ ?_ ?_ ?_
  · intro hf
    simp [call, kObjectRecycle, hf]
  · intro ko hf
    have hi := threadIndexGet_visit (s := s) ko KObject.clearPerms_name (fun _ => rfl) current
    simp only [call, kObjectRecycle, hf, galeKObjectRecycleDecide, if_true, kThreadPermsSet, hi]
    cases s.threadIndexGet current with
    | none =>
      simp [setFlags, visit_visit, KObject.clearPerms, KObject.setFlags]
    | some idx =>
      simp only [setFlags]
      rw [visit_visit, visit_visit]
      simp only [KObject.setFlags, KObject.perms_setPerm_clearPerms]
      rfl
  · intro ko hko
    simp [fate_apply, removes, clearedIndex, changed, hko, Visit.always]
  · intro ko hko
    simp [fate_apply, removes, clearedIndex, changed, hko]

theorem called_release (current : Tid) (obj : Nat) :
    Called s (.Release current obj) (s.call (.Release current obj)) := by
  have h : Called s (.Revoke obj current) (s.call (.Revoke obj current)) := called_revoke obj current
  refine ⟨h.map, fun _ => (h.kept rfl).trans ?_, fun name hn => nomatch hn⟩
  refine s.objects.foreach_congr fun ko _ => ?_
  simp [fate_apply, removes, clearedIndex, changed]

section Free

variable {obj : Nat} {ko : KObject bits}

theorem dynObjectFind_eq_some : s.dynObjectFind obj = some ko ↔ s.kObjectFind obj = some ko ∧ ko.dynamic = true := by
  rw [dynObjectFind, Option.filter_eq_some_iff]

theorem fate_free (hf : s.dynObjectFind obj = some ko) {other : KObject bits}
    (ho : other ∈ s.objects.entries) : (s.fate (.Free obj)).apply other =
      if other.name = ko.name then none
      else match s.freedIndex obj with
        | some tidx => other.unrefCheck tidx
        | none => some other := by
  obtain ⟨hko, hd⟩ := dynObjectFind_eq_some.mp hf
  obtain ⟨hm, rfl⟩ := kObjectFind_eq_some.mp hko
  by_cases hn : other.name = ko.name
  · rw [s.objects.eq_of_key_eq ho hm hn, fate_apply]
    simp [removes, hd]
  · have hk : removes (.Free ko.name) other = false := by
      simp [removes, Ne.symm hn]
    simp [fate_apply, hk, if_neg hn, clearedIndex, changed]

theorem called_free (obj : Nat) : Called s (.Free obj) (s.call (.Free obj)) := by
  cases hf : s.dynObjectFind obj with
  | none =>
    have hfr : s.freedIndex obj = none := by simp [freedIndex, hf]
    refine called_of_same rfl ?_ ?_ fun ko hko => ?_
    · simp [mapAfter, hfr]
    · simp [call, kObjectFree, hf]
    · have hk : removes (.Free obj) ko = false := by
        by_contra hremoves
        simp only [removes, Bool.not_eq_false, decide_eq_true_eq, Op.Free.injEq] at hremoves
        have hs := dynObjectFind_eq_some.mpr
          ⟨kObjectFind_eq_some.mpr ⟨hko, hremoves.1.symm⟩, hremoves.2⟩
        rw [hf] at hs
        cases hs
      simp [fate_apply, hk, clearedIndex, hfr, changed]
  | some ko =>
    cases hfr : s.freedIndex obj with
    | none =>
      have hc : s.call (.Free obj) = s.visit ko Visit.remove := by
        simp only [freedIndex, hf, Option.bind_some] at hfr
        simp only [call, kObjectFree, hf]
        split
        · next ht =>
            rw [if_pos ht] at hfr
            simp only [hfr]
        · rfl
      refine called_of_foreach rfl ?_ hc fun o ho => ?_
      · simp only [mapAfter, hfr]
      · rw [fate_free hf ho, hfr]
        rfl
    | some tidx =>
      have hc : s.call (.Free obj) = (s.visit ko Visit.remove).threadIdxFree tidx := by
        simp only [freedIndex, hf, Option.bind_some] at hfr
        obtain ⟨ht, hi⟩ := Option.ite_none_right_eq_some.mp hfr
        simp [call, kObjectFree, hf, if_pos ht, hi]
      refine ⟨?_, fun _ => ?_, fun name hn => absurd hn.symm (Option.some_ne_none name)⟩
      · simp only [hc, mapAfter, hfr]
        rfl
      · rw [hc]
        refine s.objects.foreach_foreach _ _ fun o ho => ?_
        rw [fate_free hf ho, hfr]
        simp only [Visit.only, Visit.remove, clearPermsCb]
        split <;> rfl

end Free

section Alloc

variable {current : Tid} {ot : KObjects} {size : Nat} {mem : Option Nat}

theorem dynamicObjectCreate_eq_some {ko : KObject bits} {next : State bits}
    (h : s.dynamicObjectCreate current ot size mem = some (ko, next)) :
    ∃ name, ko = ⟨name, ot, 0, fun _ => false, none, true⟩ ∧ name ≠ current ∧ ∃ hf : s.objects.find? ko.name = none,
        next = { s with objects := s.objects.append ko hf } := by
  cases mem with
  | none => cases h
  | some name =>
    simp only [dynamicObjectCreate] at h
    split at h
    · cases h
    · split at h
      · next hf =>
          cases h
          exact ⟨name, rfl, hf.2, hf.1, rfl⟩
      · cases h

theorem called_createDynamic (current : Tid) (size : Nat) (mem : Option Nat) :
    Called s (.CreateDynamic current size mem) (s.call (.CreateDynamic current size mem)) := by
  have hft : ∀ ko ∈ s.objects.entries, (s.fate (.CreateDynamic current size mem)).apply ko = some ko := by
    intro ko _
    simp [fate_apply, removes, clearedIndex, changed]
  have hs : s.survivors (.CreateDynamic current size mem) = s.objects :=
    s.objects.foreach_eq_self hft
  cases hc : s.dynamicObjectCreate current .Any size mem with
  | none =>
    refine called_of_same ?_ rfl ?_ hft
    · simp [created, kObjectCreateDynamicAligned, hc]
    · simp [call, kObjectCreateDynamicAligned, hc]
  | some pair =>
    obtain ⟨ko, next⟩ := pair
    have hct : s.created (.CreateDynamic current size mem) = some ko.name := by
      simp only [created, kObjectCreateDynamicAligned, hc]
    have hcl : s.call (.CreateDynamic current size mem) = next := by
      simp only [call, kObjectCreateDynamicAligned, hc]
    obtain ⟨name, rfl, hcr, hf, rfl⟩ := dynamicObjectCreate_eq_some hc
    refine called_of_made hct (by rw [hcl]; rfl) ?_ ⟨by rw [hs]; exact hf, ?_⟩
    · exact fun hh => hcr (Option.some.inj hh).symm
    · simp only [hcl, hs]
      rfl

variable {rsv : State bits} {zo : KObject bits}

theorem reserveIndex_eq_some {tidx : Option (Fin bits)}
    (h : s.reserveIndex ot = some (tidx, rsv)) (current : Tid) (size : Nat)
    (mem : Option Nat) :
    (∀ name, s.clearedIndex (.Alloc current ot size mem) name = tidx) ∧
      rsv.objects = s.survivors (.Alloc current ot size mem) ∧
      (∀ i ∈ tidx, ot = .Thread ∧ Slots.first s.threadIdxMap = some i ∧
        rsv.threadIdxMap = update s.threadIdxMap i false) ∧
      (tidx = none → ot ≠ .Thread ∧ rsv = s) := by
  by_cases ht : ot = .Thread
  · subst ht
    cases hf : Slots.first s.threadIdxMap with
    | none => simp [reserveIndex, threadIdxAlloc, hf] at h
    | some i =>
      simp only [reserveIndex, threadIdxAlloc, hf, Option.map_some, Option.some.injEq, Prod.mk.injEq] at h
      obtain ⟨rfl, rfl⟩ := h
      refine ⟨fun name => by simp [clearedIndex, hf], ?_, ?_, fun hn => nomatch hn⟩
      · refine s.objects.foreach_congr fun ko _ => ?_
        simp [fate_apply, removes, clearedIndex, hf, clearPermsCb]
      · rintro j ⟨⟩
        exact ⟨rfl, rfl, rfl⟩
  · have hs : tidx = none ∧ rsv = s := by
      unfold reserveIndex at h
      split at h
      · exact absurd rfl ht
      · cases h
      · cases h
      · cases h
      · cases h
        exact ⟨rfl, rfl⟩
    obtain ⟨rfl, rfl⟩ := hs
    refine ⟨fun name => by simp [clearedIndex, ht], ?_, by simp, fun _ => ⟨ht, rfl⟩⟩
    refine (Registry.foreach_eq_self _ fun ko _ => ?_).symm
    simp [fate_apply, removes, clearedIndex, ht, changed]

theorem visit_append {r : Registry (KObject.name : KObject bits → Nat)} {ko : KObject bits}
    {map : Fin bits → Bool} (hfr : r.find? ko.name = none) (hn : zo.name = ko.name)
    {f : KObject bits → KObject bits} (hf : ∀ ko, (f ko).name = ko.name) :
    visit ⟨r.append ko hfr, map⟩ zo (.always f hf) = ⟨r.append (f ko) (by rw [hf]; exact hfr), map⟩ := by
  simp [visit, Registry.append_only hfr hf hn.symm]

theorem finish_append {r : Registry (KObject.name : KObject bits → Nat)} {map : Fin bits → Bool}
    {name : Nat} (hn : zo.name = name) (tidx : Option (Fin bits)) (hc : name ≠ current)
    (hf : r.find? name = none) :
    let ko : KObject bits := ⟨name, ot, 0, fun _ => false, tidx, true⟩
    (kThreadPermsSet ⟨r.append ko hf, map⟩ zo current).visit zo
        (.always (fun ko => ko.setFlags (ko.flags ||| K_OBJ_FLAG_ALLOC)) fun ko => ko.setFlags_name _) =
      ⟨r.append
        { name := name
          type := ot
          flags := K_OBJ_FLAG_ALLOC
          perms := fun i => (r.find? current).bind KObject.threadId = some i
          threadId := tidx
          dynamic := true } hf, map⟩ := by
  intro ko
  have hko : zo.name = ko.name := hn
  have hi : threadIndexGet ⟨r.append ko hf, map⟩ current = (r.find? current).bind KObject.threadId := by
    simp [threadIndexGet, kObjectFind, Registry.find?_append, ko, if_neg hc]
  simp only [kThreadPermsSet, hi]
  cases (r.find? current).bind KObject.threadId with
  | none =>
    rw [visit_append hf hko]
    simp only [KObject.setFlags, ko, reduceCtorEq, decide_false]
    rfl
  | some idx =>
    have hp : update (fun _ => false) idx true =
        fun i => decide (some idx = some i) := KObject.perms_setPerm_clearPerms ko idx
    simp only
    rw [visit_append hf hko, visit_append _ (hko.trans (ko.setPerm_name idx).symm)]
    simp only [KObject.setPerm, KObject.setFlags, ko, hp]
    rfl

theorem zObjectAlloc_made {tidx : Option (Fin bits)} {next : State bits} (ha : ¬ (ot = .Any ∨ ot = .Last))
    (hr : s.reserveIndex ot = some (tidx, rsv))
    (hcr : rsv.dynamicObjectCreate current ot size mem = some (zo, next)) :
    ∃ name ≠ current, ∃ hf : rsv.objects.find? name = none,
      s.zObjectAlloc current ot size mem = (some name, ⟨rsv.objects.append
        { name := name
          type := ot
          flags := K_OBJ_FLAG_ALLOC
          perms := fun i => (rsv.objects.find? current).bind KObject.threadId = some i
          threadId := tidx
          dynamic := true } hf, rsv.threadIdxMap⟩) := by
  obtain ⟨name, rfl, hc, hf, rfl⟩ := dynamicObjectCreate_eq_some hcr
  refine ⟨name, hc, hf, ?_⟩
  simp only [zObjectAlloc, if_neg ha, hr, hcr]
  cases tidx with
  | none => rw [finish_append rfl none hc hf]
  | some tidx =>
    simp only
    rw [visit_append hf rfl]
    simp only [KObject.setThreadId]
    rw [finish_append rfl (some tidx) hc hf]

theorem mapAfter_alloc_of_none (h : s.created (.Alloc current ot size mem) = none) :
    s.mapAfter (.Alloc current ot size mem) = s.threadIdxMap := by
  simp only [mapAfter, h]
  split <;> simp

theorem called_given_back {i : Fin bits} (hc : ∀ name, s.clearedIndex (.Alloc current ot size mem) name = some i)
    (ho : rsv.objects = s.survivors (.Alloc current ot size mem))
    (hm : rsv.threadIdxMap = update s.threadIdxMap i false)
    (hf : s.threadIdxMap i = true)
    (ha : s.zObjectAlloc current ot size mem = (none, rsv.threadIdxFree i)) :
    Called s (.Alloc current ot size mem) (s.call (.Alloc current ot size mem)) := by
  have hcr : s.created (.Alloc current ot size mem) = none := by
    simp [created, ha]
  refine ⟨?_, fun _ => ?_, fun name hn => by cases hcr.symm.trans hn⟩
  · rw [mapAfter_alloc_of_none hcr]
    simp only [call, ha, threadIdxFree, kObjectWordlistForeach, hm]
    rw [update_idem, ← hf, update_eq_self]
  · simp only [call, ha, threadIdxFree, kObjectWordlistForeach, ho]
    refine s.objects.foreach_foreach _ _ fun ko _ => ?_
    have hk : removes (.Alloc current ot size mem) ko = false := by simp [removes]
    simp only [fate_apply, hk, hc, Bool.false_eq_true, if_false]
    exact (ko.unrefCheck_unrefCheck i).symm

theorem called_alloc (current : Tid) (ot : KObjects) (size : Nat) (mem : Option Nat) :
    Called s (.Alloc current ot size mem) (s.call (.Alloc current ot size mem)) := by
  have hrj (hn : s.clearedIndex (.Alloc current ot size mem) 0 = none)
      (hal : s.zObjectAlloc current ot size mem = (none, s)) :
      Called s (.Alloc current ot size mem) (s.call (.Alloc current ot size mem)) := by
    have hct : s.created (.Alloc current ot size mem) = none := by
      simp [created, hal]
    refine called_of_same hct (mapAfter_alloc_of_none hct) ?_ fun ko _ => ?_
    · simp [call, hal]
    · have hcl : s.clearedIndex (.Alloc current ot size mem) ko.name = none := hn
      simp [fate_apply, removes, hcl, changed]
  by_cases ha : ot = .Any ∨ ot = .Last
  · refine hrj ?_ ?_
    · rcases ha with rfl | rfl <;> rfl
    · simp [zObjectAlloc, if_pos ha]
  cases hr : s.reserveIndex ot with
  | none =>
    refine hrj ?_ ?_
    · simp only [clearedIndex]
      split
      · next ht =>
          subst ht
          cases hf : Slots.first s.threadIdxMap with
          | none => rfl
          | some i => simp [reserveIndex, threadIdxAlloc, hf] at hr
      · rfl
    · simp [zObjectAlloc, hr]
  | some pair =>
    obtain ⟨tidx, rsv⟩ := pair
    obtain ⟨hcl, ho, ht, hot⟩ := reserveIndex_eq_some hr current size mem
    cases hc : rsv.dynamicObjectCreate current ot size mem with
    | none =>
      cases tidx with
      | none =>
        obtain ⟨-, rfl⟩ := hot rfl
        refine hrj (hcl 0) ?_
        simp [zObjectAlloc, hr, hc]
      | some i =>
        obtain ⟨rfl, hf, hm⟩ := ht i rfl
        refine called_given_back hcl ho hm (Slots.of_first_eq_some hf) ?_
        simp only [zObjectAlloc, if_neg ha, hr, hc]
    | some made =>
      obtain ⟨zo, next⟩ := made
      obtain ⟨name, hcr, hfr, hal⟩ := zObjectAlloc_made ha hr hc
      have hct : s.created (.Alloc current ot size mem) = some name := by
        simp [created, hal]
      refine called_of_made hct ?_ ?_ ⟨by rw [← ho]; exact hfr, ?_⟩
      · simp only [call, hal, mapAfter, hct, Option.isSome_some, and_true]
        cases tidx with
        | none =>
          obtain ⟨hne, rfl⟩ := hot rfl
          simp only [if_neg hne]
          split <;> rfl
        | some i =>
          obtain ⟨rfl, hf, hm⟩ := ht i rfl
          simp [hf, hm]
      · exact fun hh => hcr (Option.some.inj hh).symm
      · simp [call, hal, ho, made, hcl]

end Alloc

theorem called (s : State bits) (op : Op) : Called s op (s.call op) := by
  cases op with
  | Alloc current otype size mem => exact called_alloc current otype size mem
  | CreateDynamic current size mem => exact called_createDynamic current size mem
  | Free obj => exact called_free obj
  | Grant obj t => exact called_grant obj t
  | Revoke obj t => exact called_revoke obj t
  | Release current obj => exact called_release current obj
  | AllGrant obj => exact called_allGrant obj
  | Init obj => exact called_init obj
  | Uninit obj => exact called_uninit obj
  | Recycle current obj => exact called_recycle current obj
  | Inherit par child => exact called_inherit par child
  | AllClear t => exact called_allClear t

end State

end Gale.Userspace
