import Gale.Kernel
import Gale.Lib.Run

namespace Gale.Userspace.Object

open Lib

-- From src/userspace.rs: one object with its flags and an array of permissions.

def MAX_THREADS : Nat := 64

structure KernelObject where
  flagInitialized : Bool
  flagPublic : Bool
  threadPerms : Fin MAX_THREADS → Bool

def slot? (tid : UInt32) : Option (Fin MAX_THREADS) :=
  if h : tid.toNat < MAX_THREADS then some ⟨tid.toNat, h⟩ else none

namespace KernelObject

def new : KernelObject where
  flagInitialized := false
  flagPublic := false
  threadPerms := fun _ => false

def grantAccess (ko : KernelObject) (tid : UInt32) : KernelObject × Int :=
  match slot? tid with
  | none => (ko, EINVAL)
  | some i => ({ ko with threadPerms := Function.update ko.threadPerms i true }, OK)

def revokeAccess (ko : KernelObject) (tid : UInt32) : KernelObject × Int :=
  match slot? tid with
  | none => (ko, EINVAL)
  | some i => ({ ko with threadPerms := Function.update ko.threadPerms i false }, OK)

def clearAllPerms (ko : KernelObject) : KernelObject := { ko with threadPerms := fun _ => false }

def checkAccess (ko : KernelObject) (tid : UInt32) (isSupervisor : Bool) : Bool :=
  if isSupervisor then true
  else if ko.flagPublic then true
  else match slot? tid with
    | none => false
    | some i => ko.threadPerms i

def initObject (ko : KernelObject) : KernelObject := { ko with flagInitialized := true }

def uninitObject (ko : KernelObject) : KernelObject := { ko with flagInitialized := false }

-- An id outside the array makes the indexing panic.
def recycle (ko : KernelObject) (currentTid : UInt32) : Option (KernelObject × Int) :=
  match slot? currentTid with
  | none => none
  | some i =>
    let cleared := { ko with threadPerms := fun _ => false }
    some ({ cleared with
      threadPerms := Function.update cleared.threadPerms i true
      flagInitialized := true }, OK)

def makePublic (ko : KernelObject) : KernelObject := { ko with flagPublic := true }

end KernelObject

inductive Op where
  | GrantAccess (tid : UInt32)
  | RevokeAccess (tid : UInt32)
  | MakePublic
  | InitObject
  | UninitObject
  | ClearAllPerms
  | Recycle (tid : UInt32)
  deriving DecidableEq, Repr

def step (ko : KernelObject) : Op → Option KernelObject
  | .GrantAccess tid => some (ko.grantAccess tid).1
  | .RevokeAccess tid => some (ko.revokeAccess tid).1
  | .MakePublic => some ko.makePublic
  | .InitObject => some ko.initObject
  | .UninitObject => some ko.uninitObject
  | .ClearAllPerms => some ko.clearAllPerms
  | .Recycle tid => (ko.recycle tid).map Prod.fst

theorem slot?_eq_some {tid : UInt32} {i : Fin MAX_THREADS} : slot? tid = some i ↔ tid.toNat = i.val := by
  unfold slot?
  split
  next => simp [Fin.ext_iff]
  next hge =>
    refine iff_of_false nofun fun heq => hge ?_
    rw [heq]
    exact i.isLt

theorem slot?_inj {t u : UInt32} {i : Fin MAX_THREADS} (ht : slot? t = some i) (hu : slot? u = some i) : u = t := by
  rw [slot?_eq_some] at ht hu
  exact UInt32.toNat.inj (hu.trans ht.symm)

def Op.gives : Op → Prop
  | .GrantAccess _ | .MakePublic | .Recycle _ => True
  | _ => False

def Op.takes (i : Fin MAX_THREADS) : Op → Prop
  | .RevokeAccess tid => slot? tid = some i
  | .ClearAllPerms => True
  | _ => False

section Step

variable {ko next : KernelObject} {op : Op}

theorem step_public (hs : step ko op = some next) :
    next.flagPublic = true ↔ ko.flagPublic = true ∨ op = .MakePublic := by
  cases op with
  | GrantAccess tid =>
    cases hs
    simp only [KernelObject.grantAccess]
    cases slot? tid <;> simp
  | RevokeAccess tid =>
    cases hs
    simp only [KernelObject.revokeAccess]
    cases slot? tid <;> simp
  | MakePublic =>
    cases hs
    simp [KernelObject.makePublic]
  | InitObject =>
    cases hs
    simp [KernelObject.initObject]
  | UninitObject =>
    cases hs
    simp [KernelObject.uninitObject]
  | ClearAllPerms =>
    cases hs
    simp [KernelObject.clearAllPerms]
  | Recycle tid =>
    simp only [step, KernelObject.recycle] at hs
    cases hsl : slot? tid with
    | none =>
      rw [hsl] at hs
      cases hs
    | some i =>
      rw [hsl] at hs
      cases hs
      simp

theorem step_perms (hop : ¬ op.gives) (hs : step ko op = some next) (i : Fin MAX_THREADS) :
    next.threadPerms i = true ↔ ko.threadPerms i = true ∧ ¬ op.takes i := by
  cases op with
  | GrantAccess tid | MakePublic | Recycle tid => exact absurd trivial hop
  | RevokeAccess tid =>
    cases hs
    change _ ↔ _ ∧ ¬ slot? tid = some i
    simp only [KernelObject.revokeAccess]
    cases hsl : slot? tid with
    | none => simp
    | some j =>
      by_cases heq : i = j
      · subst heq
        simp
      · simp [Function.update_of_ne heq, Ne.symm heq]
  | InitObject | UninitObject =>
    cases hs
    exact (and_iff_left not_false).symm
  | ClearAllPerms =>
    cases hs
    exact iff_of_false Bool.false_ne_true fun h => h.2 trivial

theorem recycle_perms {tid : UInt32} (hs : step ko (.Recycle tid) = some next)
    (i : Fin MAX_THREADS) : next.threadPerms i = true ↔ slot? tid = some i := by
  simp only [step, KernelObject.recycle] at hs
  cases hsl : slot? tid with
  | none =>
    rw [hsl] at hs
    cases hs
  | some j =>
    rw [hsl] at hs
    cases hs
    simp only [Function.update_apply, Option.some.injEq, eq_comm]
    split <;> simp_all

end Step

theorem run_public {ko final : KernelObject} {ops : List Op} (hrn : run step ko ops = some final) :
    final.flagPublic = true ↔ ko.flagPublic = true ∨ .MakePublic ∈ ops := by
  induction ops generalizing ko with
  | nil =>
    cases hrn
    simp
  | cons op rest ih =>
    obtain ⟨next, hs, hr⟩ := run_cons_eq_some.mp hrn
    rw [ih hr, step_public hs, List.mem_cons, or_assoc, @eq_comm _ Op.MakePublic]

theorem run_perms {ko final : KernelObject} {ops : List Op} (hrn : run step ko ops = some final)
    (hq : ∀ op ∈ ops, ¬ op.gives) (i : Fin MAX_THREADS) :
    final.threadPerms i = true ↔ ko.threadPerms i = true ∧ ∀ op ∈ ops, ¬ op.takes i := by
  induction ops generalizing ko with
  | nil =>
    cases hrn
    simp
  | cons op rest ih =>
    obtain ⟨next, hs, hr⟩ := run_cons_eq_some.mp hrn
    rw [ih hr fun o hm => hq o (List.mem_cons_of_mem _ hm),
      step_perms (hq op List.mem_cons_self) hs, List.forall_mem_cons, and_assoc]

theorem checkAccess_iff (ko : KernelObject) (tid : UInt32) : ko.checkAccess tid false = true ↔
      ko.flagPublic = true ∨ ∃ i, slot? tid = some i ∧ ko.threadPerms i = true := by
  unfold KernelObject.checkAccess
  cases ko.flagPublic with
  | true => simp
  | false => cases slot? tid <;> simp

section Window

variable {before after : List Op} {t : UInt32} {ko recycled final : KernelObject}

theorem recycled_public (hb : run step .new before = some ko)
    (hr : step ko (.Recycle t) = some recycled) (ha : run step recycled after = some final)
    (hq : ∀ op ∈ after, ¬ op.gives) : final.flagPublic = true ↔ .MakePublic ∈ before := by
  rw [run_public ha, step_public hr, run_public hb]
  simp only [KernelObject.new, Bool.false_eq_true, false_or, reduceCtorEq, or_false]
  exact or_iff_left fun hm => hq _ hm trivial

theorem recycled_perms (hr : step ko (.Recycle t) = some recycled)
    (ha : run step recycled after = some final) (hq : ∀ op ∈ after, ¬ op.gives)
    (u : UInt32) :
    (∃ i, slot? u = some i ∧ final.threadPerms i = true) ↔
      u = t ∧ .RevokeAccess t ∉ after ∧ .ClearAllPerms ∉ after := by
  constructor
  · rintro ⟨i, hu, hp⟩
    obtain ⟨ht, hk⟩ := (run_perms ha hq i).mp hp
    rw [recycle_perms hr] at ht
    exact ⟨slot?_inj ht hu, fun hm => hk _ hm ht, fun hm => hk _ hm trivial⟩
  · rintro ⟨rfl, hrv, hc⟩
    obtain ⟨i, hs⟩ : ∃ i, slot? u = some i := by
      simp only [step, KernelObject.recycle] at hr
      cases hs : slot? u with
      | none =>
        rw [hs] at hr
        cases hr
      | some i => exact ⟨i, rfl⟩
    refine ⟨i, hs, (run_perms ha hq i).mpr ⟨(recycle_perms hr i).mpr hs, ?_⟩⟩
    intro op hm htk
    cases op with
    | RevokeAccess tid =>
      rw [slot?_inj hs htk] at hm
      exact hrv hm
    | ClearAllPerms => exact hc hm
    | _ => exact htk

theorem recycle_withdraws_iff (before after : List Op) (hbefore : run step .new before = some ko)
    (hrecycle : step ko (.Recycle t) = some recycled) (hafter : run step recycled after = some final)
    (hquiet : ∀ op ∈ after, ¬ op.gives) :
    (∀ u, final.checkAccess u false = true ↔ u = t) ↔
      .MakePublic ∉ before ∧ .RevokeAccess t ∉ after ∧ .ClearAllPerms ∉ after := by
  have ha : ∀ u, final.checkAccess u false = true ↔
      .MakePublic ∈ before ∨ u = t ∧ .RevokeAccess t ∉ after ∧ .ClearAllPerms ∉ after := by
    intro u
    rw [checkAccess_iff, recycled_public hbefore hrecycle hafter hquiet,
      recycled_perms hrecycle hafter hquiet u]
  constructor
  · intro he
    have hp : .MakePublic ∉ before := by
      intro hpb
      have ho : t + 1 = t := (he _).mp ((ha _).mpr (.inl hpb))
      simp at ho
    have hk := ((ha t).mp ((he t).mpr rfl)).resolve_left hp
    exact ⟨hp, hk.2⟩
  · rintro ⟨hp, hk⟩ u
    rw [ha u, or_iff_right hp]
    exact and_iff_left hk

end Window

theorem recycle_withdraws_granted :
    ∃ final, run step .new [.GrantAccess 3, .Recycle 5, .UninitObject] = some final ∧
      ∀ u, final.checkAccess u false = true ↔ u = 5 :=
  ⟨_, rfl, (recycle_withdraws_iff [.GrantAccess 3] [.UninitObject] rfl rfl rfl
    (List.forall_mem_singleton.mpr not_false)).mpr (by decide)⟩

theorem recycled_object_stays_public : ∃ final, run step .new [.MakePublic, .Recycle 5] = some final ∧
      final.checkAccess 7 false = true :=
  ⟨_, rfl, rfl⟩

end Gale.Userspace.Object
