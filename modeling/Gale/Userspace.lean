import Gale.Kernel
import Gale.Lib.Bits
import Gale.Lib.Registry
import Gale.Lib.Slots

namespace Gale.Userspace

open Lib Lib.Bits

-- enum k_objects, as far as the code tells its values apart. Last is K_OBJ_LAST or beyond.
inductive KObjects where
  | Any
  | Thread
  | ThreadStackElement
  | Futex
  | SysMutex
  | NetSocket
  | Other (n : Nat)
  | Last
  deriving DecidableEq, Repr

-- enum _obj_init_check
inductive ObjInitCheck where
  | InitTrue
  | InitFalse
  | InitAny

def K_OBJ_FLAG_INITIALIZED : UInt8 := 0x01
def K_OBJ_FLAG_PUBLIC : UInt8 := 0x02
def K_OBJ_FLAG_ALLOC : UInt8 := 0x04

-- From src/userspace.rs.
def accessDecide (isPublic hasPermBit : Bool) : Bool := isPublic || hasPermBit

def validateDecide (typeMatches hasAccess isInitialized : Bool) (initCheck : ObjInitCheck) :
    Except Int Unit :=
  if !typeMatches then .error EBADF
  else if !hasAccess then .error EPERM
  else match initCheck with
    | .InitTrue => if !isInitialized then .error EINVAL else .ok ()
    | .InitFalse => if isInitialized then .error EADDRINUSE else .ok ()
    | .InitAny => .ok ()

def initFlagsDecide (currentFlags : UInt8) : UInt8 := currentFlags ||| K_OBJ_FLAG_INITIALIZED

def uninitFlagsDecide (currentFlags : UInt8) : UInt8 := currentFlags &&& ~~~K_OBJ_FLAG_INITIALIZED

def recycleFlagsDecide (currentFlags : UInt8) : UInt8 := currentFlags ||| K_OBJ_FLAG_INITIALIZED

def makePublicFlagsDecide (currentFlags : UInt8) : UInt8 := currentFlags ||| K_OBJ_FLAG_PUBLIC

-- From ffi/src/lib.rs.
def galeKObjectAccessDecide (flags : UInt8) (hasPermBit : Bool) : Bool :=
  accessDecide (hasFlag K_OBJ_FLAG_PUBLIC flags) hasPermBit

def galeKObjectValidateDecide (objType expectedType : KObjects) (flags : UInt8) (hasAccess : Bool)
    (initCheck : ObjInitCheck) : Int :=
  let typeMatches : Bool := expectedType = .Any ∨ objType = expectedType
  let isInitialized := hasFlag K_OBJ_FLAG_INITIALIZED flags
  match validateDecide typeMatches hasAccess isInitialized initCheck with
  | .ok () => OK
  | .error e => e

structure GaleUserspaceRecycleDecision where
  newFlags : UInt8
  clearPerms : Bool

def galeKObjectRecycleDecide (currentFlags : UInt8) : GaleUserspaceRecycleDecision :=
  ⟨recycleFlagsDecide currentFlags, true⟩

-- From zephyr/gale_userspace.c, with CONFIG_DYNAMIC_OBJECTS.
section Objects

-- MAX_THREAD_BITS
variable {bits : Nat}

-- struct k_object; name is the address of the object it is about. A dynamic one is part of
-- a dyn_obj on obj_list, any other is in the table that gperf made.
structure KObject (bits : Nat) where
  name : Nat
  type : KObjects
  flags : UInt8
  perms : Fin bits → Bool
  threadId : Option (Fin bits)
  dynamic : Bool

namespace KObject

def setPerm (ko : KObject bits) (index : Fin bits) : KObject bits :=
  { ko with perms := Function.update ko.perms index true }

def clearPerm (ko : KObject bits) (index : Fin bits) : KObject bits :=
  { ko with perms := Function.update ko.perms index false }

def clearPerms (ko : KObject bits) : KObject bits := { ko with perms := fun _ => false }

def setFlags (ko : KObject bits) (flags : UInt8) : KObject bits := { ko with flags := flags }

def setThreadId (ko : KObject bits) (tidx : Fin bits) : KObject bits :=
  { ko with threadId := some tidx }

variable (ko : KObject bits)

@[simp] theorem setPerm_name (i : Fin bits) : (ko.setPerm i).name = ko.name := rfl

@[simp] theorem clearPerm_name (i : Fin bits) : (ko.clearPerm i).name = ko.name := rfl

@[simp] theorem clearPerms_name : ko.clearPerms.name = ko.name := rfl

@[simp] theorem setFlags_name (fl : UInt8) : (ko.setFlags fl).name = ko.name := rfl

@[simp] theorem setThreadId_name (tidx : Fin bits) : (ko.setThreadId tidx).name = ko.name := rfl

def unrefCheck (ko : KObject bits) (index : Fin bits) : Option (KObject bits) :=
  let ko := ko.clearPerm index
  if !hasFlag K_OBJ_FLAG_ALLOC ko.flags then some ko
  else if ∃ i, ko.perms i = true then some ko
  else none

end KObject

-- A callback of k_object_wordlist_foreach may free the object it is called on.
abbrev WordlistCbFunc (bits : Nat) := Visit (KObject.name : KObject bits → Nat)

def wordlistCb (parent : Tid) (parentId childId : Fin bits) : WordlistCbFunc bits :=
  .always (fun ko => if ko.perms parentId ∧ ko.name ≠ parent then ko.setPerm childId else ko) <| by
    intro ko
    split <;> rfl

def clearPermsCb (id : Fin bits) : WordlistCbFunc bits where
  apply ko := ko.unrefCheck id
  key_eq := by
    intro ko ko' h
    simp only [KObject.unrefCheck] at h
    split at h
    · cases h
      rfl
    · split at h
      · cases h
        rfl
      · cases h

-- The objects are those of the table and of obj_list. A bit of _thread_idx_map is set if
-- the index is free.
structure State (bits : Nat) where
  objects : Registry (KObject.name : KObject bits → Nat)
  threadIdxMap : Fin bits → Bool

namespace State

def kObjectFind (s : State bits) (obj : Nat) : Option (KObject bits) := s.objects.find? obj

def kObjectWordlistForeach (s : State bits) (func : WordlistCbFunc bits) : State bits :=
  { s with objects := s.objects.foreach func }

def visit (s : State bits) (ko : KObject bits) (v : WordlistCbFunc bits) : State bits :=
  { s with objects := s.objects.foreach (v.only ko.name) }

def setFlags (s : State bits) (ko : KObject bits) (flags : UInt8) : State bits :=
  s.visit ko (.always (·.setFlags flags) (·.setFlags_name flags))

def threadIndexGet (s : State bits) (thread : Tid) : Option (Fin bits) :=
  (s.kObjectFind thread).bind KObject.threadId

def threadIdxAlloc (s : State bits) : Option (Fin bits × State bits) :=
  match Slots.first s.threadIdxMap with
  | some tidx =>
    let s := { s with threadIdxMap := Function.update s.threadIdxMap tidx false }
    some (tidx, s.kObjectWordlistForeach (clearPermsCb tidx))
  | none => none

def threadIdxFree (s : State bits) (tidx : Fin bits) : State bits :=
  let s := s.kObjectWordlistForeach (clearPermsCb tidx)
  { s with threadIdxMap := Function.update s.threadIdxMap tidx true }

def kThreadPermsInherit (s : State bits) (parent child : Tid) : State bits :=
  match s.threadIndexGet parent, s.threadIndexGet child with
  | some parentId, some childId => s.kObjectWordlistForeach (wordlistCb parent parentId childId)
  | _, _ => s

def kThreadPermsSet (s : State bits) (ko : KObject bits) (thread : Tid) : State bits :=
  match s.threadIndexGet thread with
  | some index => s.visit ko (.always (·.setPerm index) (·.setPerm_name index))
  | none => s

def kThreadPermsClear (s : State bits) (ko : KObject bits) (thread : Tid) : State bits :=
  match s.threadIndexGet thread with
  | some index =>
    (s.visit ko (.always (·.clearPerm index) (·.clearPerm_name index))).visit ko (clearPermsCb index)
  | none => s

def kThreadPermsAllClear (s : State bits) (thread : Tid) : State bits :=
  match s.threadIndexGet thread with
  | some index => s.kObjectWordlistForeach (clearPermsCb index)
  | none => s

def threadPermsTest (s : State bits) (current : Tid) (ko : KObject bits) : Bool :=
  let hasPermBit := match s.threadIndexGet current with
    | some index => ko.perms index
    | none => false
  galeKObjectAccessDecide ko.flags hasPermBit

-- mem is what the heap gives for the object and its dyn_obj, if it gives both. Memory in
-- use, by an object or the running thread, is no such answer.
def dynamicObjectCreate (s : State bits) (current : Tid) (otype : KObjects) (size : Nat)
    (mem : Option Nat) : Option (KObject bits × State bits) :=
  match mem with
  | none => none
  | some name =>
    if otype = .ThreadStackElement ∧ size = 0 then none
    else
      let ko : KObject bits := ⟨name, otype, 0, fun _ => false, none, true⟩
      if h : s.objects.find? name = none ∧ name ≠ current then
        some (ko, { s with objects := s.objects.append ko h.1 })
      else none

def kObjectCreateDynamicAligned (s : State bits) (current : Tid) (size : Nat) (mem : Option Nat) :
    Option Nat × State bits :=
  match s.dynamicObjectCreate current .Any size mem with
  | some (ko, s) => (some ko.name, s)
  | none => (none, s)

-- The switch of z_object_alloc: a thread needs an index, some objects are not allowed.
def reserveIndex (s : State bits) : KObjects → Option (Option (Fin bits) × State bits)
  | .Thread => s.threadIdxAlloc.map fun (tidx, s) => (some tidx, s)
  | .Futex => none
  | .SysMutex => none
  | .NetSocket => none
  | _ => some (none, s)

def zObjectAlloc (s : State bits) (current : Tid) (otype : KObjects) (size : Nat)
    (mem : Option Nat) : Option Nat × State bits :=
  if otype = .Any ∨ otype = .Last then (none, s)
  else match s.reserveIndex otype with
    | none => (none, s)
    | some (tidx, s) =>
      match s.dynamicObjectCreate current otype size mem with
      | none =>
        match tidx with
        | some tidx => (none, s.threadIdxFree tidx)
        | none => (none, s)
      | some (zo, s) =>
        let s := match tidx with
          | some tidx => s.visit zo (.always (·.setThreadId tidx) (·.setThreadId_name tidx))
          | none => s
        let s := s.kThreadPermsSet zo current
        let s := s.visit zo (.always (fun ko => ko.setFlags (ko.flags ||| K_OBJ_FLAG_ALLOC))
          fun ko => ko.setFlags_name _)
        (some zo.name, s)

def dynObjectFind (s : State bits) (obj : Nat) : Option (KObject bits) :=
  (s.kObjectFind obj).filter KObject.dynamic

def kObjectFree (s : State bits) (obj : Nat) : State bits :=
  match s.dynObjectFind obj with
  | none => s
  | some ko =>
    let s := s.visit ko Visit.remove
    if ko.type = .Thread then
      match ko.threadId with
      | some tidx => s.threadIdxFree tidx
      | none => s
    else s

def kObjectAccessGrant (s : State bits) (object : Nat) (thread : Tid) : State bits :=
  match s.kObjectFind object with
  | some ko => s.kThreadPermsSet ko thread
  | none => s

def kObjectAccessRevoke (s : State bits) (object : Nat) (thread : Tid) : State bits :=
  match s.kObjectFind object with
  | some ko => s.kThreadPermsClear ko thread
  | none => s

def kObjectRelease (s : State bits) (current : Tid) (object : Nat) : State bits :=
  s.kObjectAccessRevoke object current

def kObjectAccessAllGrant (s : State bits) (object : Nat) : State bits :=
  match s.kObjectFind object with
  | some ko => s.setFlags ko (makePublicFlagsDecide ko.flags)
  | none => s

def kObjectValidate (s : State bits) (current : Tid) (ko : Option (KObject bits))
    (otype : KObjects) (init : ObjInitCheck) : Int :=
  match ko with
  | none => EBADF
  | some ko =>
    galeKObjectValidateDecide ko.type otype ko.flags (s.threadPermsTest current ko) init

def kObjectInit (s : State bits) (obj : Nat) : State bits :=
  match s.kObjectFind obj with
  | some ko => s.setFlags ko (initFlagsDecide ko.flags)
  | none => s

def kObjectUninit (s : State bits) (obj : Nat) : State bits :=
  match s.kObjectFind obj with
  | some ko => s.setFlags ko (uninitFlagsDecide ko.flags)
  | none => s

def kObjectRecycle (s : State bits) (current : Tid) (obj : Nat) : State bits :=
  match s.kObjectFind obj with
  | none => s
  | some ko =>
    let d := galeKObjectRecycleDecide ko.flags
    let s := if d.clearPerms then
        (s.visit ko (.always KObject.clearPerms KObject.clearPerms_name)).kThreadPermsSet ko current
      else s
    s.setFlags ko d.newFlags

def isThread (s : State bits) (thread : Tid) : Bool :=
  (s.kObjectFind thread).all fun ko => ko.type = .Thread

end State

inductive Op where
  | Alloc (current : Tid) (otype : KObjects) (size : Nat) (mem : Option Nat)
  | CreateDynamic (current : Tid) (size : Nat) (mem : Option Nat)
  | Free (obj : Nat)
  | Grant (obj : Nat) (thread : Tid)
  | Revoke (obj : Nat) (thread : Tid)
  | Release (current : Tid) (obj : Nat)
  | AllGrant (obj : Nat)
  | Init (obj : Nat)
  | Uninit (obj : Nat)
  | Recycle (current : Tid) (obj : Nat)
  | Inherit (parent child : Tid)
  | AllClear (thread : Tid)
  deriving DecidableEq, Repr

def Op.threads : Op → List Tid
  | .Alloc current _ _ _ => [current]
  | .CreateDynamic current _ _ => [current]
  | .Free _ => []
  | .Grant _ thread => [thread]
  | .Revoke _ thread => [thread]
  | .Release current _ => [current]
  | .AllGrant _ => []
  | .Init _ => []
  | .Uninit _ => []
  | .Recycle current _ => [current]
  | .Inherit parent child => [parent, child]
  | .AllClear thread => [thread]

def State.call (s : State bits) : Op → State bits
  | .Alloc current otype size mem => (s.zObjectAlloc current otype size mem).2
  | .CreateDynamic current size mem => (s.kObjectCreateDynamicAligned current size mem).2
  | .Free obj => s.kObjectFree obj
  | .Grant obj thread => s.kObjectAccessGrant obj thread
  | .Revoke obj thread => s.kObjectAccessRevoke obj thread
  | .Release current obj => s.kObjectRelease current obj
  | .AllGrant obj => s.kObjectAccessAllGrant obj
  | .Init obj => s.kObjectInit obj
  | .Uninit obj => s.kObjectUninit obj
  | .Recycle current obj => s.kObjectRecycle current obj
  | .Inherit parent child => s.kThreadPermsInherit parent child
  | .AllClear thread => s.kThreadPermsAllClear thread

-- What is passed as a thread is one.
def step (s : State bits) (op : Op) : Option (State bits) :=
  if op.threads.all s.isThread then some (s.call op) else none

-- What the build generates: the objects of the table, with the threads among them
-- numbered, and the indexes they leave.
structure Image (bits : Nat) where
  objects : Registry (KObject.name : KObject bits → Nat)
  threadIdxMap : Fin bits → Bool
  dynamic : ∀ ko ∈ objects.entries, ko.dynamic = false
  flags : ∀ ko ∈ objects.entries, hasFlag (K_OBJ_FLAG_ALLOC ||| K_OBJ_FLAG_PUBLIC) ko.flags = false
  perms : ∀ ko ∈ objects.entries, ∀ i, ko.perms i = false
  thread : ∀ ko ∈ objects.entries, ko.type = .Thread ↔ ko.threadId.isSome = true
  distinct : ∀ ko ∈ objects.entries, ∀ other ∈ objects.entries, ∀ i,
    ko.threadId = some i → other.threadId = some i → ko = other
  used : ∀ ko ∈ objects.entries, ∀ i, ko.threadId = some i → threadIdxMap i = false

def Image.boot (image : Image bits) : State bits := ⟨image.objects, image.threadIdxMap⟩

end Objects

end Gale.Userspace
