import Gale.Kernel
import Gale.Lib.Run

namespace Gale.DeviceInit

open Lib

def MAX_DEVICES : Nat := 64

inductive InitLevel where
  | Early
  | PreKernel1
  | PreKernel2
  | PostKernel
  | Application
  | Smp

def InitLevel.toU8 : InitLevel → Nat
  | Early => 0
  | PreKernel1 => 1
  | PreKernel2 => 2
  | PostKernel => 3
  | Application => 4
  | Smp => 5

structure DeviceEntry where
  level : InitLevel
  priority : Nat
  numDeps : Fin 9
  deps : Vector Nat 8
  initialized : Bool
  initRes : Nat

def DeviceEntry.rank (dev : DeviceEntry) : Nat ×ₗ Nat := toLex (dev.level.toU8, dev.priority)

structure DeviceInitState where
  currentLevel : Nat
  numInitialized : Nat
  totalDevices : Nat

namespace DeviceInitState

def init (totalDevices : Nat) : Except Int DeviceInitState :=
  if totalDevices > MAX_DEVICES then .error EINVAL else .ok ⟨0, 0, totalDevices⟩

def initDevice (self : DeviceInitState) (dev : DeviceEntry) (success : Bool) :
    Int × DeviceInitState × DeviceEntry :=
  if dev.initialized then (EBUSY, self, dev)
  else if dev.level.toU8 < self.currentLevel then (EINVAL, self, dev)
  else if self.numInitialized ≥ self.totalDevices then (EINVAL, self, dev)
  else
    (if success then OK else EINVAL, { self with numInitialized := self.numInitialized + 1 },
      { dev with initialized := true, initRes := if success then 0 else 1 })

def advanceLevel (self : DeviceInitState) : Int × DeviceInitState :=
  if self.currentLevel < 5 then (OK, { self with currentLevel := self.currentLevel + 1 })
  else (EINVAL, self)

-- The loop returns false at the first dependency that is not ready.
def checkDepsSatisfied (dev : DeviceEntry) (devices : List DeviceEntry) : Bool :=
  (dev.deps.toList.take dev.numDeps).all fun dep =>
    match devices[dep]? with
    | some d => !(!d.initialized || d.initRes != 0)
    | none => false

def Accepts (self : DeviceInitState) (dev : DeviceEntry) : Prop :=
  dev.initialized = false ∧ self.currentLevel ≤ dev.level.toU8 ∧ self.numInitialized < self.totalDevices

instance (self : DeviceInitState) (dev : DeviceEntry) : Decidable (self.Accepts dev) :=
  inferInstanceAs (Decidable (_ ∧ _ ∧ _))

variable {self : DeviceInitState} {dev : DeviceEntry}

theorem initDevice_of_accepts (h : self.Accepts dev) (success : Bool) :
    (self.initDevice dev success).2 = ({ self with numInitialized := self.numInitialized + 1 },
      { dev with initialized := true, initRes := if success then 0 else 1 }) := by
  obtain ⟨hf, hl, hr⟩ := h
  rw [initDevice, if_neg (by simp [hf]), if_neg (by omega), if_neg (by omega)]

theorem initDevice_of_not_accepts (h : ¬ self.Accepts dev) (success : Bool) :
    (self.initDevice dev success).2 = (self, dev) := by
  unfold initDevice
  by_cases hf : dev.initialized = true
  · rw [if_pos hf]
  by_cases hl : dev.level.toU8 < self.currentLevel
  · rw [if_neg hf, if_pos hl]
  have hfl : self.numInitialized ≥ self.totalDevices := by
    by_contra hroom
    exact h ⟨by simpa using hf, by omega, by omega⟩
  rw [if_neg hf, if_neg hl, if_pos hfl]

end DeviceInitState

-- An initialization: the device, its rank, and whether its dependencies were ready.
structure Start where
  index : Nat
  rank : Nat ×ₗ Nat
  ready : Bool

-- The tracker and the device table, with the initializations so far, newest first.
structure System where
  tracker : DeviceInitState
  devices : List DeviceEntry
  starts : List Start

inductive Call where
  | InitDevice (index : Nat) (success : Bool)
  | AdvanceLevel

namespace System

def start (tracker : DeviceInitState) (table : List DeviceEntry) : System := ⟨tracker, table, []⟩

def step (s : System) : Call → Option System
  | .InitDevice index success => s.devices[index]?.map fun dev =>
    let (_, tracker, dev') := s.tracker.initDevice dev success
    { tracker, devices := s.devices.set index dev'
      starts := if dev.initialized = dev'.initialized then s.starts
        else ⟨index, dev.rank, DeviceInitState.checkDepsSatisfied dev s.devices⟩ :: s.starts }
  | .AdvanceLevel => some { s with tracker := s.tracker.advanceLevel.2 }

structure Orderly (s : System) : Prop where
  sorted : s.starts.Pairwise fun later earlier => earlier.rank ≤ later.rank
  once : (s.starts.map Start.index).Nodup
  counted : s.tracker.numInitialized = s.devices.countP DeviceEntry.initialized
  ready : ∀ entry ∈ s.starts, entry.ready = true

-- An initialization that takes place comes after those of lower rank, with all
-- dependencies ready.
def Respects (s : System) : Call → Prop
  | .InitDevice index _ => ∀ dev, s.devices[index]? = some dev → s.tracker.Accepts dev →
      (∀ other ∈ s.devices, other.initialized = true → other.rank ≤ dev.rank) ∧
        DeviceInitState.checkDepsSatisfied dev s.devices = true
  | .AdvanceLevel => True

def Logged (s : System) : Prop :=
  ∀ index rank, (∃ entry ∈ s.starts, entry.index = index ∧ entry.rank = rank) ↔
    ∃ dev, s.devices[index]? = some dev ∧ dev.initialized = true ∧ dev.rank = rank

variable {s next : System} {call : Call}

theorem step_cases (h : step s call = some next) : (next.devices = s.devices ∧ next.starts = s.starts ∧
      next.tracker.numInitialized = s.tracker.numInitialized ∧ s.Respects call) ∨
    ∃ i success dev, call = .InitDevice i success ∧ s.devices[i]? = some dev ∧ s.tracker.Accepts dev ∧
      next.tracker.numInitialized = s.tracker.numInitialized + 1 ∧
      next.devices = s.devices.set i
        { dev with initialized := true, initRes := if success then 0 else 1 } ∧
      next.starts = ⟨i, dev.rank, DeviceInitState.checkDepsSatisfied dev s.devices⟩ :: s.starts := by
  cases call with
  | AdvanceLevel =>
    cases h
    refine .inl ⟨rfl, rfl, ?_, trivial⟩
    simp only [DeviceInitState.advanceLevel]
    split_ifs <;> rfl
  | InitDevice i success =>
    obtain ⟨dev, hd, rfl⟩ := Option.map_eq_some_iff.mp h
    by_cases ha : s.tracker.Accepts dev
    · refine .inr ⟨i, success, dev, rfl, hd, ha, ?_⟩
      simp [DeviceInitState.initDevice_of_accepts ha, ha.1]
    · refine .inl ?_
      obtain ⟨hlt, rfl⟩ := List.getElem?_eq_some_iff.mp hd
      simp only [DeviceInitState.initDevice_of_not_accepts ha, List.set_getElem_self, if_true, true_and]
      intro o ho hit
      cases hd.symm.trans ho
      exact absurd hit ha

theorem Logged.step (h : s.Logged) (hs : step s call = some next) : next.Logged := by
  obtain ⟨hd, hst, -⟩ | ⟨i, success, dev, -, hdv, ⟨hf, -⟩, -, hd, hst⟩ :=
    step_cases hs
  · simpa only [Logged, hd, hst] using h
  · obtain ⟨hlt, rfl⟩ := List.getElem?_eq_some_iff.mp hdv
    intro o rank
    have ho := h o rank
    simp only [hst, hd, List.exists_mem_cons_iff, ho, List.getElem?_set]
    by_cases heq : i = o
    · subst heq
      simp [hlt, hf, DeviceEntry.rank]
    · simp [heq]

theorem orderly_iff (h : s.Orderly) (hl : s.Logged) (hs : step s call = some next) :
    next.Orderly ↔ s.Respects call := by
  obtain ⟨hd, hst, hn, hr⟩ |
    ⟨index, success, dev, rfl, hdev, haccepts, hn, hd, hst⟩ := step_cases hs
  · refine iff_of_true ⟨?_, ?_, ?_, ?_⟩ hr
    · exact hst ▸ h.sorted
    · exact hst ▸ h.once
    · rw [hn, hd]
      exact h.counted
    · exact hst ▸ h.ready
  constructor
  · rintro ⟨hsr, -, -, hrd⟩ o ho -
    cases hdev.symm.trans ho
    rw [hst] at hsr hrd
    refine ⟨fun o hm hi => ?_, hrd _ List.mem_cons_self⟩
    obtain ⟨at', hat⟩ := List.getElem?_of_mem hm
    obtain ⟨entry, he, -, hrn⟩ := (hl at' o.rank).mpr ⟨o, hat, hi, rfl⟩
    exact hrn ▸ (List.pairwise_cons.mp hsr).1 entry he
  · intro hr
    obtain ⟨hb, hdp⟩ := hr dev hdev haccepts
    have hi : ∀ entry ∈ s.starts, ∃ o, s.devices[entry.index]? = some o ∧
        o.initialized = true ∧ o.rank = entry.rank := fun entry he =>
      (hl _ _).mp ⟨entry, he, rfl, rfl⟩
    refine ⟨?_, ?_, ?_, ?_⟩
    · rw [hst]
      refine List.pairwise_cons.mpr ⟨fun entry he => ?_, h.sorted⟩
      obtain ⟨o, ho, hot, hrn⟩ := hi entry he
      exact hrn ▸ hb o (List.mem_of_getElem? ho) hot
    · rw [hst, List.map_cons]
      refine List.nodup_cons.mpr ⟨fun hm => ?_, h.once⟩
      obtain ⟨entry, he, heq⟩ := List.mem_map.mp hm
      obtain ⟨o, ho, hot, -⟩ := hi entry he
      rw [heq] at ho
      cases hdev.symm.trans ho
      simp [haccepts.1] at hot
    · obtain ⟨hlt, rfl⟩ := List.getElem?_eq_some_iff.mp hdev
      rw [hn, hd, h.counted, List.countP_set hlt]
      simp [haccepts.1]
    · rw [hst]
      exact List.forall_mem_cons.mpr ⟨hdp, h.ready⟩

theorem logged_start {tracker : DeviceInitState} {tb : List DeviceEntry}
    (hf : ∀ dev ∈ tb, dev.initialized = false) : (start tracker tb).Logged := by
  intro i rank
  simp only [start, List.not_mem_nil, false_and, exists_false, false_iff]
  rintro ⟨dev, hd, hi, -⟩
  simp [hf dev (List.mem_of_getElem? hd)] at hi

theorem orderly_iff_respects (table : List DeviceEntry)
    (hfresh : ∀ dev ∈ table, dev.initialized = false) (tracker : DeviceInitState)
    (hinit : DeviceInitState.init table.length = .ok tracker) (calls : List Call) :
    Throughout step Orderly (start tracker table) calls ↔
      Along step Respects (start tracker table) calls := by
  have hz : tracker.numInitialized = 0 := by
    unfold DeviceInitState.init at hinit
    split_ifs at hinit
    cases hinit
    rfl
  have hst : (start tracker table).Orderly := by
    refine ⟨List.Pairwise.nil, List.nodup_nil, ?_, by simp [start]⟩
    rw [start, hz, eq_comm, List.countP_eq_zero]
    exact fun dev hd => by simp [hfresh dev hd]
  refine throughout_iff_along (fun s : System => s.Orderly ∧ s.Logged) (fun _ h => h.1) ?_ ?_
    ⟨hst, logged_start hfresh⟩ calls
  · intro s call next h hc hs
    exact ⟨(orderly_iff h.1 h.2 hs).mpr hc, h.2.step hs⟩
  · intro s call next h hc hs
    exact fun ho => hc ((orderly_iff h.1 h.2 hs).mp ho)

-- The second device is due at the first level and the first one depends on it.
def pair : List DeviceEntry :=
  [⟨.PostKernel, 0, 1, Vector.replicate 8 1, false, 0⟩, ⟨.Early, 0, 0, Vector.replicate 8 0, false, 0⟩]

theorem pair_orderly_iff : Throughout step Orderly (start ⟨0, 0, 2⟩ pair)
      [.InitDevice 1 true, .AdvanceLevel, .InitDevice 0 true] ↔
    Along step Respects (start ⟨0, 0, 2⟩ pair)
      [.InitDevice 1 true, .AdvanceLevel, .InitDevice 0 true] :=
  orderly_iff_respects pair (by decide) _ rfl _

theorem dependent_first : ∃ final, run step (start ⟨0, 0, 2⟩ pair)
      [.InitDevice 0 true, .InitDevice 1 true] = some final ∧
    final.starts = [⟨1, toLex (0, 0), true⟩, ⟨0, toLex (3, 0), false⟩] :=
  ⟨_, rfl, rfl⟩

end System

end Gale.DeviceInit
