import Gale.Usage
import Gale.Lib.Run

namespace Gale.Usage

open Function Lib

-- What a run does apart from times: which total each call charges, and from when. Readings
-- are named by their index. opened is the reading that usage0 holds, and the flushes
-- are the first ones that charged a total from it and left it where it is.
structure Shape where
  current : Tid
  cpuTracked : Bool
  tracked : Tid → Bool
  reads : Nat
  first : Option Nat
  opened : Option Nat
  cpuFlushed : Option Nat
  threadFlushed : Option Nat

namespace Shape

def readsClock (p : Shape) : Op → Bool
  | .Start _ => true
  | .Stop => p.opened.isSome
  | .ThreadUsage thread => thread = p.current
  | .ThreadDisable thread => p.tracked thread && thread = p.current
  | .SysDisable => p.cpuTracked
  | _ => false

def chargesThread (p : Shape) : Op → Bool
  | .Stop => p.opened.isSome && p.tracked p.current
  | .ThreadUsage thread => p.tracked thread && thread = p.current
  | .ThreadDisable thread => p.tracked thread && thread = p.current
  | _ => false

def chargesCpu (p : Shape) : Op → Bool
  | .Stop => p.opened.isSome && p.cpuTracked
  | .ThreadUsage thread => thread = p.current && p.cpuTracked
  | .ThreadDisable thread => p.tracked thread && thread = p.current && p.cpuTracked
  | .SysDisable => p.opened.isSome && p.cpuTracked
  | _ => false

def moves (p : Shape) : Op → Bool
  | .Start _ => true
  | .Stop => true
  | .ThreadUsage thread => thread = p.current
  | _ => false

def next (p : Shape) (op : Op) : Shape where
  current := match op with
    | .Start thread => thread
    | _ => p.current
  cpuTracked := match op with
    | .SysEnable => true
    | .SysDisable => false
    | _ => p.cpuTracked
  tracked := match op with
    | .ThreadEnable thread => update p.tracked thread true
    | .ThreadDisable thread => update p.tracked thread false
    | _ => p.tracked
  reads := if p.readsClock op then p.reads + 1 else p.reads
  first := match op with
    | .Start _ => p.first.or (some p.reads)
    | _ => p.first
  opened := match op with
    | .Start _ => some p.reads
    | .Stop => none
    | .ThreadUsage thread => if thread = p.current then some p.reads else p.opened
    | _ => p.opened
  cpuFlushed :=
    if p.moves op then none
    else if p.chargesCpu op then p.cpuFlushed.or (some p.reads) else p.cpuFlushed
  threadFlushed :=
    if p.moves op then none
    else if p.chargesThread op then p.threadFlushed.or (some p.reads) else p.threadFlushed

def step (p : Shape) (op : Op) : Option Shape := some (p.next op)

-- A total is charged only after the first start, with usage0 set, and once from it.
structure CountsOnce (p : Shape) (op : Op) : Prop where
  cpu : p.chargesCpu op = true → p.first ≠ none ∧ p.opened ≠ none ∧ p.cpuFlushed = none
  thread : p.chargesThread op = true → p.first ≠ none ∧ p.opened ≠ none ∧ p.threadFlushed = none

end Shape

def bootShape (current : Tid) (cpuTracked : Bool) (tracked : Tid → Bool) : Shape where
  current := current
  cpuTracked := cpuTracked
  tracked := tracked
  reads := 0
  first := none
  opened := none
  cpuFlushed := none
  threadFlushed := none

section Charges

variable (s : State) (thread o : Tid) (cycles : Nat)

@[simp] theorem charge_total (u : CycleStats) : (u.charge cycles).total = (accumulate u.total cycles).2 := by
  simp [CycleStats.charge, CycleStats.lengthen]

@[simp] theorem charge_trackUsage (u : CycleStats) : (u.charge cycles).trackUsage = u.trackUsage := rfl

@[simp] theorem chargeThread_cpu : (s.chargeThread thread cycles).cpu = s.cpu := by
  unfold State.chargeThread
  split <;> rfl

@[simp] theorem chargeThread_reads : (s.chargeThread thread cycles).reads = s.reads := by
  unfold State.chargeThread
  split <;> rfl

@[simp] theorem chargeThread_trackUsage :
    ((s.chargeThread thread cycles).threads o).trackUsage = (s.threads o).trackUsage := by
  unfold State.chargeThread State.setThread
  split
  · by_cases heq : o = thread
    · simp [heq]
    · simp [update_of_ne heq]
  · rfl

theorem chargeThread_total : ((s.chargeThread thread cycles).threads o).total =
      if (s.threads thread).trackUsage = true ∧ o = thread then
        (accumulate (s.threads o).total cycles).2
      else (s.threads o).total := by
  unfold State.chargeThread State.setThread
  by_cases ht : (s.threads thread).trackUsage = true
  · by_cases heq : o = thread
    · simp [ht, heq]
    · simp [ht, heq]
  · simp [ht]

structure ChargesCpu (s after : State) (cycles : Nat) : Prop where
  threads : after.threads = s.threads
  reads : after.reads = s.reads
  usage0 : after.cpu.usage0 = s.cpu.usage0
  current : after.cpu.current = s.cpu.current
  track : after.cpu.usage.trackUsage = s.cpu.usage.trackUsage
  total : after.cpu.usage.total =
    if s.cpu.usage.trackUsage = true then (s.cpu.usage.total + cycles) % U64 else s.cpu.usage.total

theorem chargeCpu_charges : ChargesCpu s (s.chargeCpu cycles) cycles := by
  unfold State.chargeCpu State.setCpu CycleStats.chargeCpu
  split <;> constructor <;> simp_all

theorem chargeCpuStop_charges : ChargesCpu s (s.chargeCpuStop cycles) cycles := by
  unfold State.chargeCpuStop State.setCpu CycleStats.chargeCpu CycleStats.lengthen
    CycleStats.nextWindow
  split
  · split <;> constructor <;> simp_all
  · constructor <;> simp_all

structure Charges (s after : State) (cycles : Nat) : Prop where
  reads : after.reads = s.reads + 1
  current : after.cpu.current = s.cpu.current
  cpuTracked : after.cpu.usage.trackUsage = s.cpu.usage.trackUsage
  tracked : ∀ thread, (after.threads thread).trackUsage = (s.threads thread).trackUsage
  cpuTotal : after.cpu.usage.total =
    if s.cpu.usage.trackUsage = true then (s.cpu.usage.total + cycles) % U64 else s.cpu.usage.total
  total : ∀ thread, (after.threads thread).total =
    if (s.threads s.cpu.current).trackUsage = true ∧ thread = s.cpu.current then
      (accumulate (s.threads thread).total cycles).2
    else (s.threads thread).total

theorem ChargesCpu.charges {s after : State} {cycles : Nat}
    (h : ChargesCpu ({ s with reads := s.reads + 1 }.chargeThread s.cpu.current cycles) after
      cycles) : Charges s after cycles where
  reads := by rw [h.reads, chargeThread_reads]
  current := by rw [h.current, chargeThread_cpu]
  cpuTracked := by rw [h.track, chargeThread_cpu]
  tracked := by
    intro thread
    rw [h.threads, chargeThread_trackUsage]
  cpuTotal := by rw [h.total, chargeThread_cpu]
  total := by
    intro thread
    rw [h.threads, chargeThread_total]

end Charges

def Shape.usage0 (p : Shape) (clock : Nat → Nat) : Nat :=
  match p.opened with
  | some i => clock i % U32
  | none => 0

def Shape.cycles (p : Shape) (clock : Nat → Nat) : Nat :=
  elapsedCycles (clock p.reads % U32) (p.usage0 clock)

structure Agrees (clock : Nat → Nat) (s : State) (p : Shape) : Prop where
  current : s.cpu.current = p.current
  cpuTracked : s.cpu.usage.trackUsage = p.cpuTracked
  tracked : ∀ thread, (s.threads thread).trackUsage = p.tracked thread
  reads : s.reads = p.reads
  usage0 : s.cpu.usage0 = p.usage0 clock

structure Called (clock : Nat → Nat) (s : State) (p : Shape) (op : Op) : Prop where
  agrees : Agrees clock (s.call clock op) (p.next op)
  cpuTotal : (s.call clock op).cpu.usage.total =
    if p.chargesCpu op = true then (s.cpu.usage.total + p.cycles clock) % U64
    else s.cpu.usage.total
  total : ∀ thread, ((s.call clock op).threads thread).total =
    if p.chargesThread op = true ∧ thread = p.current then
      (accumulate (s.threads thread).total (p.cycles clock)).2
    else (s.threads thread).total

section Called

variable {clock : Nat → Nat} {s : State} {p : Shape}

theorem Agrees.cycles (h : Agrees clock s p) : elapsedCycles (s.galeUsageNow clock) s.cpu.usage0 = p.cycles clock := by
  rw [State.galeUsageNow, Shape.cycles, h.reads, h.usage0]

theorem usage0_ne_zero (hc : ∀ i, clock i % U32 ≠ 0) : p.usage0 clock ≠ 0 ↔ p.opened.isSome = true := by
  unfold Shape.usage0
  cases p.opened with
  | none => simp
  | some i => simpa using hc i

theorem called_start (h : Agrees clock s p) (thread : Tid) : Called clock s p (.Start thread) := by
  have hn (u : Tid) : ((s.call clock (.Start thread)).threads u).total =
      (s.threads u).total ∧ ((s.call clock (.Start thread)).threads u).trackUsage =
      (s.threads u).trackUsage := by
    simp only [State.call, State.zSchedUsageStart]
    split
    · by_cases heq : u = thread <;> simp [State.setThread, CycleStats.nextWindow, heq]
    · exact ⟨rfl, rfl⟩
  have hr : (s.call clock (.Start thread)).reads = s.reads + 1 ∧ (s.call clock (.Start thread)).cpu =
      { s.cpu with usage0 := s.galeUsageNow clock, current := thread } := by
    simp only [State.call, State.zSchedUsageStart]
    split <;> exact ⟨rfl, rfl⟩
  refine ⟨⟨?_, ?_, ?_, ?_, ?_⟩, ?_, ?_⟩ <;>
    simp [hr, hn, Shape.next, Shape.readsClock, Shape.usage0, Shape.chargesCpu,
      Shape.chargesThread, State.galeUsageNow, h.cpuTracked, h.tracked, h.reads]

theorem called_stop (hc : ∀ i, clock i % U32 ≠ 0) (h : Agrees clock s p) : Called clock s p .Stop := by
  have hcl : s.call clock .Stop = s.zSchedUsageStop clock := rfl
  by_cases ho : p.opened.isSome = true
  · have ha : stopDecide s.cpu.usage0 = .Accumulate := by
      rw [stopDecide, if_pos]
      rw [h.usage0]
      exact (usage0_ne_zero hc).mpr ho
    simp only [State.zSchedUsageStop, ha, h.cycles] at hcl
    have hch := (chargeCpuStop_charges ({ s with reads := s.reads + 1 }.chargeThread s.cpu.current (p.cycles clock))
      (p.cycles clock)).charges
    generalize State.chargeCpuStop _ _ = after at hcl hch
    refine ⟨⟨?_, ?_, ?_, ?_, ?_⟩, ?_, ?_⟩ <;>
      simp [hcl, hch.current, hch.cpuTracked, hch.tracked, hch.reads,
        hch.cpuTotal, hch.total, Shape.next, Shape.readsClock, Shape.usage0, Shape.chargesCpu,
        Shape.chargesThread, ho, h.current, h.cpuTracked, h.tracked, h.reads]
  · have ha : stopDecide s.cpu.usage0 = .Skip := by
      rw [stopDecide, if_neg]
      rw [h.usage0]
      exact mt (usage0_ne_zero hc).mp ho
    simp only [State.zSchedUsageStop, ha] at hcl
    refine ⟨⟨?_, ?_, ?_, ?_, ?_⟩, ?_, ?_⟩ <;>
      simp [hcl, Shape.next, Shape.readsClock, Shape.usage0, Shape.chargesCpu, Shape.chargesThread,
        ho, h.current, h.cpuTracked, h.tracked, h.reads]

section

variable (h : Agrees clock s p)
include h

theorem called_threadUsage (thread : Tid) : Called clock s p (.ThreadUsage thread) := by
  have hcl : s.call clock (.ThreadUsage thread) = (s.zSchedThreadUsage clock thread).1 := rfl
  by_cases hc : thread = s.cpu.current
  · subst hc
    simp only [State.zSchedThreadUsage, if_true, h.cycles] at hcl
    have hch := (chargeCpu_charges ({ s with reads := s.reads + 1 }.chargeThread s.cpu.current (p.cycles clock))
      (p.cycles clock)).charges
    generalize State.chargeCpu _ _ = after at hcl hch
    refine ⟨⟨?_, ?_, ?_, ?_, ?_⟩, ?_, ?_⟩ <;> rw [hcl] <;>
      simp [hch.current, hch.cpuTracked, hch.tracked, hch.reads,
        hch.cpuTotal, hch.total, Shape.next, Shape.readsClock, Shape.usage0, Shape.chargesCpu,
        Shape.chargesThread, State.galeUsageNow, h.current, h.cpuTracked, h.tracked, h.reads]
  · simp only [State.zSchedThreadUsage, if_neg hc] at hcl
    have ho : ¬ thread = p.current := by rwa [← h.current]
    refine ⟨⟨?_, ?_, ?_, ?_, ?_⟩, ?_, ?_⟩ <;>
      simp [hcl, ho, Shape.next, Shape.readsClock, Shape.usage0, Shape.chargesCpu,
        Shape.chargesThread, h.current, h.cpuTracked, h.tracked, h.reads, h.usage0]

theorem called_threadEnable (thread : Tid) : Called clock s p (.ThreadEnable thread) := by
  have hc : s.call clock (.ThreadEnable thread) = s.kThreadRuntimeStatsEnable thread := rfl
  unfold State.kThreadRuntimeStatsEnable at hc
  have hth (other : Tid) : ((s.call clock (.ThreadEnable thread)).threads other).total =
      (s.threads other).total ∧ ((s.call clock (.ThreadEnable thread)).threads other).trackUsage =
      update p.tracked thread true other := by
    rw [hc]
    by_cases heq : other = thread <;> cases ht : (s.threads thread).trackUsage <;>
      simp [State.setThread, CycleStats.nextWindow, heq, ht, h.tracked]
  have hr : (s.call clock (.ThreadEnable thread)).cpu = s.cpu ∧
      (s.call clock (.ThreadEnable thread)).reads = s.reads := by
    rw [hc]
    cases ht : (s.threads thread).trackUsage <;> simp [State.setThread, ht]
  refine ⟨⟨?_, ?_, ?_, ?_, ?_⟩, ?_, ?_⟩ <;>
    simp [hr, hth, Shape.next, Shape.readsClock, Shape.usage0, Shape.chargesCpu,
      Shape.chargesThread, h.current, h.cpuTracked, h.reads, h.usage0]

theorem called_threadDisable (thread : Tid) : Called clock s p (.ThreadDisable thread) := by
  have hcl : s.call clock (.ThreadDisable thread) = s.kThreadRuntimeStatsDisable clock thread := rfl
  have htr := h.tracked thread
  by_cases ht : (s.threads thread).trackUsage = true
  · by_cases hc : thread = s.cpu.current
    · simp only [State.kThreadRuntimeStatsDisable, if_pos ht, if_pos hc, h.cycles] at hcl
      have hch := chargeCpu_charges ({ s with reads := s.reads + 1 }.setThread thread
        ({ s.threads thread with trackUsage := false }.charge (p.cycles clock))) (p.cycles clock)
      generalize State.chargeCpu _ _ = after at hcl hch
      have hs : thread = p.current := hc.trans h.current
      rw [ht] at htr
      refine ⟨⟨?_, ?_, ?_, ?_, ?_⟩, ?_, ?_⟩
      case refine_3 | refine_7 =>
        intro u
        by_cases heq : u = thread <;>
          simp [hcl, hch.threads, State.setThread, Shape.next, Shape.chargesThread, ← htr, ← hs, heq, h.tracked]
      all_goals simp [hcl, hch.current, hch.track, hch.reads, hch.usage0,
        hch.total, State.setThread, Shape.next, Shape.readsClock, Shape.usage0, Shape.chargesCpu,
        ← htr, ← hs, ← hc, h.cpuTracked, h.reads, h.usage0]
    · simp only [State.kThreadRuntimeStatsDisable, if_pos ht, if_neg hc] at hcl
      have ho : ¬ thread = p.current := by rwa [← h.current]
      refine ⟨⟨?_, ?_, ?_, ?_, ?_⟩, ?_, ?_⟩
      case refine_3 | refine_7 =>
        intro u
        by_cases heq : u = thread <;>
          simp [hcl, State.setThread, Shape.next, Shape.chargesThread, ho, heq, h.tracked]
      all_goals simp [hcl, State.setThread, Shape.next, Shape.readsClock, Shape.usage0,
        Shape.chargesCpu, ho, h.current, h.cpuTracked, h.reads, h.usage0]
  · simp only [State.kThreadRuntimeStatsDisable, if_neg ht] at hcl
    rw [Bool.not_eq_true] at ht
    rw [ht] at htr
    refine ⟨⟨?_, ?_, ?_, ?_, ?_⟩, ?_, ?_⟩ <;>
      simp [hcl, Shape.next, Shape.readsClock, Shape.usage0, Shape.chargesCpu, Shape.chargesThread,
        ← htr, h.current, h.cpuTracked, h.reads, h.usage0]
    intro u
    by_cases heq : u = thread <;> simp [heq, ht, h.tracked]

theorem called_sysEnable : Called clock s p .SysEnable := by
  have hc : s.call clock .SysEnable = s.kSysRuntimeStatsEnable := rfl
  cases ht : s.cpu.usage.trackUsage <;>
    simp only [State.kSysRuntimeStatsEnable, sysEnableDecide, ht, Bool.false_eq_true, if_true, if_false] at hc
  all_goals refine ⟨⟨?_, ?_, ?_, ?_, ?_⟩, ?_, ?_⟩ <;>
    simp [hc, ht, State.setCpu, CycleStats.nextWindow, Shape.next, Shape.readsClock, Shape.usage0,
      Shape.chargesCpu, Shape.chargesThread, h.current, h.tracked, h.reads, h.usage0]

end

theorem called_sysDisable (hc : ∀ i, clock i % U32 ≠ 0) (h : Agrees clock s p) : Called clock s p .SysDisable := by
  have hcl : s.call clock .SysDisable = s.kSysRuntimeStatsDisable clock := rfl
  have htr := h.cpuTracked
  have hop := usage0_ne_zero (p := p) hc
  rw [← h.usage0] at hop
  cases ht : s.cpu.usage.trackUsage with
  | true =>
    simp only [State.kSysRuntimeStatsDisable, sysDisableDecide, ht, Bool.not_true,
      Bool.false_eq_true, if_false, h.cycles] at hcl
    rw [ht] at htr
    by_cases ho : p.opened.isSome = true
    · have hch := chargeCpu_charges { s with reads := s.reads + 1 } (p.cycles clock)
      simp only [if_pos (hop.mpr ho)] at hcl
      generalize State.chargeCpu _ _ = after at hcl hch
      refine ⟨⟨?_, ?_, ?_, ?_, ?_⟩, ?_, ?_⟩ <;>
        simp [hcl, State.setCpu, hch.threads, hch.current, hch.reads, hch.usage0,
          hch.total, ht, ho, ← htr, Shape.next, Shape.readsClock, Shape.usage0,
          Shape.chargesCpu, Shape.chargesThread, h.current, h.tracked, h.reads, h.usage0]
    · simp only [if_neg (mt hop.mp ho)] at hcl
      refine ⟨⟨?_, ?_, ?_, ?_, ?_⟩, ?_, ?_⟩ <;>
        simp [hcl, State.setCpu, ho, ← htr, Shape.next, Shape.readsClock, Shape.usage0,
          Shape.chargesCpu, Shape.chargesThread, h.current, h.tracked, h.reads, h.usage0]
  | false =>
    simp only [State.kSysRuntimeStatsDisable, sysDisableDecide, ht, Bool.not_false, if_true] at hcl
    rw [ht] at htr
    refine ⟨⟨?_, ?_, ?_, ?_, ?_⟩, ?_, ?_⟩ <;>
      simp [hcl, ht, ← htr, Shape.next, Shape.readsClock, Shape.usage0, Shape.chargesCpu,
        Shape.chargesThread, h.current, h.tracked, h.reads, h.usage0]

theorem Agrees.called (hc : ∀ i, clock i % U32 ≠ 0) (h : Agrees clock s p) (op : Op) : Called clock s p op := by
  cases op with
  | Start thread => exact called_start h thread
  | Stop => exact called_stop hc h
  | ThreadUsage thread => exact called_threadUsage h thread
  | ThreadEnable thread => exact called_threadEnable h thread
  | ThreadDisable thread => exact called_threadDisable h thread
  | SysEnable => exact called_sysEnable h
  | SysDisable => exact called_sysDisable hc h

end Called

end Gale.Usage
