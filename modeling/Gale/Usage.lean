import Gale.Kernel
import Gale.Lib.Checked

namespace Gale.Usage

open Lib

def U32 : Nat := 4294967296
def U64 : Nat := 18446744073709551616
def U64_MAX : Nat := 18446744073709551615

-- From src/usage.rs.
inductive SysTrackDecision where
  | NoOp
  | Apply

def sysEnableDecide (currentTracking : Bool) : SysTrackDecision :=
  if currentTracking then .NoOp else .Apply

def sysDisableDecide (currentTracking : Bool) : SysTrackDecision :=
  if !currentTracking then .NoOp else .Apply

inductive StartDecision where
  | RecordStart
  | RecordOnly

def startDecide (trackUsage : Bool) : StartDecision :=
  if trackUsage then .RecordStart else .RecordOnly

inductive StopDecision where
  | Accumulate
  | Skip

def stopDecide (usage0 : Nat) : StopDecision := if usage0 ≠ 0 then .Accumulate else .Skip

def averageCycles (totalCycles numWindows : Nat) : Nat :=
  if numWindows = 0 then 0 else totalCycles / numWindows

-- wrapping_sub on u32
def elapsedCycles (now usage0 : Nat) : Nat := (now + U32 - usage0) % U32

def accumulate (totalCycles cycles : Nat) : Int × Nat :=
  match checkedAdd U64_MAX totalCycles cycles with
  | some newTotal => (OK, newTotal)
  | none => (EOVERFLOW, totalCycles)

-- From zephyr/gale_usage.c, with CONFIG_SCHED_THREAD_USAGE_ANALYSIS and
-- CONFIG_SCHED_THREAD_USAGE_ALL, on one CPU.
structure CycleStats where
  trackUsage : Bool
  total : Nat
  current : Nat
  longest : Nat
  numWindows : Nat

namespace CycleStats

def lengthen (u : CycleStats) (cycles : Nat) : CycleStats :=
  let current := (u.current + cycles) % U64
  { u with
    current := current
    longest := if u.longest < current then current else u.longest }

def charge (u : CycleStats) (cycles : Nat) : CycleStats :=
  { u with total := (accumulate u.total cycles).2 }.lengthen cycles

def chargeCpu (u : CycleStats) (cycles : Nat) : CycleStats :=
  { u with total := (u.total + cycles) % U64 }

def nextWindow (u : CycleStats) : CycleStats :=
  { u with
    numWindows := (u.numWindows + 1) % U32
    current := 0 }

end CycleStats

structure Cpu where
  usage0 : Nat
  current : Tid
  idleThread : Tid
  usage : CycleStats

-- reads is the number of readings of gale_usage_now so far.
structure State where
  cpu : Cpu
  threads : Tid → CycleStats
  reads : Nat

structure RuntimeStats where
  executionCycles : Nat
  totalCycles : Nat
  currentCycles : Nat
  peakCycles : Nat
  averageCycles : Nat
  idleCycles : Nat

namespace State

-- clock i is the time of the i-th reading of gale_usage_now.
variable (clock : Nat → Nat)

def galeUsageNow (s : State) : Nat := clock s.reads % U32

def setThread (s : State) (thread : Tid) (u : CycleStats) : State :=
  { s with threads := Function.update s.threads thread u }

def setCpu (s : State) (u : CycleStats) : State := { s with cpu := { s.cpu with usage := u } }

def zSchedUsageStart (s : State) (thread : Tid) : State :=
  let now := s.galeUsageNow clock
  let s := { s with reads := s.reads + 1, cpu := { s.cpu with usage0 := now } }
  match startDecide (s.threads thread).trackUsage with
  | .RecordStart => s.setThread thread (s.threads thread).nextWindow
  | .RecordOnly => s

-- The usage of a thread or of the CPU is charged if it is tracked.
def chargeThread (s : State) (thread : Tid) (cycles : Nat) : State :=
  if (s.threads thread).trackUsage then s.setThread thread ((s.threads thread).charge cycles) else s

def chargeCpu (s : State) (cycles : Nat) : State :=
  if s.cpu.usage.trackUsage then s.setCpu (s.cpu.usage.chargeCpu cycles) else s

-- z_sched_usage_stop also keeps the CPU's windows of work between two idle ones.
def chargeCpuStop (s : State) (cycles : Nat) : State :=
  if s.cpu.usage.trackUsage then
    let u := s.cpu.usage.chargeCpu cycles
    s.setCpu (if s.cpu.current ≠ s.cpu.idleThread then u.lengthen cycles else u.nextWindow)
  else s

def zSchedUsageStop (s : State) : State :=
  match stopDecide s.cpu.usage0 with
  | .Accumulate =>
    let cycles := elapsedCycles (s.galeUsageNow clock) s.cpu.usage0
    let s := { s with reads := s.reads + 1 }
    let s := (s.chargeThread s.cpu.current cycles).chargeCpuStop cycles
    { s with cpu := { s.cpu with usage0 := 0 } }
  | .Skip => { s with cpu := { s.cpu with usage0 := 0 } }

def stats (s : State) (thread : Tid) : RuntimeStats where
  executionCycles := (s.threads thread).total
  totalCycles := (s.threads thread).total
  currentCycles := (s.threads thread).current
  peakCycles := (s.threads thread).longest
  averageCycles := averageCycles (s.threads thread).total (s.threads thread).numWindows
  idleCycles := 0

def zSchedThreadUsage (s : State) (thread : Tid) : State × RuntimeStats :=
  let s :=
    if thread = s.cpu.current then
      let now := s.galeUsageNow clock
      let cycles := elapsedCycles now s.cpu.usage0
      let s := { s with reads := s.reads + 1 }
      let s := (s.chargeThread thread cycles).chargeCpu cycles
      { s with cpu := { s.cpu with usage0 := now } }
    else s
  (s, s.stats thread)

def kThreadRuntimeStatsEnable (s : State) (thread : Tid) : State :=
  let u := s.threads thread
  if !u.trackUsage then s.setThread thread { u with trackUsage := true }.nextWindow else s

def kThreadRuntimeStatsDisable (s : State) (thread : Tid) : State :=
  let u := s.threads thread
  if u.trackUsage then
    let u := { u with trackUsage := false }
    if thread = s.cpu.current then
      let cycles := elapsedCycles (s.galeUsageNow clock) s.cpu.usage0
      let s := { s with reads := s.reads + 1 }
      (s.setThread thread (u.charge cycles)).chargeCpu cycles
    else s.setThread thread u
  else s

def kSysRuntimeStatsEnable (s : State) : State :=
  match sysEnableDecide s.cpu.usage.trackUsage with
  | .NoOp => s
  | .Apply => s.setCpu { s.cpu.usage with trackUsage := true }.nextWindow

def kSysRuntimeStatsDisable (s : State) : State :=
  match sysDisableDecide s.cpu.usage.trackUsage with
  | .NoOp => s
  | .Apply =>
    let now := s.galeUsageNow clock
    let s := { s with reads := s.reads + 1 }
    let s := if s.cpu.usage0 ≠ 0 then s.chargeCpu (elapsedCycles now s.cpu.usage0) else s
    s.setCpu { s.cpu.usage with trackUsage := false }

end State

inductive Op where
  | Start (thread : Tid)
  | Stop
  | ThreadUsage (thread : Tid)
  | ThreadEnable (thread : Tid)
  | ThreadDisable (thread : Tid)
  | SysEnable
  | SysDisable

-- The scheduler makes the thread current that it starts.
def State.call (clock : Nat → Nat) (s : State) : Op → State
  | .Start thread =>
    let s := s.zSchedUsageStart clock thread
    { s with cpu := { s.cpu with current := thread } }
  | .Stop => s.zSchedUsageStop clock
  | .ThreadUsage thread => (s.zSchedThreadUsage clock thread).1
  | .ThreadEnable thread => s.kThreadRuntimeStatsEnable thread
  | .ThreadDisable thread => s.kThreadRuntimeStatsDisable clock thread
  | .SysEnable => s.kSysRuntimeStatsEnable
  | .SysDisable => s.kSysRuntimeStatsDisable clock

-- A run, with the time of the first start and how long each thread has been current,
-- both up to the last reading.
structure History where
  state : State
  first : Option Nat
  ran : Tid → Nat

namespace History

variable (clock : Nat → Nat)

def last (h : History) : Nat := clock (h.state.reads - 1)

def elapsed (h : History) : Nat :=
  match h.first with
  | some first => h.last clock - first
  | none => 0

def firstAfter (h : History) : Op → Option Nat
  | .Start _ => h.first.or (some (clock h.state.reads))
  | _ => h.first

def step (h : History) (op : Op) : Option History :=
  let next := h.state.call clock op
  let passed := clock (next.reads - 1) - h.last clock
  some
    { state := next
      first := h.firstAfter clock op
      ran := Function.update h.ran h.state.cpu.current (h.ran h.state.cpu.current + passed) }

end History

def boot (current idleThread : Tid) (cpuTracked : Bool) (tracked : Tid → Bool) : History where
  state :=
    { cpu :=
        { usage0 := 0
          current := current
          idleThread := idleThread
          usage := ⟨cpuTracked, 0, 0, 0, 0⟩ }
      threads := fun thread => ⟨tracked thread, 0, 0, 0, 0⟩
      reads := 0 }
  first := none
  ran := fun _ => 0

end Gale.Usage
