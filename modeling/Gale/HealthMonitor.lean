import Mathlib
namespace Gale.HealthMonitor

def MAX_RESTARTS : Nat := 3

def COOLDOWN_QUIET : Nat := 4

inductive HmState where
  | Normal
  | Degraded
  | PartitionFailsafe
  | CrossCoreTrip
  deriving DecidableEq, Repr

inductive Fault where
  | Stale
  | Implausible
  | Diverged
  | BudgetOverrun
  | DeadlineMiss
  | HeartbeatLoss
  | VoteMismatch
  deriving DecidableEq, Repr

structure Obs where
  ageMs : UInt32
  limitMs : UInt32
  value : Int32
  lo : Int32
  hi : Int32
  innovAbs : UInt32
  kSigma : UInt32
  usedUs : UInt32
  budgetUs : UInt32
  latenessUs : UInt32
  missedBeats : UInt32
  s0 : Int32
  s1 : Int32
  s2 : Int32
  voteTol : Int32

def fresh (ageMs limitMs : UInt32) : Bool := ageMs ≤ limitMs

def isPlausible (value lo hi : Int32) : Bool := lo ≤ value && value ≤ hi

def innovationOk (innovAbs kSigma : UInt32) : Bool := innovAbs ≤ kSigma

def budgetOk (usedUs budgetUs : UInt32) : Bool := usedUs ≤ budgetUs

def deadlineOk (latenessUs : UInt32) : Bool := latenessUs = 0

def heartbeatOk (missedBeats : UInt32) : Bool := missedBeats = 0

-- The source widens to i64, where none of the differences overflows.
def voteOk (s0 s1 s2 tol : Int32) : Bool :=
  let t := tol.toInt
  let d01 := s0.toInt - s1.toInt
  let d02 := s0.toInt - s2.toInt
  let d12 := s1.toInt - s2.toInt
  let a01 : Bool := (if d01 ≥ 0 then d01 else -d01) ≤ t
  let a02 : Bool := (if d02 ≥ 0 then d02 else -d02) ≤ t
  let a12 : Bool := (if d12 ≥ 0 then d12 else -d12) ≤ t
  (a01 && a02) || (a01 && a12) || (a02 && a12)

def allClear (obs : Obs) : Bool :=
  fresh obs.ageMs obs.limitMs
    && isPlausible obs.value obs.lo obs.hi
    && innovationOk obs.innovAbs obs.kSigma
    && budgetOk obs.usedUs obs.budgetUs
    && deadlineOk obs.latenessUs
    && heartbeatOk obs.missedBeats
    && voteOk obs.s0 obs.s1 obs.s2 obs.voteTol

-- The counters stay at or below MAX_RESTARTS and COOLDOWN_QUIET.
structure Hm where
  state : HmState
  cause : Fault
  restartsRemaining : Nat
  quietStreak : Nat

namespace Hm

def init : Hm where
  state := .Normal
  cause := .HeartbeatLoss
  restartsRemaining := MAX_RESTARTS
  quietStreak := 0

def onFault (hm : Hm) (f : Fault) : Hm :=
  match hm.state with
  | .Normal =>
    { hm with
      cause := f
      quietStreak := 0
      state := if hm.restartsRemaining ≥ 1 then .Degraded else .PartitionFailsafe }
  | .Degraded =>
    if hm.restartsRemaining ≤ 1 then { hm with state := .PartitionFailsafe, restartsRemaining := 0 }
    else { hm with restartsRemaining := hm.restartsRemaining - 1 }
  | .PartitionFailsafe =>
    if f = .HeartbeatLoss ∨ f = .BudgetOverrun then
      { hm with state := .CrossCoreTrip, restartsRemaining := 0 }
    else hm
  | .CrossCoreTrip => hm

def tryRestart (hm : Hm) (obs : Obs) : Hm × Bool :=
  if hm.state = .Degraded ∧ hm.restartsRemaining ≥ 1 then
    if allClear obs then
      ({ hm with
        state := .Normal
        restartsRemaining := hm.restartsRemaining - 1
        quietStreak := 0 }, true)
    else (hm, false)
  else (hm, false)

def onQuiet (hm : Hm) (obs : Obs) : Hm :=
  if hm.state = .Normal then
    if allClear obs then
      if hm.quietStreak + 1 ≥ COOLDOWN_QUIET then
        { hm with restartsRemaining := MAX_RESTARTS, quietStreak := 0 }
      else { hm with quietStreak := hm.quietStreak + 1 }
    else { hm with quietStreak := 0 }
  else hm

def isFailsafeLatched (hm : Hm) : Bool :=
  hm.state = .PartitionFailsafe || hm.state = .CrossCoreTrip

end Hm

def Agree (a b tol : Int32) : Prop := ((a.toInt - b.toInt).natAbs : Int) ≤ tol.toInt

instance (a b tol : Int32) : Decidable (Agree a b tol) := inferInstanceAs (Decidable (_ ≤ _))

theorem Agree.symm {a b tol : Int32} (h : Agree a b tol) : Agree b a tol := by
  unfold Agree at h ⊢
  omega

theorem agree_comm {a b tol : Int32} : Agree a b tol ↔ Agree b a tol := ⟨Agree.symm, Agree.symm⟩

theorem agree_iff (a b tol : Int32) :
    (if a.toInt - b.toInt ≥ 0 then a.toInt - b.toInt else -(a.toInt - b.toInt)) ≤ tol.toInt ↔ Agree a b tol := by
  unfold Agree
  split
  · omega
  · omega

theorem voteOk_iff (s0 s1 s2 tol : Int32) : voteOk s0 s1 s2 tol = true ↔
      Agree s0 s1 tol ∧ Agree s0 s2 tol ∨ Agree s0 s1 tol ∧ Agree s1 s2 tol ∨ Agree s0 s2 tol ∧ Agree s1 s2 tol := by
  simp only [voteOk, agree_iff, Bool.or_eq_true, Bool.and_eq_true, decide_eq_true_eq, or_assoc]

inductive Placed (a b third : Int32) : Int32 → Int32 → Int32 → Prop
  | first : Placed a b third third a b
  | second : Placed a b third a third b
  | last : Placed a b third a b third

theorem voteOk_placed {a b third s0 s1 s2 tol : Int32} (hp : Placed a b third s0 s1 s2) (ha : Agree a b tol) :
    voteOk s0 s1 s2 tol = true ↔ Agree a third tol ∨ Agree b third tol := by
  rw [voteOk_iff]
  have hf : Agree third a tol ↔ Agree a third tol := agree_comm
  have hs : Agree third b tol ↔ Agree b third tol := agree_comm
  cases hp with
  | first | second | last => grind

def otherGates (obs : Obs) : Bool :=
  fresh obs.ageMs obs.limitMs
    && isPlausible obs.value obs.lo obs.hi
    && innovationOk obs.innovAbs obs.kSigma
    && budgetOk obs.usedUs obs.budgetUs
    && deadlineOk obs.latenessUs
    && heartbeatOk obs.missedBeats

theorem allClear_eq (obs : Obs) : allClear obs = (otherGates obs && voteOk obs.s0 obs.s1 obs.s2 obs.voteTol) := rfl

end Gale.HealthMonitor
