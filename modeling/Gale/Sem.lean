import Gale.Kernel

namespace Gale.Sem

open Lib

-- From src/sem.rs.

inductive GiveDecision where
  | WakeThread
  | Increment
  | Saturated

inductive TakeDecision where
  | Acquired
  | WouldBlock
  | Pend

def giveDecide (count limit : Nat) (hasWaiter : Bool) : GiveDecision :=
  if hasWaiter then .WakeThread else if count < limit then .Increment else .Saturated

def takeDecide (count : Nat) (isNoWait : Bool) : TakeDecision :=
  if count > 0 then .Acquired else if isNoWait then .WouldBlock else .Pend

-- From ffi/src/lib.rs.

inductive GiveAction where
  | Increment
  | Wake

structure GaleSemGiveDecision where
  action : GiveAction
  newCount : Nat

def galeKSemGiveDecide (count limit : Nat) (hasWaiter : Bool) : GaleSemGiveDecision :=
  match giveDecide count limit hasWaiter with
  | .WakeThread => ⟨.Wake, count⟩
  | .Increment => ⟨.Increment, count + 1⟩
  | .Saturated => ⟨.Increment, count⟩

structure GaleSemTakeDecision where
  action : TakeDecision
  newCount : Nat

def galeKSemTakeDecide (count : Nat) (isNoWait : Bool) : GaleSemTakeDecision :=
  match takeDecide count isNoWait with
  | .Acquired => ⟨.Acquired, count - 1⟩
  | .WouldBlock => ⟨.WouldBlock, 0⟩
  | .Pend => ⟨.Pend, 0⟩

def galeSemCountInit (initialCount limit : Nat) : Int :=
  if limit = 0 ∨ initialCount > limit then EINVAL else OK

-- From zephyr/gale_sem.c. CONFIG_GALE_WASM_LTO_SEM replaces k_sem_give by the
-- one of zephyr/wasm/sem_give_shim.c.
structure Config where
  wasmLtoSem : Bool

inductive Pc where
  | Running
  | Pended (timeout : Timeout)
  | Woken (ret : Int)
  deriving DecidableEq, Repr

structure State where
  count : Nat
  limit : Nat
  waitQ : List Tid
  prio : Tid → Int
  pc : Tid → Pc

def kSemInit (prio : Tid → Int) (initialCount limit : Nat) : Except Int State :=
  if galeSemCountInit initialCount limit ≠ 0 then .error EINVAL
  else .ok
    { count := initialCount
      limit := limit
      waitQ := []
      prio := prio
      pc := fun _ => .Running }

namespace State

variable (policy : (Tid → Int) → Policy Tid)

def zUnpendFirstThread (s : State) : Option Tid × State :=
  let taken := (policy s.prio).take s.waitQ
  (taken.1, { s with waitQ := taken.2 })

def ready (s : State) (thread : Tid) (ret : Int) : State :=
  { s with pc := Function.update s.pc thread (.Woken ret) }

-- The common part of the two k_sem_give, with whether it woke a thread.
def giveLocked (s : State) : State × Bool :=
  let (thread, s) := s.zUnpendFirstThread policy
  let d := galeKSemGiveDecide s.count s.limit thread.isSome
  match d.action, thread with
  | .Wake, some thread => (s.ready thread 0, true)
  | .Wake, none => (s, true)
  | .Increment, _ => ({ s with count := d.newCount }, false)

-- With whether it reschedules; pollEvents is what handle_poll_events returns.
def kSemGive (s : State) (pollEvents : Bool) : State × Bool :=
  let (s, woken) := s.giveLocked policy
  (s, if woken then true else pollEvents)

-- From zephyr/wasm/sem_give_shim.c.
def kSemGiveShim (s : State) : State × Bool := ((s.giveLocked policy).1, true)

def kSemTake (s : State) (current : Tid) (inIsr : Bool) (timeout : Timeout) : State × Option Int :=
  if inIsr && !timeout.isNoWait then (s, some ENOTSUP)
  else
    let d := galeKSemTakeDecide s.count timeout.isNoWait
    match d.action with
    | .Acquired => ({ s with count := d.newCount }, some 0)
    | .WouldBlock => (s, some EBUSY)
    | .Pend =>
      ({ s with
          waitQ := s.waitQ ++ [current]
          pc := Function.update s.pc current (.Pended timeout) }, none)

-- The loop of k_sem_reset, up to the turn that finds no thread.
def resetLoop : Nat → State → State
  | 0, s => s
  | turns + 1, s =>
    match s.zUnpendFirstThread policy with
    | (some thread, s) => resetLoop turns (s.ready thread EAGAIN)
    | (none, s) => s

def kSemReset (s : State) : State :=
  { s.resetLoop policy (s.waitQ.length + 1) with count := 0 }

def timeOut (s : State) (thread : Tid) : State :=
  { s.ready thread EAGAIN with waitQ := s.waitQ.erase thread }

end State

theorem galeKSemGiveDecide_waiter (count lim : Nat) : galeKSemGiveDecide count lim true = ⟨.Wake, count⟩ := rfl

theorem galeKSemGiveDecide_none (count lim : Nat) : galeKSemGiveDecide count lim false =
      ⟨.Increment, if count < lim then count + 1 else count⟩ := by
  by_cases h : count < lim <;> simp [galeKSemGiveDecide, giveDecide, h]

namespace State

variable (pol : (Tid → Int) → Policy Tid)

theorem giveLocked_cases (s : State) : (s.waitQ = [] ∧ (s.giveLocked pol).1 =
      { s with count := if s.count < s.limit then s.count + 1 else s.count }) ∨
    ∃ t ∈ s.waitQ, (pol s.prio).best s.waitQ = some t ∧
      (s.giveLocked pol).1 = { s.ready t 0 with waitQ := s.waitQ.erase t } := by
  rcases (pol s.prio).take_cases s.waitQ with ⟨hn, ht⟩ | ⟨t, hm, ht⟩
  · left
    refine ⟨hn, ?_⟩
    simp only [giveLocked, zUnpendFirstThread, ht, Option.isSome_none, galeKSemGiveDecide_none]
    rw [hn]
  · right
    refine ⟨t, hm, (pol s.prio).best_of_take (by rw [ht]), ?_⟩
    simp only [giveLocked, zUnpendFirstThread, ht, Option.isSome_some, galeKSemGiveDecide_waiter]
    rfl

theorem kSemTake_cases (s : State) (current : Tid) (isr : Bool) (timeout : Timeout) :
    (0 < s.count ∧ s.kSemTake current isr timeout = ({ s with count := s.count - 1 }, some 0)) ∨
    (∃ ret, ret ≠ 0 ∧ s.kSemTake current isr timeout = (s, some ret)) ∨
    (s.count = 0 ∧ s.kSemTake current isr timeout = ({ s with
          waitQ := s.waitQ ++ [current]
          pc := Function.update s.pc current (.Pended timeout) }, none)) := by
  unfold kSemTake
  split
  · exact .inr (.inl ⟨ENOTSUP, by decide, rfl⟩)
  · by_cases hp : 0 < s.count
    · left
      exact ⟨hp, by simp [galeKSemTakeDecide, takeDecide, hp]⟩
    · right
      have hz : s.count = 0 := by omega
      cases timeout.isNoWait with
      | true => exact .inl ⟨EBUSY, by decide, by simp [galeKSemTakeDecide, takeDecide, hz]⟩
      | false => exact .inr ⟨hz, by simp [galeKSemTakeDecide, takeDecide, hz]⟩

theorem resetLoop_eq (s : State) {turns : Nat} (htr : s.waitQ.length < turns) : s.resetLoop pol turns = { s with
        waitQ := []
        pc := fun t => if t ∈ s.waitQ then .Woken EAGAIN else s.pc t } := by
  induction turns generalizing s with
  | zero => omega
  | succ turns ih =>
    rcases (pol s.prio).take_cases s.waitQ with ⟨hn, htk⟩ | ⟨first, hm, htk⟩
    · simp only [resetLoop, zUnpendFirstThread, htk]
      simp [hn]
    · have hl := List.length_erase_of_mem hm
      have hr := ih { s.ready first EAGAIN with waitQ := s.waitQ.erase first } (by
        have := List.length_pos_of_mem hm
        simp only
        omega)
      simp only [resetLoop, zUnpendFirstThread, htk]
      refine hr.trans ?_
      simp only [ready, mk.injEq, true_and]
      funext t
      by_cases ht : t = first
      · subst ht
        simp [hm]
      · simp [ht, List.mem_erase_of_ne ht]

theorem kSemReset_eq (s : State) : s.kSemReset pol = { s with
        count := 0
        waitQ := []
        pc := fun t => if t ∈ s.waitQ then .Woken EAGAIN else s.pc t } := by
  rw [kSemReset, s.resetLoop_eq pol (Nat.lt_succ_self _)]

end State

end Gale.Sem
