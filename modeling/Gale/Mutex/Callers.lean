import Gale.Mutex.Hold
import Gale.Lib.Run
import Gale.Lib.WaitQueue

namespace Gale.Mutex

open Function Lib

namespace State

variable (policy : (Tid → Int) → Policy Tid)

def adjustThreadPrio (m : State) (thread : Tid) (newPrio : Int) : State :=
  if m.prio thread ≠ newPrio then { m with prio := update m.prio thread newPrio } else m

-- z_impl_k_mutex_unlock of wasm/mutex_unlock_shim.c. Unlike the one in C it
-- restores the priority whether or not the priority protocol is compiled in.
def unlockShim (m : State) (current : Tid) : State × Int × Option Tid :=
  let d := kMutexUnlockDecide m.lockCount m.owner.isNone (m.owner = some current)
  match d.action with
  | .Error => (m, d.ret, none)
  | .Released => ({ m with lockCount := d.newLockCount }, 0, none)
  | .Unlocked =>
    let m := m.adjustThreadPrio current m.ownerOrigPrio
    match (policy m.prio).take m.waitQ with
    | (some newOwner, rest) =>
      ({ m with
        owner := some newOwner
        waitQ := rest
        ownerOrigPrio := m.prio newOwner
        lockCount := 1 }, 0, some newOwner)
    | (none, rest) => ({ m with owner := none, waitQ := rest, lockCount := 0 }, 0, none)

theorem unlockShim_eq {cfg : Config} (hi : cfg.inherits = true) (m : State)
    (current : Tid) : m.unlockShim policy current = m.unlock cfg policy current := by
  by_cases how : m.owner = some current
  · have ha : m.adjustThreadPrio current m.ownerOrigPrio = m.adjustOwnerPrio m.ownerOrigPrio := by
      simp [adjustThreadPrio, adjustOwnerPrio, how]
    simp only [unlock, ← ha, hi, if_true]
    rfl
  · cases ho : m.owner with
    | none => simp [unlockShim, unlock, kMutexUnlockDecide, unlockDecide, ho]
    | some owner =>
      have hne : owner ≠ current := fun he => how (he ▸ ho)
      simp [unlockShim, unlock, kMutexUnlockDecide, unlockDecide, ho, hne]

theorem unlock_ret (cfg : Config) (m : State) (current : Tid) :
    (m.unlock cfg policy current).2.1 = 0 ↔ m.owner = some current := by
  by_cases how : m.owner = some current
  · refine ⟨fun _ => how, fun _ => ?_⟩
    by_cases hc : 1 < m.lockCount
    · simp [unlock, kMutexUnlockDecide, unlockDecide, how, hc]
    · have hk : unlockDecide m.lockCount false true = .FullyUnlocked := by
        simp [unlockDecide, hc]
      simp only [unlock, kMutexUnlockDecide, how, Option.isNone_some, decide_true, hk]
      split
      · rfl
      · rfl
  · refine ⟨fun hr => ?_, fun h => absurd h how⟩
    cases ho : m.owner with
    | none => simp [unlock, kMutexUnlockDecide, unlockDecide, ho, EINVAL] at hr
    | some owner =>
      have hne : owner ≠ current := fun he => how (he ▸ ho)
      simp [unlock, kMutexUnlockDecide, unlockDecide, ho, hne, EPERM] at hr

end State

-- Which z_impl_k_mutex_unlock is linked in: the one of gale_mutex.c, or the wasm
-- object under CONFIG_GALE_WASM_LTO_MUTEX.
inductive Build where
  | Native
  | Wasm

def Build.unlock (build : Build) (cfg : Config) (policy : (Tid → Int) → Policy Tid) (m : State)
    (current : Tid) : State × Int × Option Tid :=
  match build with
  | .Native => m.unlock cfg policy current
  | .Wasm => m.unlockShim policy current

theorem Build.unlock_eq (build : Build) (cfg : Config) (policy : (Tid → Int) → Policy Tid) :
    ∃ cfg' : Config, ∀ m current, build.unlock cfg policy m current = m.unlock cfg' policy current := by
  cases build with
  | Native => exact ⟨cfg, fun _ _ => rfl⟩
  | Wasm => exact ⟨⟨0, 1⟩, fun m current => m.unlockShim_eq policy rfl current⟩

-- Where a thread stands: outside the calls, on the wait queue, or off it with
-- the result of z_pend_curr and the rest of k_mutex_lock still to run.
inductive Pc where
  | Running
  | Pended (timeout : Timeout)
  | Woken (ret : Int)
  deriving DecidableEq, Repr

structure Callers where
  mutex : State
  pc : Tid → Pc
  locked : Tid → Nat
  unlocked : Tid → Nat

inductive Op where
  | Lock (thread : Tid) (timeout : Timeout)
  | Unlock (thread : Tid)
  | TimeOut (thread : Tid)
  | Resume (thread : Tid)

def count (calls : Tid → Nat) (thread : Tid) (ret : Int) : Tid → Nat :=
  if ret = 0 then update calls thread (calls thread + 1) else calls

namespace Callers

variable (cfg : Config) (policy : (Tid → Int) → Policy Tid) (build : Build)

def start (prio : Tid → Int) : Callers where
  mutex := init prio
  pc := fun _ => .Running
  locked := fun _ => 0
  unlocked := fun _ => 0

def lock (s : Callers) (thread : Tid) (timeout : Timeout) : Callers :=
  let (mutex, result) := s.mutex.lock cfg thread timeout
  match result with
  | some ret => { s with mutex, locked := count s.locked thread ret }
  | none => { s with mutex, pc := update s.pc thread (.Pended timeout) }

def unlock (s : Callers) (thread : Tid) : Callers :=
  let (mutex, ret, newOwner) := build.unlock cfg policy s.mutex thread
  { s with
    mutex
    pc := match newOwner with
      | some waiter => update s.pc waiter (.Woken 0)
      | none => s.pc
    unlocked := count s.unlocked thread ret }

def timeOut (s : Callers) (thread : Tid) : Callers :=
  { s with
    mutex := s.mutex.timeOut thread
    pc := update s.pc thread (.Woken EAGAIN) }

def resume (s : Callers) (thread : Tid) (ret : Int) : Callers :=
  { s with
    mutex := if ret = 0 then s.mutex else s.mutex.lockTimedOut cfg policy
    pc := update s.pc thread .Running
    locked := count s.locked thread ret }

def step (s : Callers) : Op → Option Callers
  | .Lock thread timeout =>
    if s.pc thread = .Running then some (s.lock cfg thread timeout) else none
  | .Unlock thread =>
    if s.pc thread = .Running then some (s.unlock cfg policy build thread) else none
  | .TimeOut thread =>
    match s.pc thread with
    | .Pended timeout => if timeout ≠ K_FOREVER then some (s.timeOut thread) else none
    | _ => none
  | .Resume thread =>
    match s.pc thread with
    | .Woken ret => some (s.resume cfg policy thread ret)
    | _ => none

variable {cfg policy build} {s next : Callers} {op : Op}

theorem step_cases (hs : s.step cfg policy build op = some next) :
    (∃ t timeout, op = .Lock t timeout ∧ s.pc t = .Running ∧
      next = s.lock cfg t timeout) ∨
    (∃ t, op = .Unlock t ∧ s.pc t = .Running ∧
      next = s.unlock cfg policy build t) ∨
    (∃ t timeout, op = .TimeOut t ∧ s.pc t = .Pended timeout ∧
      next = s.timeOut t) ∨
    ∃ t ret, op = .Resume t ∧ s.pc t = .Woken ret ∧
      next = s.resume cfg policy t ret := by
  cases op with
  | Lock t timeout =>
    obtain ⟨hpc, hn⟩ := Option.ite_none_right_eq_some.mp hs
    exact .inl ⟨t, timeout, rfl, hpc, (Option.some.inj hn).symm⟩
  | Unlock t =>
    obtain ⟨hpc, hn⟩ := Option.ite_none_right_eq_some.mp hs
    exact .inr (.inl ⟨t, rfl, hpc, (Option.some.inj hn).symm⟩)
  | TimeOut t =>
    simp only [step] at hs
    split at hs
    · next timeout hpc =>
        obtain ⟨_, hn⟩ := Option.ite_none_right_eq_some.mp hs
        exact .inr (.inr (.inl ⟨t, timeout, rfl, hpc, (Option.some.inj hn).symm⟩))
    · cases hs
  | Resume t =>
    simp only [step] at hs
    split at hs
    · next ret hpc =>
        exact .inr (.inr (.inr ⟨t, ret, rfl, hpc, (Option.some.inj hs).symm⟩))
    · cases hs

-- The shim restores a priority that was only saved if the protocol is compiled in.
theorem builds_agree_iff (cfg : Config) (policy : (Tid → Int) → Policy Tid) : (∀ prio ops,
      run (step cfg policy .Wasm) (start prio) ops = run (step cfg policy .Native) (start prio) ops) ↔
      cfg.inherits = true := by
  constructor
  · intro h
    by_contra hi
    have hr := congrArg (Option.map (·.mutex.prio 0)) (h (fun _ => 1) [.Lock 0 K_FOREVER, .Unlock 0])
    have ht (p : Policy Tid) : p.take [] = (none, []) := by
      obtain ⟨-, ht⟩ | ⟨_, hm, -⟩ := p.take_cases []
      · exact ht
      · cases hm
    simp [run, step, start, init, lock, State.lock, kMutexLockDecide, lockDecide, unlock, Build.unlock,
      State.unlock, State.unlockShim, kMutexUnlockDecide, unlockDecide, State.adjustThreadPrio, hi, ht] at hr
  · intro hi prio ops
    have hs : step cfg policy .Wasm = step cfg policy .Native := by
      funext s op
      cases op with
      | Unlock thread => simp only [step, unlock, Build.unlock, State.unlockShim_eq policy hi]
      | Lock thread timeout | TimeOut thread | Resume thread => rfl
    rw [hs]

end Callers

end Gale.Mutex
