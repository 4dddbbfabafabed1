import Gale.Mutex

namespace Gale.Mutex.State

open Lib

variable (cfg : Config) (pol : (Tid → Int) → Policy Tid)

structure SameHold (m m' : State) : Prop where
  owner : m'.owner = m.owner
  lockCount : m'.lockCount = m.lockCount
  waitQ : m'.waitQ = m.waitQ

variable (m : State)

theorem SameHold.refl : m.SameHold m := ⟨rfl, rfl, rfl⟩

theorem adjustOwnerPrio_sameHold (np : Int) : m.SameHold (m.adjustOwnerPrio np) := by
  unfold adjustOwnerPrio
  split
  · split
    · exact ⟨rfl, rfl, rfl⟩
    · exact .refl m
  · exact .refl m

theorem inherit_sameHold (current : Tid) : m.SameHold (m.inherit cfg current) := by
  unfold inherit
  split
  · dsimp only
    split
    · exact adjustOwnerPrio_sameHold _ _
    · exact .refl m
  · exact .refl m

theorem lockTimedOut_sameHold : m.SameHold (m.lockTimedOut cfg pol) := by
  unfold lockTimedOut
  split
  · split
    · exact adjustOwnerPrio_sameHold _ _
    · exact adjustOwnerPrio_sameHold _ _
  · exact .refl m

-- The outcomes of k_mutex_lock: a free mutex is taken, an own one is taken
-- once more if the count allows, and someone else's is refused or waited for.
inductive LockOutcome (m : State) (current : Tid) (timeout : Timeout) (m' : State)
    (result : Option Int) : Prop where
  | Free (hfree : m.owner = none) (howner : m'.owner = some current) (hcount : m'.lockCount = 1)
      (hwaitQ : m'.waitQ = m.waitQ) (hresult : result = some 0)
  | Again (hown : m.owner = some current) (hroom : m.lockCount < U32_MAX)
      (howner : m'.owner = some current) (hcount : m'.lockCount = m.lockCount + 1)
      (hwaitQ : m'.waitQ = m.waitQ) (hresult : result = some 0)
  | Overflow (hown : m.owner = some current) (hfull : U32_MAX ≤ m.lockCount) (hsame : m' = m)
      (hresult : result = some EINVAL)
  | Busy (owner : Tid) (hother : m.owner = some owner) (hne : owner ≠ current)
      (htimeout : timeout = K_NO_WAIT) (hsame : m' = m) (hresult : result = some EBUSY)
  | Pended (owner : Tid) (hother : m.owner = some owner) (hne : owner ≠ current)
      (htimeout : timeout ≠ K_NO_WAIT) (howner : m'.owner = some owner)
      (hcount : m'.lockCount = m.lockCount) (hwaitQ : m'.waitQ = m.waitQ ++ [current])
      (hresult : result = none)

theorem lock_outcome (current : Tid) (timeout : Timeout) : m.LockOutcome current timeout (m.lock cfg current timeout).1
      (m.lock cfg current timeout).2 := by
  cases ho : m.owner with
  | none =>
    apply LockOutcome.Free ho
    all_goals simp [lock, kMutexLockDecide, lockDecide, ho]
  | some owner =>
    by_cases hc : owner = current
    · subst hc
      by_cases hcn : m.lockCount < U32_MAX
      · apply LockOutcome.Again ho hcn
        all_goals simp [lock, kMutexLockDecide, lockDecide, ho, hcn]
      · apply LockOutcome.Overflow ho (Nat.le_of_not_lt hcn)
        all_goals simp [lock, kMutexLockDecide, lockDecide, ho, hcn]
    · by_cases hw : timeout = K_NO_WAIT
      · apply LockOutcome.Busy owner ho hc hw
        all_goals simp [lock, kMutexLockDecide, lockDecide, ho, hc, Timeout.isNoWait, hw]
      · have hi : m.SameHold (if cfg.inherits then m.inherit cfg current else m) := by
          split
          · exact inherit_sameHold cfg m current
          · exact .refl m
        apply LockOutcome.Pended owner ho hc hw
        all_goals simp [lock, kMutexLockDecide, lockDecide, ho, hc, Timeout.isNoWait, hw,
          hi.owner, hi.lockCount, hi.waitQ]

-- The outcomes of k_mutex_unlock: refused, held once less, free, or handed on.
inductive UnlockOutcome (m : State) (current : Tid) (m' : State) (newOwner : Option Tid) : Prop where
  | Refused (hother : m.owner ≠ some current) (hsame : m' = m) (hnew : newOwner = none)
  | Released (hown : m.owner = some current) (hmany : 1 < m.lockCount)
      (hless : m' = { m with lockCount := m.lockCount - 1 }) (hnew : newOwner = none)
  | Freed (hown : m.owner = some current) (hlast : m.lockCount ≤ 1) (hempty : m.waitQ = [])
      (howner : m'.owner = none) (hcount : m'.lockCount = 0) (hwaitQ : m'.waitQ = [])
      (hnew : newOwner = none)
  | HandedOn (hown : m.owner = some current) (hlast : m.lockCount ≤ 1) (waiter : Tid)
      (hmem : waiter ∈ m.waitQ) (howner : m'.owner = some waiter) (hcount : m'.lockCount = 1)
      (hwaitQ : m'.waitQ = m.waitQ.erase waiter) (hnew : newOwner = some waiter)

theorem unlock_outcome (current : Tid) : m.UnlockOutcome current (m.unlock cfg pol current).1
      (m.unlock cfg pol current).2.2 := by
  by_cases how : m.owner = some current
  · by_cases hc : 1 < m.lockCount
    · apply UnlockOutcome.Released how hc
      all_goals simp [unlock, kMutexUnlockDecide, unlockDecide, how, hc]
    · have hl := Nat.le_of_not_lt hc
      have hr : m.SameHold
          (if cfg.inherits then m.adjustOwnerPrio m.ownerOrigPrio else m) := by
        split
        · exact adjustOwnerPrio_sameHold _ _
        · exact .refl m
      generalize hm' : (if cfg.inherits then m.adjustOwnerPrio m.ownerOrigPrio else m) = m' at hr
      have hw := hr.waitQ
      rcases (pol m'.prio).take_cases m.waitQ with ⟨hn, ht⟩ | ⟨w, hm, ht⟩
      · apply UnlockOutcome.Freed how hl hn
        all_goals simp [unlock, kMutexUnlockDecide, unlockDecide, how, hc, hm', hw, ht]
      · apply UnlockOutcome.HandedOn how hl w hm
        all_goals simp [unlock, kMutexUnlockDecide, unlockDecide, how, hc, hm', hw, ht]
  · apply UnlockOutcome.Refused how
    all_goals
      cases ho : m.owner with
      | none => simp [unlock, kMutexUnlockDecide, unlockDecide, ho]
      | some owner =>
        have hne : owner ≠ current := fun he => how (he ▸ ho)
        simp [unlock, kMutexUnlockDecide, unlockDecide, ho, hne]

structure SameFor (m : State) (thread : Tid) (m' : State) : Prop where
  waitQ : thread ∈ m'.waitQ ↔ thread ∈ m.waitQ
  owner : m'.owner = some thread ↔ m.owner = some thread
  lockCount : m.owner = some thread → m'.lockCount = m.lockCount

variable {m : State} {current : Tid}

theorem SameFor.of_eq {m' : State} (t : Tid) (h : m' = m) : m.SameFor t m' := by
  subst h
  exact ⟨Iff.rfl, Iff.rfl, fun _ => rfl⟩

variable {thread : Tid} {timeout : Timeout} {ret : Int}

theorem lock_sameFor (m : State) (timeout : Timeout) (hne : thread ≠ current) :
    m.SameFor thread (m.lock cfg current timeout).1 := by
  have hn : current ≠ thread := Ne.symm hne
  cases m.lock_outcome cfg current timeout with
  | Free hf ho _ hw _ =>
    exact ⟨by rw [hw], by simp [ho, hf, hn], by simp [hf]⟩
  | Again how _ ho _ hw _ =>
    exact ⟨by rw [hw], by rw [ho, how], by simp [how, hn]⟩
  | Overflow _ _ hs _ | Busy _ _ _ _ hs _ => exact .of_eq thread hs
  | Pended owner hot _ _ ho hc hw _ =>
    exact ⟨by simp [hw, hne], by rw [ho, hot], fun _ => hc⟩

theorem unlock_sameFor (m : State) (hne : thread ≠ current) (ht : (m.unlock cfg pol current).2.2 ≠ some thread) :
    m.SameFor thread (m.unlock cfg pol current).1 := by
  have hn : current ≠ thread := Ne.symm hne
  cases m.unlock_outcome cfg pol current with
  | Refused _ hs _ => exact .of_eq thread hs
  | Released how _ hl _ =>
    rw [hl]
    exact ⟨Iff.rfl, Iff.rfl, by simp [how, hn]⟩
  | Freed how _ he ho _ hw _ =>
    exact ⟨by rw [hw, he], by simp [ho, how, hn], by simp [how, hn]⟩
  | HandedOn how _ waiter _ ho _ hw hnw =>
    have hwt : thread ≠ waiter := by
      rintro rfl
      exact ht hnw
    refine ⟨?_, ?_, by simp [how, hn]⟩
    · rw [hw]
      exact List.mem_erase_of_ne hwt
    · simp [ho, how, hn, hwt.symm]

theorem lock_nodup (timeout : Timeout) (h : m.waitQ.Nodup) (hc : current ∉ m.waitQ) :
    (m.lock cfg current timeout).1.waitQ.Nodup := by
  cases m.lock_outcome cfg current timeout with
  | Free _ _ _ hw _ | Again _ _ _ _ hw _ => rwa [hw]
  | Overflow _ _ hs _ | Busy _ _ _ _ hs _ => rwa [hs]
  | Pended _ _ _ _ _ _ hw _ =>
    rw [hw]
    exact List.Nodup.append h (List.nodup_singleton _) (by simpa using hc)

theorem unlock_sublist (m : State) (current : Tid) : List.Sublist (m.unlock cfg pol current).1.waitQ m.waitQ := by
  cases m.unlock_outcome cfg pol current with
  | Refused _ hs _ => rw [hs]
  | Released _ _ hl _ => rw [hl]
  | Freed _ _ _ _ _ hw _ =>
    rw [hw]
    exact List.nil_sublist _
  | HandedOn _ _ w _ _ _ hw _ =>
    rw [hw]
    exact List.erase_sublist

theorem unlock_newOwner {newOwner : Tid} (h : (m.unlock cfg pol current).2.2 = some newOwner) :
    newOwner ∈ m.waitQ ∧ (m.unlock cfg pol current).1.owner = some newOwner ∧
      (m.unlock cfg pol current).1.lockCount = 1 ∧
      (m.unlock cfg pol current).1.waitQ = m.waitQ.erase newOwner := by
  cases m.unlock_outcome cfg pol current with
  | Refused _ _ hn | Released _ _ _ hn | Freed _ _ _ _ _ _ hn => simp [hn] at h
  | HandedOn _ _ w hm ho hc hw hn =>
    cases hn.symm.trans h
    exact ⟨hm, ho, hc, hw⟩

theorem unlock_owner_ne (hc : current ∉ m.waitQ) (honce : m.lockCount = 1) :
    (m.unlock cfg pol current).1.owner ≠ some current := by
  cases m.unlock_outcome cfg pol current with
  | Refused hot hs _ => rwa [hs]
  | Released _ hm _ _ => omega
  | Freed _ _ _ ho _ _ _ => simp [ho]
  | HandedOn _ _ w hmm ho _ _ _ =>
    rw [ho]
    intro heq
    cases heq
    exact hc hmm

theorem lock_waitQ_of_some (h : (m.lock cfg current timeout).2 = some ret) :
    (m.lock cfg current timeout).1.waitQ = m.waitQ := by
  cases m.lock_outcome cfg current timeout with
  | Free _ _ _ hw _ | Again _ _ _ _ hw _ => exact hw
  | Overflow _ _ hs _ | Busy _ _ _ _ hs _ => rw [hs]
  | Pended _ _ _ _ _ _ _ hr => simp [hr] at h

theorem lock_mem_of_none (h : (m.lock cfg current timeout).2 = none) :
    current ∈ (m.lock cfg current timeout).1.waitQ := by
  cases m.lock_outcome cfg current timeout with
  | Free _ _ _ _ hr | Again _ _ _ _ _ hr | Overflow _ _ _ hr
  | Busy _ _ _ _ _ hr => simp [hr] at h
  | Pended _ _ _ _ _ _ hw _ => simp [hw]

theorem lock_forever_of_ne (hn : m.owner ≠ some current) (h : (m.lock cfg current K_FOREVER).2 = some ret) :
    (m.lock cfg current K_FOREVER).1.owner = some current ∧ (m.lock cfg current K_FOREVER).1.lockCount = 1 := by
  cases m.lock_outcome cfg current K_FOREVER with
  | Free _ ho hc _ _ => exact ⟨ho, hc⟩
  | Again how _ _ _ _ _ | Overflow how _ _ _ => exact absurd how hn
  | Busy _ _ _ ht _ _ => cases ht
  | Pended _ _ _ _ _ _ _ hr => simp [hr] at h

end Gale.Mutex.State
