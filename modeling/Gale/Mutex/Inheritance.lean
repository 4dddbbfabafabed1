import Gale.Mutex.Exclusion

namespace Gale.Mutex

open Function Lib

-- K_LOWEST_THREAD_PRIO is the largest priority value a thread can have.
structure Priorities (cfg : Config) where
  prio : Tid → Int
  le_lowest : ∀ thread, prio thread ≤ cfg.lowestThreadPrio

-- The priority an owner should run at: its own, unless a waiter has a better
-- one, and then that of the best waiter, as far as the ceiling allows.
def boosted (cfg : Config) (own : Int) (waiters : List Int) : Int :=
  match waiters.min? with
  | some best => if best < own then min own (max best cfg.priorityCeiling) else own
  | none => own

theorem newPrioForInheritance_eq (cfg : Config) (tg lim : Int) :
    newPrioForInheritance cfg tg lim = max (min tg lim) cfg.priorityCeiling := by
  simp only [newPrioForInheritance]
  split <;> split <;> omega

variable {cfg : Config} {ws : List Int}

theorem boosted_of_min {best : Int} (hb : ws.min? = some best) (own : Int) :
    boosted cfg own ws = min own (max best cfg.priorityCeiling) := by
  simp only [boosted, hb]
  split <;> omega

variable {own : Int}

theorem le_boosted_iff {p : Int} : p ≤ boosted cfg own ws ↔ p ≤ own ∧ ∀ w ∈ ws, p ≤ max w cfg.priorityCeiling := by
  cases hm : ws.min? with
  | none =>
    rw [List.min?_eq_none_iff] at hm
    simp [boosted, hm]
  | some best =>
    obtain ⟨hmm, hle⟩ := List.min?_eq_some_iff.mp hm
    rw [boosted_of_min hm, Int.le_min]
    refine and_congr_right fun _ => ⟨fun hp w hw => ?_, fun hp => hp best hmm⟩
    have := hle w hw
    omega

theorem boosted_le (cfg : Config) (own : Int) (ws : List Int) : boosted cfg own ws ≤ own :=
  (le_boosted_iff.mp (Int.le_refl _)).1

theorem boosted_concat (cfg : Config) (own : Int) (ws : List Int) (w : Int) :
    boosted cfg own (ws ++ [w]) = min (boosted cfg own ws) (max w cfg.priorityCeiling) := by
  have hi : ∀ p, p ≤ boosted cfg own (ws ++ [w]) ↔ p ≤ min (boosted cfg own ws) (max w cfg.priorityCeiling) := by
    intro p
    rw [Int.le_min, le_boosted_iff, le_boosted_iff, and_assoc, List.forall_mem_append, List.forall_mem_singleton]
  exact Int.le_antisymm ((hi _).mp (Int.le_refl _)) ((hi _).mpr (Int.le_refl _))

theorem boosted_eq_own (h : ∀ w ∈ ws, own ≤ max w cfg.priorityCeiling) : boosted cfg own ws = own :=
  Int.le_antisymm (boosted_le cfg own ws) (le_boosted_iff.mpr ⟨Int.le_refl _, h⟩)

namespace State

variable (cfg : Config) (policy : (Tid → Int) → Policy Tid) {m : State} {owner current : Tid}

theorem adjustOwnerPrio_prio (ho : m.owner = some owner) (newPrio : Int) :
    (m.adjustOwnerPrio newPrio).prio = update m.prio owner newPrio := by
  simp only [adjustOwnerPrio, ho]
  split
  · rfl
  · next hs => rw [← not_not.mp hs, update_eq_self]

@[simp] theorem adjustOwnerPrio_ownerOrigPrio (m : State) (np : Int) :
    (m.adjustOwnerPrio np).ownerOrigPrio = m.ownerOrigPrio := by
  unfold adjustOwnerPrio
  split
  · split <;> rfl
  · rfl

theorem inherit_prio (ho : m.owner = some owner) (current : Tid) : (m.inherit cfg current).prio = update m.prio owner
      (min (m.prio owner) (max (m.prio current) cfg.priorityCeiling)) := by
  simp only [inherit, ho, newPrioForInheritance_eq]
  split
  · next hlt =>
      rw [adjustOwnerPrio_prio ho]
      congr 1
      omega
  · next hn =>
      have hs : min (m.prio owner) (max (m.prio current) cfg.priorityCeiling) = m.prio owner := by
        omega
      rw [hs, update_eq_self]

@[simp] theorem inherit_ownerOrigPrio (m : State) (current : Tid) :
    (m.inherit cfg current).ownerOrigPrio = m.ownerOrigPrio := by
  unfold inherit
  split
  · dsimp only
    split
    · exact adjustOwnerPrio_ownerOrigPrio _ _
    · rfl
  · rfl

def loweredPrio (m : State) : Int :=
  match (policy m.prio).best m.waitQ with
  | some waiter => newPrioForInheritance cfg (m.prio waiter) m.ownerOrigPrio
  | none => m.ownerOrigPrio

theorem lockTimedOut_prio (hi : cfg.inherits = true) (ho : m.owner = some owner) :
    (m.lockTimedOut cfg policy).prio = update m.prio owner (m.loweredPrio cfg policy) := by
  have hc : cfg.inherits = true ∧ m.owner.isSome = true := ⟨hi, by simp [ho]⟩
  cases hb : (policy m.prio).best m.waitQ with
  | none | some w =>
    simp only [lockTimedOut, if_pos hc, loweredPrio, hb]
    exact adjustOwnerPrio_prio ho _

@[simp] theorem lockTimedOut_ownerOrigPrio (m : State) :
    (m.lockTimedOut cfg policy).ownerOrigPrio = m.ownerOrigPrio := by
  unfold lockTimedOut
  split
  · split
    · exact adjustOwnerPrio_ownerOrigPrio _ _
    · exact adjustOwnerPrio_ownerOrigPrio _ _
  · rfl

theorem lockTimedOut_of_not (h : ¬ (cfg.inherits = true ∧ m.owner.isSome = true)) :
    m.lockTimedOut cfg policy = m := if_neg h

variable {timeout : Timeout}

theorem lock_prio_of_some {ret : Int} (h : (m.lock cfg current timeout).2 = some ret) :
    (m.lock cfg current timeout).1.prio = m.prio := by
  revert h
  simp only [lock]
  split
  · exact fun _ => rfl
  · exact fun _ => rfl
  · intro h
    cases h

theorem lock_prio_of_none (ho : m.owner = some owner) (h : (m.lock cfg current timeout).2 = none) :
    (m.lock cfg current timeout).1.prio =
      if cfg.inherits then update m.prio owner
        (min (m.prio owner) (max (m.prio current) cfg.priorityCeiling))
      else m.prio := by
  revert h
  simp only [lock]
  split
  · intro h
    cases h
  · intro h
    cases h
  · intro _
    split
    · exact inherit_prio cfg ho current
    · rfl

theorem lock_ownerOrigPrio_of_free (timeout : Timeout) (hi : cfg.inherits = true)
    (hf : m.owner = none) (hc : m.lockCount = 0) :
    (m.lock cfg current timeout).1.ownerOrigPrio = m.prio current := by
  simp [lock, kMutexLockDecide, lockDecide, hf, hc, hi]

theorem lock_ownerOrigPrio_of_pos (current : Tid) (timeout : Timeout) (hc : 0 < m.lockCount) :
    (m.lock cfg current timeout).1.ownerOrigPrio = m.ownerOrigPrio := by
  have hne : m.lockCount ≠ 0 := by omega
  simp only [lock]
  split
  · exact if_neg fun h => hne h.2
  · rfl
  · split
    · exact inherit_ownerOrigPrio cfg m current
    · rfl

def restoredPrio (m : State) (current : Tid) : Tid → Int :=
  if cfg.inherits then update m.prio current m.ownerOrigPrio else m.prio

theorem unlock_prio (ho : m.owner = some current) (hl : m.lockCount ≤ 1) :
    (m.unlock cfg policy current).1.prio = m.restoredPrio cfg current := by
  have hk : unlockDecide m.lockCount false true = .FullyUnlocked := by
    simp [unlockDecide, Nat.not_lt.mpr hl]
  have hprio : (if cfg.inherits then m.adjustOwnerPrio m.ownerOrigPrio else m).prio = m.restoredPrio cfg current := by
    simp only [restoredPrio]
    split
    · exact adjustOwnerPrio_prio ho _
    · rfl
  simp only [unlock, kMutexUnlockDecide, ho, Option.isNone_some, decide_true, hk]
  split
  · exact hprio
  · exact hprio

theorem unlock_best {own : Tid} (h : (m.unlock cfg policy current).2.2 = some own) :
    (policy (m.unlock cfg policy current).1.prio).best m.waitQ = some own ∧
      (cfg.inherits = true → (m.unlock cfg policy current).1.ownerOrigPrio =
        (m.unlock cfg policy current).1.prio own) := by
  have hs : m.SameHold (if cfg.inherits then m.adjustOwnerPrio m.ownerOrigPrio else m) := by
    split
    · exact adjustOwnerPrio_sameHold _ _
    · exact .refl m
  revert h
  simp only [unlock]
  split
  · intro h
    cases h
  · intro h
    cases h
  · split
    · next w rest ht =>
        intro h
        cases h
        have hb := (policy _).best_of_take (congrArg Prod.fst ht)
        rw [hs.waitQ] at hb
        exact ⟨hb, fun hi => if_pos hi⟩
    · intro h
      cases h

theorem loweredPrio_eq (hb : (policy m.prio).BestFirst m.prio)
    (hc : m.waitQ ≠ [] → cfg.priorityCeiling ≤ m.ownerOrigPrio) :
    m.loweredPrio cfg policy = boosted cfg m.ownerOrigPrio (m.waitQ.map m.prio) := by
  unfold loweredPrio
  split
  · next w hw =>
      have hm := (policy m.prio).mem_of_best hw
      have hle := hc (List.ne_nil_of_mem hm)
      have hmn : (m.waitQ.map m.prio).min? = some (m.prio w) := by
        refine List.min?_eq_some_iff.mpr ⟨List.mem_map_of_mem hm, fun p hp => ?_⟩
        obtain ⟨o, ho, rfl⟩ := List.mem_map.mp hp
        exact hb m.waitQ w hw o ho
      rw [newPrioForInheritance_eq, boosted_of_min hmn]
      omega
  · next hn =>
      rw [(policy m.prio).eq_nil_of_best hn]
      rfl

theorem loweredPrio_of_above (hw : m.waitQ ≠ []) (ha : m.ownerOrigPrio < cfg.priorityCeiling) :
    m.loweredPrio cfg policy = cfg.priorityCeiling := by
  unfold loweredPrio
  split
  · rw [newPrioForInheritance_eq]
    omega
  · next hn => exact absurd ((policy m.prio).eq_nil_of_best hn) hw

end State

namespace Callers

def TimedOut (s : Callers) (thread : Tid) : Prop := ∃ ret, s.pc thread = .Woken ret ∧ ret ≠ 0

-- Threads start with the given priorities and nobody else changes them, so
-- these are the priorities at acquisition.
structure Inherits (cfg : Config) (prio : Tid → Int) (s : Callers) : Prop where
  owner : ∀ owner, s.mutex.owner = some owner → (∀ thread, ¬ s.TimedOut thread) →
    s.mutex.prio owner = boosted cfg (prio owner) (s.mutex.waitQ.map s.mutex.prio)
  notBelow : ∀ owner, s.mutex.owner = some owner → s.mutex.prio owner ≤ prio owner
  restored : ∀ thread, s.mutex.owner ≠ some thread → s.mutex.prio thread = prio thread

-- When a timed-out locker finds others waiting, the owner is not one whose own
-- priority is above the ceiling.
def OwnerWithinCeiling (cfg : Config) (prio : Tid → Int) (s : Callers) : Op → Prop
  | .Resume thread => s.TimedOut thread → cfg.inherits = true → s.mutex.waitQ ≠ [] →
      ∀ owner, s.mutex.owner = some owner → cfg.priorityCeiling ≤ prio owner
  | _ => True

-- What the priority of the owner is: fixed if the protocol is not compiled in,
-- and otherwise as the waiters ask once no time-out is left to be dealt with.
structure Owned (cfg : Config) (prio : Tid → Int) (s : Callers) (owner : Tid) : Prop where
  orig : cfg.inherits = true → s.mutex.ownerOrigPrio = prio owner
  notBelow : s.mutex.prio owner ≤ prio owner
  fixed : cfg.inherits = false → s.mutex.prio owner = prio owner
  boosted : (∀ thread, ¬ s.TimedOut thread) →
    s.mutex.prio owner = boosted cfg (prio owner) (s.mutex.waitQ.map s.mutex.prio)

structure PrioInv (cfg : Config) (prio : Tid → Int) (s : Callers) : Prop where
  exclusion : s.Inv
  owned : ∀ owner, s.mutex.owner = some owner → s.Owned cfg prio owner
  restored : ∀ thread, s.mutex.owner ≠ some thread → s.mutex.prio thread = prio thread

theorem PrioInv.inherits {cfg : Config} {prio : Tid → Int} {s : Callers} (h : s.PrioInv cfg prio) :
    s.Inherits cfg prio where
  owner := fun owner ho hq => (h.owned owner ho).boosted hq
  notBelow := fun owner ho => (h.owned owner ho).notBelow
  restored := h.restored

section Steps

variable {cfg : Config} {pol : (Tid → Int) → Policy Tid} {prio : Tid → Int} {s next : Callers}

theorem start_prioInv (cfg : Config) (prio : Tid → Int) : (start prio).PrioInv cfg prio where
  exclusion := start_inv prio
  owned := fun owner ho => by cases ho
  restored := fun _ _ => rfl

theorem PrioInv.congr (h : s.PrioInv cfg prio) (hi : next.Inv) (ho : next.mutex.owner = s.mutex.owner)
    (hor : s.mutex.owner ≠ none → next.mutex.ownerOrigPrio = s.mutex.ownerOrigPrio)
    (hprio : next.mutex.prio = s.mutex.prio) (hw : next.mutex.waitQ = s.mutex.waitQ)
    (hq : (∀ thread, ¬ next.TimedOut thread) → ∀ thread, ¬ s.TimedOut thread) :
    next.PrioInv cfg prio where
  exclusion := hi
  owned := by
    intro owner hon
    rw [ho] at hon
    have how := h.owned owner hon
    refine ⟨?_, ?_, ?_, ?_⟩
    · rw [hor (by simp [hon])]
      exact how.orig
    · rw [hprio]
      exact how.notBelow
    · rw [hprio]
      exact how.fixed
    · rw [hprio, hw]
      exact fun hn => how.boosted (hq hn)
  restored := by
    rw [ho, hprio]
    exact h.restored

variable {owner thread : Tid}

theorem Owned.of_fixed (hprio : ∀ thread, prio thread ≤ cfg.lowestThreadPrio)
    (hi : cfg.inherits = false) (hs : s.mutex.prio owner = prio owner) :
    s.Owned cfg prio owner where
  orig := fun h => by simp [hi] at h
  notBelow := Int.le_of_eq hs
  fixed := fun _ => hs
  boosted := by
    intro _
    have hc : ¬ cfg.priorityCeiling < cfg.lowestThreadPrio := by
      simpa [Config.inherits] using hi
    have ho := hprio owner
    rw [hs, boosted_eq_own]
    intro w _
    omega

theorem Owned.of_boosted (hi : cfg.inherits = true) (ho : s.mutex.ownerOrigPrio = prio owner)
    (hs : s.mutex.prio owner = Mutex.boosted cfg (prio owner) (s.mutex.waitQ.map s.mutex.prio)) :
    s.Owned cfg prio owner where
  orig := fun _ => ho
  notBelow := by
    rw [hs]
    exact boosted_le cfg _ _
  fixed := fun h => by simp [hi] at h
  boosted := fun _ => hs

theorem map_update_of_not_mem {queue : List Tid} (h : owner ∉ queue) (prio : Tid → Int) (p : Int) :
    queue.map (update prio owner p) = queue.map prio := by
  apply List.map_congr_left
  intro thread ht
  have hne : thread ≠ owner := by
    rintro rfl
    exact h ht
  exact update_of_ne hne _ _

theorem not_timedOut_of_update {pc : Pc} (hpc : next.pc = update s.pc thread pc)
    (ht : ¬ s.TimedOut thread) (h : ∀ client, ¬ next.TimedOut client) :
    ∀ client, ¬ s.TimedOut client := by
  intro client hc
  by_cases heq : client = thread
  · subst heq
    exact ht hc
  · refine h client ?_
    obtain ⟨ret, hw, hr⟩ := hc
    exact ⟨ret, by rw [hpc, update_of_ne heq, hw], hr⟩

theorem not_timedOut_of_running (hpc : s.pc thread = .Running) : ¬ s.TimedOut thread := by
  rintro ⟨ret, hw, _⟩
  cases hpc.symm.trans hw

section

variable (hprio : ∀ thread, prio thread ≤ cfg.lowestThreadPrio) (h : s.PrioInv cfg prio)
include hprio h

theorem PrioInv.acquired (hin : next.Inv) (hf : s.mutex.owner = none)
    (ho : next.mutex.owner = some thread) (hw : next.mutex.waitQ = s.mutex.waitQ)
    (hs : next.mutex.prio = s.mutex.prio)
    (hor : cfg.inherits = true → next.mutex.ownerOrigPrio = s.mutex.prio thread) :
    next.PrioInv cfg prio where
  exclusion := hin
  owned := by
    intro owner how
    cases ho.symm.trans how
    have hr := h.restored thread (by simp [hf])
    cases hi : cfg.inherits with
    | true =>
      refine .of_boosted hi ((hor hi).trans hr) ?_
      rw [hw, (h.exclusion.free hf).2, hs]
      exact hr
    | false =>
      refine .of_fixed hprio hi ?_
      rw [hs]
      exact hr
  restored := by
    intro o _
    rw [hs]
    exact h.restored o (by simp [hf])

theorem PrioInv.pended {mutex : State} (timeout : Timeout) (hpc : s.pc thread = .Running)
    (hin : Inv { s with mutex, pc := update s.pc thread (.Pended timeout) })
    (hot : s.mutex.owner = some owner) (ho : mutex.owner = some owner)
    (hw : mutex.waitQ = s.mutex.waitQ ++ [thread])
    (hor : mutex.ownerOrigPrio = s.mutex.ownerOrigPrio)
    (hn : mutex.prio = if cfg.inherits then update s.mutex.prio owner
        (min (s.mutex.prio owner) (max (s.mutex.prio thread) cfg.priorityCeiling))
      else s.mutex.prio) :
    PrioInv cfg prio { s with mutex, pc := update s.pc thread (.Pended timeout) } where
  exclusion := hin
  owned := by
    intro o hon
    cases ho.symm.trans hon
    have how := h.owned owner hot
    cases hi : cfg.inherits with
    | false =>
      refine .of_fixed hprio hi ?_
      simp only [hn, hi, Bool.false_eq_true, if_false]
      exact how.fixed hi
    | true =>
      simp only [hi, if_true] at hn
      have hm := (hin.holding owner).notWaiting ho
      refine ⟨fun _ => hor.trans (how.orig hi), ?_, by simp [hi], fun hq => ?_⟩
      · have hb := how.notBelow
        simp only [hn, update_self]
        omega
      · have hb := how.boosted
          (not_timedOut_of_update rfl (not_timedOut_of_running hpc) hq)
        simp only [hn, update_self]
        rw [map_update_of_not_mem hm, hw, List.map_append, List.map_singleton, boosted_concat, ← hb]
  restored := by
    intro o hon
    have hne : o ≠ owner := by
      rintro rfl
      exact hon ho
    have hr := h.restored o (by simp [hot, Ne.symm hne])
    simp only [hn]
    split
    · rw [update_of_ne hne]
      exact hr
    · exact hr

theorem PrioInv.lock (timeout : Timeout) (hpc : s.pc thread = .Running) :
    (s.lock cfg thread timeout).PrioInv cfg prio := by
  have hin : (s.lock cfg thread timeout).Inv := h.exclusion.lock timeout hpc
  cases s.mutex.lock_outcome cfg thread timeout with
  | Free hf ho _ hw hr =>
    have hc := (h.exclusion.free hf).1
    simp only [Callers.lock, hr] at hin ⊢
    exact h.acquired hprio hin hf ho hw (State.lock_prio_of_some cfg hr)
      fun hi => State.lock_ownerOrigPrio_of_free cfg timeout hi hf hc
  | Again how _ ho _ hw hr =>
    have hp := h.exclusion.count_pos (by simp [how])
    simp only [Callers.lock, hr] at hin ⊢
    exact h.congr hin (ho.trans how.symm)
      (fun _ => State.lock_ownerOrigPrio_of_pos cfg thread timeout hp)
      (State.lock_prio_of_some cfg hr) hw fun hq => hq
  | Overflow _ _ hs hr | Busy _ _ _ _ hs hr =>
    simp only [Callers.lock, hr] at hin ⊢
    exact h.congr hin (by rw [hs]) (fun _ => by rw [hs]) (by rw [hs]) (by rw [hs])
      fun hq => hq
  | Pended owner hot _ _ ho _ hw hr =>
    have hp := h.exclusion.count_pos (by simp [hot])
    simp only [Callers.lock, hr] at hin ⊢
    exact h.pended hprio timeout hpc hin hot ho hw
      (State.lock_ownerOrigPrio_of_pos cfg thread timeout hp)
      (State.lock_prio_of_none cfg hot hr)

end

theorem PrioInv.restoredPrio (h : s.PrioInv cfg prio) (how : s.mutex.owner = some thread) :
    s.mutex.restoredPrio cfg thread = prio := by
  have ho := h.owned thread how
  funext o
  simp only [State.restoredPrio]
  by_cases heq : o = thread
  · subst heq
    cases hi : cfg.inherits with
    | true => simpa using ho.orig hi
    | false => simpa using ho.fixed hi
  · have hr := h.restored o (by simp [how, Ne.symm heq])
    split
    · rw [update_of_ne heq]
      exact hr
    · exact hr

theorem PrioInv.unlock (hprio : ∀ thread, prio thread ≤ cfg.lowestThreadPrio)
    (hb : ∀ prio, (pol prio).BestFirst prio) (h : s.PrioInv cfg prio)
    (hpc : s.pc thread = .Running) : (s.unlock cfg pol .Native thread).PrioInv cfg prio := by
  have hin : (s.unlock cfg pol .Native thread).Inv := h.exclusion.unlock hpc
  by_cases how : s.mutex.owner = some thread
  · simp only [Callers.unlock, Build.unlock] at hin ⊢
    cases s.mutex.unlock_outcome cfg pol thread with
    | Refused ho => exact absurd how ho
    | Released hon hm hl hnw =>
      rw [hnw] at hin ⊢
      exact h.congr hin (by rw [hl]) (fun _ => by rw [hl]) (by rw [hl]) (by rw [hl])
        fun hq => hq
    | Freed hon hls he hnn hcn hw hnw =>
      refine ⟨hin, fun owner hs => ?_, fun o _ => ?_⟩
      · cases hnn.symm.trans hs
      · simp [State.unlock_prio cfg pol hon hls, h.restoredPrio hon]
    | HandedOn hon hls w hmm hnx hcn hw hnw =>
      obtain ⟨hc, hn⟩ := State.unlock_best cfg pol hnw
      have hsm : (s.mutex.unlock cfg pol thread).1.prio = prio := by
        rw [State.unlock_prio cfg pol hon hls, h.restoredPrio hon]
      rw [hnw] at hin ⊢
      refine ⟨hin, fun owner hs => ?_, fun o _ => ?_⟩
      · cases hnx.symm.trans hs
        rw [hsm] at hc
        cases hi : cfg.inherits with
        | false => exact .of_fixed hprio hi (by simp only [hsm])
        | true =>
          have hor := hn hi
          rw [hsm] at hor
          refine .of_boosted hi hor ?_
          simp only [hsm, hw]
          refine (boosted_eq_own fun p hp => ?_).symm
          obtain ⟨o, ho, rfl⟩ := List.mem_map.mp hp
          have hle := hb prio s.mutex.waitQ w hc o (List.mem_of_mem_erase ho)
          omega
      · simp only [hsm]
  · rw [(unlock_of_ne how).1]
    exact h

theorem PrioInv.timeOut (h : s.PrioInv cfg prio) {timeout : Timeout}
    (hpc : s.pc thread = .Pended timeout) : (s.timeOut thread).PrioInv cfg prio where
  exclusion := h.exclusion.timeOut hpc
  owned := by
    intro owner ho
    have how := h.owned owner ho
    have ht : (s.timeOut thread).TimedOut thread :=
      ⟨EAGAIN, update_self .., by decide⟩
    exact ⟨how.orig, how.notBelow, how.fixed, fun hq => absurd ht (hq thread)⟩
  restored := h.restored

variable {ret : Int} {op : Op}

theorem PrioInv.lowered (h : s.PrioInv cfg prio) (hb : ∀ prio, (pol prio).BestFirst prio) (hi : cfg.inherits = true)
    (ho : s.mutex.owner = some owner)
    (hc : s.mutex.waitQ ≠ [] → cfg.priorityCeiling ≤ prio owner) (hr : ret ≠ 0)
    (hin : (s.resume cfg pol thread ret).Inv) :
    (s.resume cfg pol thread ret).PrioInv cfg prio := by
  have hor := (h.owned owner ho).orig hi
  have hm := (h.exclusion.holding owner).notWaiting ho
  have hs := s.mutex.lockTimedOut_sameHold cfg pol
  have hn := State.lockTimedOut_prio cfg pol hi ho
  simp only [Callers.resume, if_neg hr] at hin ⊢
  refine ⟨hin, fun o hot => ?_, fun o hot => ?_⟩
  · cases (hs.owner.trans ho).symm.trans hot
    refine .of_boosted hi ?_ ?_
    · rw [State.lockTimedOut_ownerOrigPrio]
      exact hor
    · simp only [hn, hs.waitQ, update_self, map_update_of_not_mem hm]
      rw [State.loweredPrio_eq cfg pol (hb _) (by rwa [hor]), hor]
  · have hne : o ≠ owner := by
      rintro rfl
      exact hot (hs.owner.trans ho)
    simp only [hn, update_of_ne hne]
    exact h.restored o (by simp [ho, Ne.symm hne])

theorem PrioInv.resume (hprio : ∀ thread, prio thread ≤ cfg.lowestThreadPrio)
    (hb : ∀ prio, (pol prio).BestFirst prio) (h : s.PrioInv cfg prio)
    (hpc : s.pc thread = .Woken ret) (hc : s.OwnerWithinCeiling cfg prio (.Resume thread)) :
    (s.resume cfg pol thread ret).PrioInv cfg prio := by
  have hin : (s.resume cfg pol thread ret).Inv := h.exclusion.resume hpc
  by_cases hr : ret = 0
  · subst hr
    refine h.congr hin rfl (fun _ => rfl) rfl rfl (not_timedOut_of_update rfl ?_)
    rintro ⟨ret, hwk, hne⟩
    cases hpc.symm.trans hwk
    exact hne rfl
  · by_cases ha : cfg.inherits = true ∧ s.mutex.owner.isSome = true
    · obtain ⟨hi, hs⟩ := ha
      obtain ⟨owner, ho⟩ := Option.isSome_iff_exists.mp hs
      exact h.lowered hb hi ho
        (fun hw => hc ⟨ret, hpc, hr⟩ hi hw owner ho) hr hin
    · simp only [Callers.resume, if_neg hr, State.lockTimedOut_of_not cfg pol ha] at hin ⊢
      refine ⟨hin, fun owner ho => ?_, h.restored⟩
      have hi : cfg.inherits = false := by
        by_contra htrue
        exact ha ⟨by simpa using htrue, Option.isSome_iff_exists.mpr ⟨owner, ho⟩⟩
      exact .of_fixed hprio hi ((h.owned owner ho).fixed hi)

theorem PrioInv.step (hprio : ∀ thread, prio thread ≤ cfg.lowestThreadPrio)
    (hb : ∀ prio, (pol prio).BestFirst prio) (h : s.PrioInv cfg prio)
    (hc : s.OwnerWithinCeiling cfg prio op) (hs : s.step cfg pol .Native op = some next) :
    next.PrioInv cfg prio := by
  rcases step_cases hs with ⟨thread, timeout, _, hpc, rfl⟩ | ⟨thread, _, hpc, rfl⟩ |
    ⟨thread, timeout, _, hpc, rfl⟩ | ⟨thread, ret, rfl, hpc, rfl⟩
  · exact h.lock hprio timeout hpc
  · exact h.unlock hprio hb hpc
  · exact h.timeOut hpc
  · exact h.resume hprio hb hpc hc

theorem PrioInv.resume_breaks (h : s.PrioInv cfg prio)
    (hc : ¬ s.OwnerWithinCeiling cfg prio op) (hs : s.step cfg pol .Native op = some next) :
    ¬ next.Inherits cfg prio := by
  rcases step_cases hs with ⟨thread, timeout, rfl, _, _⟩ | ⟨thread, rfl, _, _⟩ |
    ⟨thread, timeout, rfl, _, _⟩ | ⟨thread, ret, rfl, hpc, rfl⟩
  · exact absurd trivial hc
  · exact absurd trivial hc
  · exact absurd trivial hc
  · simp only [OwnerWithinCeiling, Classical.not_imp, not_forall, Int.not_le] at hc
    obtain ⟨⟨ret', hp, hr⟩, hinherits, hwaits, owner, howner, habove⟩ := hc
    cases hpc.symm.trans hp
    have ho := (h.owned owner howner).orig hinherits
    intro hi
    have hle := hi.notBelow owner (by
      simp only [Callers.resume, if_neg hr, (s.mutex.lockTimedOut_sameHold cfg pol).owner]
      exact howner)
    simp only [Callers.resume, if_neg hr, State.lockTimedOut_prio cfg pol hinherits howner, update_self] at hle
    rw [State.loweredPrio_of_above cfg pol hwaits (by rwa [ho])] at hle
    omega

end Steps

-- Thread 0, of priority 2 under a ceiling of 5, is waited for by 1 and 2. When
-- 2 times out, 0 goes down to 5.
theorem inherits_fails :
    ¬ ∀ (cfg : Config) (policy : (Tid → Int) → Policy Tid) (prio : Priorities cfg) (ops : List Op),
      (∀ prio, (policy prio).BestFirst prio) →
      Throughout (step cfg policy .Native) (Inherits cfg prio.prio) (start prio.prio) ops := by
  intro h
  have hr := h ⟨5, 15⟩ (fun prio => .byPriority prio)
    ⟨fun thread => if thread = 0 then 2 else 7, fun thread => by dsimp only; split <;> decide⟩
    [.Lock 0 K_FOREVER, .Lock 1 K_FOREVER, .Lock 2 (.Ticks 3), .TimeOut 2, .Resume 2]
    fun prio => Policy.byPriority_bestFirst prio
  have hl := ((((hr.2 _ rfl).2 _ rfl).2 _ rfl).2 _ rfl).2 _ rfl
  have hle := hl.notBelow 0 rfl
  exact absurd hle (by decide)

theorem inherits_iff_ownerWithinCeiling (cfg : Config) (policy : (Tid → Int) → Policy Tid)
    (prio : Priorities cfg) (hbest : ∀ prio, (policy prio).BestFirst prio) (ops : List Op) :
    Throughout (step cfg policy .Native) (Inherits cfg prio.prio) (start prio.prio) ops ↔
      Along (step cfg policy .Native) (OwnerWithinCeiling cfg prio.prio) (start prio.prio) ops :=
  throughout_iff_along (PrioInv cfg prio.prio) (fun _ h => h.inherits)
    (fun _ _ _ h hc hs => h.step prio.le_lowest hbest hc hs)
    (fun _ _ _ h hc hs => h.resume_breaks hc hs) (start_prioInv cfg prio.prio) ops

theorem inherits_below_ceiling : (∀ prio : Tid → Int, (Policy.byPriority prio).BestFirst prio) ∧
      Throughout (step ⟨0, 15⟩ (fun prio => .byPriority prio) .Native)
        (Inherits ⟨0, 15⟩ fun thread => if thread = 0 then 2 else 7)
        (start fun thread => if thread = 0 then 2 else 7)
        [.Lock 0 K_FOREVER, .Lock 1 K_FOREVER, .Lock 2 (.Ticks 3), .TimeOut 2, .Resume 2] := by
  refine ⟨Policy.byPriority_bestFirst, (inherits_iff_ownerWithinCeiling ⟨0, 15⟩
    (fun prio => .byPriority prio)
    ⟨fun thread => if thread = 0 then 2 else 7, fun thread => by dsimp only; split <;> decide⟩
    Policy.byPriority_bestFirst _).mpr ?_⟩
  refine along_cons rfl trivial (along_cons rfl trivial (along_cons rfl trivial
    (along_cons rfl trivial (along_cons rfl ?_ trivial))))
  intro _ _ _ owner ho
  cases ho
  decide

end Callers

end Gale.Mutex
