import Gale.Lib.Run
import Gale.Lib.WaitQueue
import Gale.Stack

namespace Gale.Stack

open Function Lib

variable {α : Type*}

namespace Entry

def accepted : Entry α → Option α
  | .Store data => some data
  | .Hand _ data => some data
  | _ => none

def given : Entry α → Option α
  | .Hand _ data => some data
  | .Take _ data => some data
  | _ => none

def givenTo (thread : Tid) : Entry α → Option α
  | .Hand other data => if other = thread then some data else none
  | .Take other data => if other = thread then some data else none
  | _ => none

def returnedBy (thread : Tid) : Entry α → Option α
  | .Return other _ data => if other = thread then data else none
  | _ => none

def inArray : Entry α → Bool
  | .Store _ => true
  | .Take _ _ => true
  | _ => false

end Entry

-- The history of an array and the values that were stored in it and not taken, newest
-- first: only the newest is ever taken.
inductive Lifo : List (Entry α) → List α → Prop where
  | Empty : Lifo [] []
  | Store {log stack} (data : α) : Lifo log stack → Lifo (log ++ [.Store data]) (data :: stack)
  | Take {log stack} (thread : Tid) (data : α) :
      Lifo log (data :: stack) → Lifo (log ++ [.Take thread data]) stack
  | Other {log stack} (entry : Entry α) :
      entry.inArray = false → Lifo log stack → Lifo (log ++ [entry]) stack

def Pc.inHand : Pc α → List α
  | .Woken ret (some data) => if ret = EAGAIN then [] else [data]
  | _ => []

def Pc.IsPended (pc : Pc α) : Prop := ∃ timeout, pc = .Pended timeout

def contents (base : Nat → α) : Nat → List α
  | 0 => []
  | n + 1 => base n :: contents base n

-- Each accepted value is in the array or was given to one pop, which returns it and
-- nothing else; the newest value in the array is taken first; threads wait only while
-- the array is empty.
structure Delivers (capacity : Nat) (s : State α) : Prop where
  top : s.top = capacity
  count : s.next ≤ capacity
  empty : ∀ thread ∈ s.waitQ, s.next = 0
  newest : Lifo s.log (contents s.base s.next)
  once : (s.log.filterMap Entry.accepted).Perm
    (s.log.filterMap Entry.given ++ contents s.base s.next)
  returned : ∀ thread, s.log.filterMap (Entry.returnedBy thread) ++ (s.pc thread).inHand =
    s.log.filterMap (Entry.givenTo thread)

def State.Refuses (policy : Policy Tid) (s : State α) : Op α → Prop
  | .Push data => (s.kStackPush policy data).1 = ENOMEM ↔ s.next = s.top ∧ s.waitQ = []
  | _ => True

theorem contents_update (base : Nat → α) {n k : Nat} (h : n ≤ k) (data : α) :
    contents (update base k data) n = contents base n := by
  induction n with
  | zero => rfl
  | succ n ih =>
    have hne : n ≠ k := by omega
    rw [contents, contents, update_of_ne hne, ih (by omega)]

structure Inv (capacity : Nat) (s : State α) : Prop extends Delivers capacity s where
  parked : Parked Pc.IsPended s.waitQ s.pc

theorem kStackInit_inv (buf : Nat → α) (ne : Nat) : Inv ne (kStackInit buf ne) where
  top := rfl
  count := Nat.zero_le ne
  empty := fun _ hm => nomatch hm
  newest := .Empty
  once := by simp [kStackInit, contents]
  returned := by simp [kStackInit, Pc.inHand]
  parked := ⟨List.nodup_nil, by simp [kStackInit]⟩

theorem returned_update {log es : List (Entry α)} {pc : Tid → Pc α} {thread : Tid} {next : Pc α}
    (h : ∀ t, log.filterMap (Entry.returnedBy t) ++ (pc t).inHand = log.filterMap (Entry.givenTo t))
    (hs : es.filterMap (Entry.returnedBy thread) ++ next.inHand =
      (pc thread).inHand ++ es.filterMap (Entry.givenTo thread))
    (ho : ∀ t, t ≠ thread → es.filterMap (Entry.returnedBy t) = [] ∧ es.filterMap (Entry.givenTo t) = []) :
    ∀ t, (log ++ es).filterMap (Entry.returnedBy t) ++ (update pc thread next t).inHand =
      (log ++ es).filterMap (Entry.givenTo t) := by
  intro t
  rw [List.filterMap_append, List.filterMap_append]
  by_cases heq : t = thread
  · rw [heq, update_self, List.append_assoc, hs, ← List.append_assoc, h thread]
  · rw [update_of_ne heq, (ho t heq).1, (ho t heq).2, List.append_nil, List.append_nil, h t]

namespace Inv

variable {cap : Nat} {s : State α} {thread : Tid}

section

variable (h : Inv cap s)
include h

theorem stores (hw : s.waitQ = []) (hl : s.next < s.top) (data : α) : Inv cap { s with
      base := update s.base s.next data
      next := s.next + 1
      log := s.log ++ [.Store data] } := by
  have hc : contents (update s.base s.next data) (s.next + 1) = data :: contents s.base s.next := by
    rw [contents, update_self, contents_update s.base (Nat.le_refl s.next)]
  refine ⟨⟨h.top, ?_, ?_, ?_, ?_, ?_⟩, h.parked⟩
  · rw [← h.top]
    exact hl
  · intro thread hm
    rw [hw] at hm
    cases hm
  · rw [hc]
    exact h.newest.Store data
  · have he : (contents s.base s.next ++ [data]).Perm (data :: contents s.base s.next) :=
      List.perm_append_singleton _ _
    have ha := h.once.append_right [data]
    rw [List.append_assoc] at ha
    rw [hc, List.filterMap_append, List.filterMap_append]
    simpa [List.filterMap_cons, Entry.accepted, Entry.given] using ha.trans (he.append_left _)
  · intro t
    simpa [List.filterMap_cons, Entry.returnedBy, Entry.givenTo] using h.returned t

theorem hands (hm : thread ∈ s.waitQ) (data : α) : Inv cap { s with
      waitQ := s.waitQ.erase thread
      pc := update s.pc thread (.Woken 0 (some data))
      log := s.log ++ [.Hand thread data] } := by
  have he := h.empty thread hm
  obtain ⟨timeout, hp⟩ := h.parked.waits thread hm
  refine ⟨⟨h.top, h.count, fun _ _ => he, h.newest.Other _ rfl, ?_, ?_⟩, h.parked.dequeue thread _⟩
  · have hb := h.once
    rw [he] at hb ⊢
    simpa [List.filterMap_cons, contents, Entry.accepted, Entry.given] using
      hb.append_right [data]
  · refine returned_update h.returned ?_ ?_
    · simp [List.filterMap_cons, hp, Pc.inHand, Entry.returnedBy, Entry.givenTo, EAGAIN]
    · intro t hne
      simp [List.filterMap_cons, Entry.returnedBy, Entry.givenTo, Ne.symm hne]

theorem notes {e : Entry α} (har : e.inArray = false) (ha : e.accepted = none)
    (hg : e.given = none) (ht : ∀ t, e.returnedBy t = none ∧ e.givenTo t = none) :
    Inv cap { s with log := s.log ++ [e] } := by
  refine ⟨⟨h.top, h.count, h.empty, h.newest.Other e har, ?_, ?_⟩, h.parked⟩
  · simpa [List.filterMap_cons, ha, hg] using h.once
  · intro t
    simpa [List.filterMap_cons, (ht t).1, (ht t).2] using h.returned t

theorem takes (hpc : s.pc thread = .Running) {n : Nat} (hn : s.next = n + 1) (ret : Int) : Inv cap { s with
      next := n
      log := s.log ++ [.Take thread (s.base n), .Return thread ret (some (s.base n))] } := by
  refine ⟨⟨h.top, ?_, ?_, ?_, ?_, ?_⟩, h.parked⟩
  · have hc := h.count
    show n ≤ cap
    omega
  · intro o hm
    have he := h.empty o hm
    omega
  · have hb := h.newest
    rw [hn, contents] at hb
    have ha := (hb.Take thread (s.base n)).Other (.Return thread ret (some (s.base n))) rfl
    simpa using ha
  · have hb := h.once
    rw [hn, contents] at hb
    simpa [List.filterMap_cons, Entry.accepted, Entry.given] using hb
  · have ha := @returned_update α s.log
      [.Take thread (s.base n), .Return thread ret (some (s.base n))] s.pc thread (s.pc thread)
      h.returned (by simp [List.filterMap_cons, hpc, Pc.inHand, Entry.returnedBy, Entry.givenTo])
      (fun t hne => by simp [List.filterMap_cons, Entry.returnedBy, Entry.givenTo, Ne.symm hne])
    rwa [update_eq_self] at ha

theorem waits (hpc : s.pc thread = .Running) (he : s.next = 0) (timeout : Timeout) : Inv cap { s with
      waitQ := s.waitQ ++ [thread]
      pc := update s.pc thread (.Pended timeout) } := by
  refine ⟨⟨h.top, h.count, fun _ _ => he, h.newest, h.once, ?_⟩, ?_⟩
  · have ha := @returned_update α s.log [] s.pc thread (.Pended timeout) h.returned
      (by simp [hpc, Pc.inHand]) (fun _ _ => ⟨rfl, rfl⟩)
    rwa [List.append_nil] at ha
  · exact h.parked.enqueue thread (by simp [Pc.IsPended, hpc]) ⟨timeout, rfl⟩

theorem timeOut {timeout : Timeout} (hpc : s.pc thread = .Pended timeout) : Inv cap (s.timeOut thread) := by
  refine ⟨⟨h.top, h.count, ?_, h.newest, h.once, ?_⟩, h.parked.dequeue thread _⟩
  · intro o hm
    exact h.empty o (List.mem_of_mem_erase hm)
  · have ha := @returned_update α s.log [] s.pc thread (.Woken EAGAIN none) h.returned
      (by simp [hpc, Pc.inHand]) (fun _ _ => ⟨rfl, rfl⟩)
    rwa [List.append_nil] at ha

theorem returns (hw : thread ∉ s.waitQ) (ret : Int) {data : Option α} (hd : data.toList = (s.pc thread).inHand) :
    Inv cap { s with
      pc := update s.pc thread .Running
      log := s.log ++ [.Return thread ret data] } := by
  refine ⟨⟨h.top, h.count, h.empty, h.newest.Other _ rfl, ?_, ?_⟩, h.parked.update thread hw _⟩
  · simpa [List.filterMap_cons, Entry.accepted, Entry.given] using h.once
  · refine returned_update h.returned ?_ ?_
    · rw [← hd]
      cases data <;> simp [List.filterMap_cons, Pc.inHand, Entry.returnedBy, Entry.givenTo]
    · intro t hne
      simp [List.filterMap_cons, Entry.returnedBy, Entry.givenTo, Ne.symm hne]

theorem resume {ret : Int} {swap : Option α} (hpc : s.pc thread = .Woken ret swap) :
    Inv cap (s.resume thread ret swap) := by
  have hw : thread ∉ s.waitQ := h.parked.not_mem thread (by simp [Pc.IsPended, hpc])
  unfold State.resume
  by_cases hr : ret = EAGAIN
  · simp only [if_pos hr]
    refine h.returns hw EAGAIN ?_
    cases swap <;> simp [hpc, hr, Pc.inHand]
  · simp only [if_neg hr]
    refine h.returns hw 0 ?_
    cases swap <;> simp [hpc, hr, Pc.inHand]

theorem kStackPush (pol : Policy Tid) (data : α) : Inv cap (s.kStackPush pol data).2 := by
  unfold State.kStackPush
  rw [galeKStackPushDecide_eq]
  by_cases hw : s.waitQ = []
  · have hn : decide (s.waitQ ≠ []) = false := by simp [hw]
    simp only [hn, Bool.false_eq_true, if_false]
    by_cases hl : s.next < s.top
    · simp only [if_pos hl]
      exact h.stores hw hl data
    · simp only [if_neg hl]
      exact h.notes (e := .Refuse data) rfl rfl rfl fun _ => ⟨rfl, rfl⟩
  · have hs : decide (s.waitQ ≠ []) = true := by simp [hw]
    simp only [hs, if_true]
    unfold State.wakeFirst
    rcases pol.take_cases s.waitQ with ⟨hnl, -⟩ | ⟨thread, hm, ht⟩
    · exact absurd hnl hw
    · rw [ht]
      exact h.hands hm data

theorem kStackPop (hpc : s.pc thread = .Running) (timeout : Timeout) : Inv cap (s.kStackPop thread timeout) := by
  unfold State.kStackPop
  rw [galeKStackPopDecide_eq]
  by_cases hp : s.next > 0
  · obtain ⟨n, hn⟩ := Nat.exists_eq_add_one.mpr hp
    simp only [hn, Nat.add_sub_cancel]
    exact h.takes hpc hn OK
  · simp only [if_neg hp]
    cases timeout.isNoWait with
    | true =>
      exact h.notes (e := .Return thread EBUSY none) rfl rfl rfl
        fun t => ⟨by simp [Entry.returnedBy], rfl⟩
    | false =>
      exact h.waits hpc (by omega) timeout

end

end Inv

theorem step_inv {pol : Policy Tid} {capacity : Nat} {s next : State α} {op : Op α}
    (h : Inv capacity s) (hs : step pol s op = some next) : Inv capacity next := by
  cases op with
  | Push data =>
    cases hs
    exact h.kStackPush pol data
  | Pop thread timeout =>
    simp only [step] at hs
    split at hs
    · next hpc =>
        cases hs
        exact h.kStackPop hpc timeout
    · cases hs
  | TimeOut thread =>
    simp only [step] at hs
    split at hs
    · next hpc =>
        obtain ⟨-, hn⟩ := Option.ite_none_right_eq_some.mp hs
        cases hn
        exact h.timeOut hpc
    · cases hs
  | Resume thread =>
    simp only [step] at hs
    split at hs
    · next hpc =>
        cases hs
        exact h.resume hpc
    · cases hs

theorem refuses_iff {pol : Policy Tid} {capacity : Nat} {s : State α} (h : Inv capacity s)
    (op : Op α) : s.Refuses pol op := by
  cases op with
  | Push data =>
    have hc := h.count
    have ht := h.top
    unfold State.Refuses State.kStackPush
    rw [galeKStackPushDecide_eq]
    by_cases hw : s.waitQ = []
    · by_cases hl : s.next < s.top
      · simp [hw, hl, OK, ENOMEM, Nat.ne_of_lt hl]
      · simp [hw, hl]
        omega
    · simp [hw, OK, ENOMEM]
  | _ => trivial

theorem stack_delivers_newest_first (policy : Policy Tid) (buffer : Nat → α) (numEntries : Nat)
    (ops : List (Op α)) :
    Throughout (step policy) (Delivers numEntries) (kStackInit buffer numEntries) ops ∧
      Along (step policy) (State.Refuses policy) (kStackInit buffer numEntries) ops := by
  have hi : Throughout (step policy) (Inv numEntries) (kStackInit buffer numEntries) ops :=
    throughout_of_step (fun _ _ _ h hs => step_inv h hs) (kStackInit_inv buffer numEntries) ops
  exact ⟨hi.mono fun _ h => h.toDelivers, hi.along fun _ op h => refuses_iff h op⟩

end Gale.Stack
