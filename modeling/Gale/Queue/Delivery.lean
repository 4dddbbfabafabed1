import Gale.Lib.Run
import Gale.Lib.WaitQueue
import Gale.Queue

namespace Gale.Queue

open Function Lib

variable {α : Type*}

namespace Entry

def inserted : Entry α → Option α
  | .Append data => some data
  | .Prepend data => some data
  | _ => none

def handed : Entry α → Option α
  | .Hand _ data => some data
  | _ => none

def handedTo (thread : Tid) : Entry α → Option α
  | .Hand other data => if other = thread then some data else none
  | _ => none

def returnedBy (thread : Tid) : Entry α → Option α
  | .Return other data => if other = thread then data else none
  | _ => none

def isPrepend : Entry α → Bool
  | .Prepend _ => true
  | _ => false

end Entry

def Pc.inHand : Pc α → List α
  | .Woken ret (some data) => if ret = 0 then [data] else []
  | _ => []

def Pc.IsPended (pc : Pc α) : Prop := ∃ timeout, pc = .Pended timeout

def items (s : State α) : List α := s.dataQ.map zQueueNodePeek

-- What was inserted was handed to a get or is in the queue; a get returns what it
-- was handed, and nothing else; nobody waits while there is something to take; and
-- without insertions at the front the items go out as they came.
structure ExactlyOnce (s : State α) : Prop where
  inserted : (s.log.filterMap Entry.inserted).Perm (s.log.filterMap Entry.handed ++ items s)
  returned : ∀ thread, s.log.filterMap (Entry.returnedBy thread) ++ (s.pc thread).inHand =
    s.log.filterMap (Entry.handedTo thread)
  empty : ∀ thread ∈ s.waitQ, s.dataQ = []
  inOrder : s.log.any Entry.isPrepend = false →
    s.log.filterMap Entry.inserted = s.log.filterMap Entry.handed ++ items s

-- The same with some items inserted that are still in the hands of the call.
structure Inv (s : State α) (rest : List α) : Prop where
  parked : Parked Pc.IsPended s.waitQ s.pc
  inserted : (s.log.filterMap Entry.inserted).Perm
    (s.log.filterMap Entry.handed ++ items s ++ rest)
  returned : ∀ thread, s.log.filterMap (Entry.returnedBy thread) ++ (s.pc thread).inHand =
    s.log.filterMap (Entry.handedTo thread)
  empty : s.waitQ ≠ [] → s.dataQ = []
  inOrder : s.log.any Entry.isPrepend = false →
    s.log.filterMap Entry.inserted = s.log.filterMap Entry.handed ++ items s ++ rest

theorem Inv.exactlyOnce {s : State α} (h : Inv s []) : ExactlyOnce s where
  inserted := by simpa using h.inserted
  returned := h.returned
  empty := fun _ hm => h.empty (List.ne_nil_of_mem hm)
  inOrder := by simpa using h.inOrder

theorem kQueueInit_inv : Inv (kQueueInit : State α) [] where
  parked := ⟨List.nodup_nil, by simp [kQueueInit]⟩
  inserted := by simp [kQueueInit, items]
  returned := by simp [kQueueInit, Pc.inHand]
  empty := fun hne => absurd rfl hne
  inOrder := by simp [kQueueInit, items]

theorem galeKQueueInsertDecide_none : galeKQueueInsertDecide false = .Insert := rfl

theorem sflistInsert_peekTail (list : List (Node α)) (node : Node α) :
    sflistInsert list (peekTail list) node = list ++ [node] := by
  unfold peekTail
  split
  · next hn =>
      subst hn
      rfl
  · next hne =>
      have hp := List.length_pos_iff.mpr hne
      have hl : list.length - 1 + 1 = list.length := by omega
      simp [sflistInsert, hl]

namespace State

variable (pol : Policy Tid) (s : State α)

theorem zUnpendFirstThread_cases : (s.waitQ = [] ∧ s.zUnpendFirstThread pol = (none, s)) ∨
    ∃ t ∈ s.waitQ, s.zUnpendFirstThread pol = (some t, { s with
        waitQ := s.waitQ.erase t
        pc := update s.pc t .Unpended }) := by
  unfold zUnpendFirstThread
  rcases pol.take_cases s.waitQ with ⟨hn, ht⟩ | ⟨t, hm, ht⟩
  · rw [ht]
    exact .inl ⟨hn, rfl⟩
  · rw [ht]
    exact .inr ⟨t, hm, rfl⟩

end State

namespace Inv

variable {s : State α} {rest : List α}

theorem inserts (h : Inv s []) {es : List (Entry α)} {data : List α} (hi : es.filterMap Entry.inserted = data)
    (hh : es.filterMap Entry.handed = [])
    (ht : ∀ t, es.filterMap (Entry.handedTo t) = [] ∧
      es.filterMap (Entry.returnedBy t) = []) : Inv (s.record es) data where
  parked := h.parked
  inserted := by
    have hbf := h.inserted
    simp only [List.append_nil] at hbf
    simp only [State.record, List.filterMap_append, hi, hh, List.append_nil]
    exact hbf.append_right data
  returned := by
    intro t
    simpa [State.record, (ht t).1, (ht t).2] using h.returned t
  empty := h.empty
  inOrder := by
    intro hb
    simp only [State.record, List.any_append, Bool.or_eq_false_iff] at hb
    have hbf := h.inOrder hb.1
    simp only [State.record, List.filterMap_append, hi, hh, List.append_nil, hbf]
    rfl

theorem appends (h : Inv s []) (data : List α) : Inv (s.record (data.map .Append)) data :=
  h.inserts (by simp [List.filterMap_map, comp_def, Entry.inserted])
    (by simp [List.filterMap_map, comp_def, Entry.handed])
    fun t => by
      simp [List.filterMap_map, comp_def, Entry.handedTo, Entry.returnedBy]

theorem prepends (h : Inv s []) (data : α) : Inv (s.record [.Prepend data]) [data] :=
  h.inserts rfl rfl fun _ => ⟨rfl, rfl⟩

variable {t : Tid} {data : α} {nodes : List (Node α)} {node : Node α}

theorem unpended (h : Inv s rest) (hm : t ∈ s.waitQ) : Inv { s with
      waitQ := s.waitQ.erase t
      pc := update s.pc t .Unpended } rest where
  parked := h.parked.dequeue t _
  inserted := h.inserted
  returned := by
    intro o
    by_cases heq : o = t
    · obtain ⟨timeout, hpc⟩ := h.parked.waits t hm
      have hb := h.returned t
      simpa [heq, hpc, Pc.inHand] using hb
    · simpa only [update_of_ne heq] using h.returned o
  empty := fun _ => h.empty (List.ne_nil_of_mem hm)
  inOrder := h.inOrder

theorem hands (h : Inv s (data :: rest)) (hpc : s.pc t = .Unpended) (hd : s.dataQ = []) :
    Inv (s.prepareThreadToRun t (some data)) rest where
  parked := h.parked.update t (h.parked.not_mem t (by simp [Pc.IsPended, hpc])) _
  inserted := by
    have hbf := h.inserted
    simpa [State.prepareThreadToRun, items, hd, List.filterMap_cons, Entry.inserted, Entry.handed] using hbf
  returned := by
    intro o
    have hbf := h.returned o
    by_cases heq : o = t
    · subst heq
      rw [hpc] at hbf
      simp only [Pc.inHand, List.append_nil] at hbf
      simp [State.prepareThreadToRun, Entry.handedTo, Entry.returnedBy, Pc.inHand, hbf]
    · simpa [State.prepareThreadToRun, List.filterMap_cons, Entry.handedTo, Entry.returnedBy, heq,
        Ne.symm heq] using hbf
  empty := h.empty
  inOrder := by
    intro hb
    simp only [State.prepareThreadToRun, List.any_append, Bool.or_eq_false_iff] at hb
    have hbf := h.inOrder hb.1
    simpa [State.prepareThreadToRun, items, hd, List.filterMap_cons, Entry.inserted, Entry.handed] using hbf

theorem cancels (h : Inv s rest) (hpc : s.pc t = .Unpended) : Inv (s.prepareThreadToRun t none) rest where
  parked := h.parked.update t (h.parked.not_mem t (by simp [Pc.IsPended, hpc])) _
  inserted := by simpa [State.prepareThreadToRun, items] using h.inserted
  returned := by
    intro o
    have hb := h.returned o
    by_cases heq : o = t
    · subst heq
      rw [hpc] at hb
      simpa [State.prepareThreadToRun, Pc.inHand] using hb
    · simpa [State.prepareThreadToRun, heq] using hb
  empty := h.empty
  inOrder := by simpa [State.prepareThreadToRun, items] using h.inOrder

theorem stores (h : Inv s rest) (hw : rest ≠ [] → s.waitQ = []) (hn : nodes.map zQueueNodePeek = rest) :
    Inv { s with dataQ := s.dataQ ++ nodes } [] where
  parked := h.parked
  inserted := by simpa [items, hn, List.append_assoc] using h.inserted
  returned := h.returned
  empty := by
    intro hne
    have hnl : rest = [] := by
      by_contra hrest
      exact hne (hw hrest)
    rw [hnl, List.map_eq_nil_iff] at hn
    simpa [hn] using h.empty hne
  inOrder := by simpa [items, hn, List.append_assoc] using h.inOrder

theorem storesFront (h : Inv s [data]) (hw : s.waitQ = [])
    (hn : zQueueNodePeek node = data) (hf : s.log.any Entry.isPrepend = true) :
    Inv { s with dataQ := node :: s.dataQ } [] where
  parked := h.parked
  inserted := by
    have hp : (items s ++ [data]).Perm (data :: items s) := List.perm_append_singleton _ _
    have hbf := h.inserted
    rw [List.append_assoc] at hbf
    simpa [items, hn] using hbf.trans (hp.append_left _)
  returned := h.returned
  empty := fun hne => absurd hw hne
  inOrder := by
    intro hb
    simp only [hf, Bool.true_eq_false] at hb

variable (pol : Policy Tid)

theorem queueInsert (h : Inv s []) (data : α) (alloc isAppend allocOk : Bool) :
    Inv (s.queueInsert pol none data alloc isAppend allocOk).1 [] := by
  have hc : Inv (s.record [if isAppend then .Append data else .Prepend data]) [data] := by
    cases isAppend with
    | true => exact h.appends [data]
    | false => exact h.prepends data
  unfold State.queueInsert
  rcases s.zUnpendFirstThread_cases pol with ⟨hw, hu⟩ | ⟨t, hm, hu⟩
  · rw [hu]
    have hn : zQueueNodePeek (if alloc then Node.Alloc data else .Item data) = data := by
      cases alloc <;> rfl
    simp only [Option.isSome_none, galeKQueueInsertDecide_none]
    by_cases hf : alloc = true ∧ ¬ allocOk = true
    · rw [if_pos hf]
      exact h
    · rw [if_neg hf]
      cases isAppend with
      | true =>
        simp only [if_true, sflistInsert_peekTail]
        exact hc.stores (fun _ => hw) (by simp only [List.map_singleton, hn])
      | false => exact hc.storesFront hw hn (by simp [State.record, Entry.isPrepend])
  · rw [hu]
    have ho := hc.unpended hm
    exact ho.hands (by simp) (h.empty (List.ne_nil_of_mem hm))

theorem handLoop {t : Option Tid} (h : Inv s rest) (hn : t = none → s.waitQ = [])
    (hs : ∀ chosen, t = some chosen → s.pc chosen = .Unpended ∧ s.dataQ = []) :
    Inv (State.handLoop pol s t rest).1 (State.handLoop pol s t rest).2 ∧
      ((State.handLoop pol s t rest).2 ≠ [] → (State.handLoop pol s t rest).1.waitQ = []) := by
  induction rest generalizing s t with
  | nil =>
    have he : State.handLoop pol s t [] = (s, []) := by cases t <;> rfl
    rw [he]
    exact ⟨h, fun hne => absurd rfl hne⟩
  | cons head rest ih =>
    cases t with
    | none => exact ⟨h, fun _ => hn rfl⟩
    | some chosen =>
      obtain ⟨hpc, hd⟩ := hs chosen rfl
      have hg := h.hands hpc hd
      simp only [State.handLoop]
      rcases (s.prepareThreadToRun chosen (some head)).zUnpendFirstThread_cases pol with
        ⟨hwait, hunpend⟩ | ⟨next, hmem, hunpend⟩
      · rw [hunpend]
        exact ih hg (fun _ => hwait) (fun _ heq => by cases heq)
      · rw [hunpend]
        refine ih (hg.unpended hmem) (fun heq => by cases heq) fun o heq => ?_
        cases heq
        exact ⟨update_self .., hd⟩

theorem appendList (h : Inv s []) (data : List α) : Inv (s.kQueueAppendList pol data).1 [] := by
  unfold State.kQueueAppendList
  split
  · exact h
  · have hc := h.appends data
    have hnd (left : List α) : (left.map Node.Item).map zQueueNodePeek = left := by
      simp [comp_def, zQueueNodePeek]
    have hl (st : State α) (t : Option Tid) (hs : Inv st data)
        (hn : t = none → st.waitQ = [])
        (hsm : ∀ chosen, t = some chosen → st.pc chosen = .Unpended ∧ st.dataQ = []) :
        Inv { (State.handLoop pol st t data).1 with
          dataQ := (State.handLoop pol st t data).1.dataQ ++ (State.handLoop pol st t data).2.map .Item } [] := by
      obtain ⟨hd, hw⟩ := hs.handLoop pol hn hsm
      exact hd.stores hw (hnd _)
    rcases (s.record (data.map .Append)).zUnpendFirstThread_cases pol with
      ⟨hw, hunpend⟩ | ⟨t, hmem, hunpend⟩
    · rw [hunpend]
      exact hl _ _ hc (fun _ => hw) (fun _ heq => by cases heq)
    · rw [hunpend]
      refine hl _ _ (hc.unpended hmem) (fun heq => by cases heq) fun o heq => ?_
      cases heq
      exact ⟨update_self .., h.empty (List.ne_nil_of_mem hmem)⟩

theorem dequeues (h : Inv s []) (hpc : s.pc t = .Running) (hd : s.dataQ = node :: nodes) :
    Inv { s.record [.Hand t (zQueueNodePeek node), .Return t (some (zQueueNodePeek node))]
      with dataQ := nodes } [] where
  parked := h.parked
  inserted := by
    simpa [State.record, items, hd, List.filterMap_cons, Entry.inserted, Entry.handed]
      using h.inserted
  returned := by
    intro o
    have hb := h.returned o
    by_cases heq : o = t
    · subst heq
      rw [hpc] at hb
      simp only [Pc.inHand, List.append_nil] at hb
      simp [State.record, Entry.handedTo, Entry.returnedBy, List.filterMap_cons, hpc, Pc.inHand, hb]
    · simpa [State.record, List.filterMap_cons, Entry.handedTo, Entry.returnedBy, Ne.symm heq]
        using hb
  empty := by
    intro hne
    cases hd.symm.trans (h.empty hne)
  inOrder := by
    simpa [State.record, items, hd, List.filterMap_cons, Entry.inserted, Entry.handed, Entry.isPrepend] using h.inOrder

theorem returnsNothing (h : Inv s []) (t : Tid) : Inv (s.record [.Return t none]) [] where
  parked := h.parked
  inserted := by
    simpa [State.record, items, List.filterMap_cons, Entry.inserted, Entry.handed] using h.inserted
  returned := by
    intro o
    simpa [State.record, List.filterMap_cons, Entry.handedTo, Entry.returnedBy]
      using h.returned o
  empty := h.empty
  inOrder := by
    simpa [State.record, items, List.filterMap_cons, Entry.inserted, Entry.handed, Entry.isPrepend]
      using h.inOrder

theorem pends (h : Inv s []) (timeout : Timeout) (hpc : s.pc t = .Running) (hd : s.dataQ = []) : Inv { s with
      waitQ := s.waitQ ++ [t]
      pc := update s.pc t (.Pended timeout) } [] where
  parked := h.parked.enqueue t (by simp [Pc.IsPended, hpc]) ⟨timeout, rfl⟩
  inserted := h.inserted
  returned := by
    intro o
    by_cases heq : o = t
    · have hb := h.returned t
      simpa [heq, hpc, Pc.inHand] using hb
    · simpa only [update_of_ne heq] using h.returned o
  empty := fun _ => hd
  inOrder := h.inOrder

theorem get (h : Inv s []) (timeout : Timeout) (hpc : s.pc t = .Running) : Inv (s.kQueueGet t timeout) [] := by
  unfold State.kQueueGet
  cases hd : s.dataQ with
  | cons node nodes => exact h.dequeues hpc hd
  | nil =>
    cases hw : timeout.isNoWait with
    | true => exact h.returnsNothing t
    | false =>
      have hp := h.pends timeout hpc hd
      rw [hd] at hp
      exact hp

theorem cancelWait (h : Inv s []) : Inv (s.kQueueCancelWait pol) [] := by
  unfold State.kQueueCancelWait
  rcases s.zUnpendFirstThread_cases pol with ⟨_, hu⟩ | ⟨t, hm, hu⟩
  · rw [hu]
    exact h
  · rw [hu]
    exact (h.unpended hm).cancels (by simp)

theorem timeOut (h : Inv s []) {timeout : Timeout} (hpc : s.pc t = .Pended timeout) : Inv (s.timeOut t) [] where
  parked := h.parked.dequeue t _
  inserted := h.inserted
  returned := by
    intro o
    by_cases heq : o = t
    · have hb := h.returned t
      simpa [State.timeOut, heq, hpc, Pc.inHand] using hb
    · simpa only [State.timeOut, update_of_ne heq] using h.returned o
  empty := by
    intro hne
    refine h.empty fun hn => hne ?_
    simp [State.timeOut, hn]
  inOrder := h.inOrder

theorem inHand_woken (ret : Int) (swap : Option α) :
    (Pc.Woken ret swap).inHand = (if ret ≠ 0 then none else swap).toList := by
  cases swap with
  | none | some data => by_cases hr : ret = 0 <;> simp [Pc.inHand, hr]

theorem resume (h : Inv s []) {ret : Int} {swap : Option α}
    (hpc : s.pc t = .Woken ret swap) : Inv (s.resume t ret swap) [] where
  parked := h.parked.update t (h.parked.not_mem t (by simp [Pc.IsPended, hpc])) _
  inserted := by
    simpa [State.resume, State.record, items, List.filterMap_cons, Entry.inserted, Entry.handed]
      using h.inserted
  returned := by
    intro o
    have hb := h.returned o
    by_cases heq : o = t
    · subst heq
      rw [hpc, inHand_woken] at hb
      simp only [State.resume, State.record, List.filterMap_append, ← hb, update_self]
      generalize (if ret ≠ 0 then none else swap) = result
      cases result <;> simp [List.filterMap_cons, Entry.returnedBy, Entry.handedTo, Pc.inHand]
    · simpa [State.resume, State.record, List.filterMap_cons, Entry.handedTo, Entry.returnedBy, heq,
        Ne.symm heq] using hb
  empty := h.empty
  inOrder := by
    simpa [State.resume, State.record, items, List.filterMap_cons, Entry.inserted, Entry.handed,
      Entry.isPrepend] using h.inOrder

theorem step {next : State α} {op : Op α} (h : Inv s []) (hs : step pol s op = some next) : Inv next [] := by
  cases op with
  | Append data =>
    cases hs
    exact h.queueInsert pol data false true true
  | Prepend data =>
    cases hs
    exact h.queueInsert pol data false false true
  | AllocAppend data allocOk =>
    cases hs
    exact h.queueInsert pol data true true allocOk
  | AllocPrepend data allocOk =>
    cases hs
    exact h.queueInsert pol data true false allocOk
  | AppendList data =>
    cases hs
    exact h.appendList pol data
  | Get t timeout =>
    simp only [Queue.step] at hs
    split at hs
    · next hpc =>
        cases hs
        exact h.get timeout hpc
    · cases hs
  | CancelWait =>
    cases hs
    exact h.cancelWait pol
  | TimeOut t =>
    simp only [Queue.step] at hs
    split at hs
    · next timeout hpc =>
        split at hs
        · cases hs
          exact h.timeOut hpc
        · cases hs
    · cases hs
  | Resume t =>
    simp only [Queue.step] at hs
    split at hs
    · next ret swap hpc =>
        cases hs
        exact h.resume hpc
    · cases hs

end Inv

end Gale.Queue
