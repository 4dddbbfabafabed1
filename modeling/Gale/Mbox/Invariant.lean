import Gale.Lib.Memory
import Gale.Lib.Run
import Gale.Lib.WaitQueue
import Gale.Mbox

namespace Gale.Mbox

open Function Lib

def Compatible (txMsg rxMsg : Msg) : Prop :=
  (txMsg.txTargetThread = K_ANY ∨ txMsg.txTargetThread = rxMsg.txTargetThread) ∧
    (rxMsg.rxSourceThread = K_ANY ∨ rxMsg.rxSourceThread = txMsg.rxSourceThread)

theorem mboxMessageMatch_eq_none {tx rxMsg : Msg} : mboxMessageMatch tx rxMsg = none ↔ ¬ Compatible tx rxMsg := by
  unfold mboxMessageMatch Compatible
  split
  · next h => simp [h]
  · next h => simp [h]

theorem mboxMessageMatch_rxMsg {tx rxMsg : Msg} {matched : Msg × Msg} (h : mboxMessageMatch tx rxMsg = some matched) :
    matched.2.info = tx.info ∧ matched.2.txData = tx.txData ∧ matched.2.rxSourceThread = tx.rxSourceThread ∧
      matched.2.size = galeMboxDataExchange tx.size rxMsg.size ∧
      matched.2.syncingThread = tx.syncingThread := by
  unfold mboxMessageMatch at h
  split at h
  · cases h
    exact ⟨rfl, rfl, rfl, rfl, rfl⟩
  · cases h

def Pc.IsSending (pc : Pc) : Prop := ∃ timeout, pc = .Sending timeout

def Pc.IsReceiving (pc : Pc) : Prop := ∃ rx buffer timeout, pc = .Receiving rx buffer timeout

def Pc.Uses (pc : Pc) (rx : Nat) : Prop :=
  (∃ buffer timeout, pc = .Receiving rx buffer timeout) ∨ ∃ buffer, pc = .Matched rx buffer

namespace State

def Posted (s : State) (sendingThread : Thread) : Prop :=
  ∃ message sender txMsg, s.number sendingThread = some message ∧
    s.sent[message]? = some (sender, txMsg) ∧
    s.txMsg sendingThread = { txMsg with rxSourceThread := some sender } ∧
    txMsg.syncingThread = some sendingThread ∧
    some message ∉ s.receipts.map Receipt.message

def Holds (s : State) (receiver : Tid) (rx : Nat) (sendingThread : Thread) : Prop :=
  s.pc sendingThread = .Suspended ∧ ∃ receipt ∈ s.receipts, receipt.message = s.number sendingThread ∧
      receipt.receiver = receiver ∧ receipt.rx = rx ∧ receipt.msg = s.rxMsg rx

end State

def Receipt.Shows (receipt : Receipt) (size : Nat) (sender : Tid) (txMsg : Msg) : Prop :=
  receipt.msg.info = txMsg.info ∧ receipt.msg.txData = txMsg.txData ∧
    receipt.msg.rxSourceThread = some sender ∧ receipt.msg.size = size

def Release.Of (release : Release) (receipt : Receipt) : Prop :=
  receipt.message = release.message ∧ receipt.receiver = release.receiver ∧ receipt.rx = release.rx ∧
    release.size = if release.discarded then 0 else receipt.msg.size

structure Inv (s : State) : Prop where
  senders : Parked Pc.IsSending s.txMsgQueue s.pc
  receivers : Parked Pc.IsReceiving s.rxMsgQueue fun tid => s.pc (.Actual tid)
  free_nodup : s.asyncMsgFree.Nodup
  free : ∀ slot ∈ s.asyncMsgFree, s.pc (.Dummy slot) = .Running
  apart : ∀ sendingThread ∈ s.txMsgQueue, ∀ receiver ∈ s.rxMsgQueue, ∀ rx buffer timeout,
    s.pc (.Actual receiver) = .Receiving rx buffer timeout →
      ¬ Compatible (s.txMsg sendingThread) (s.rxMsg rx)
  number_lt : ∀ thread message, s.number thread = some message → message < s.sent.length
  number_inj : ∀ thread other message, s.number thread = some message →
    s.number other = some message → thread = other
  posted : ∀ thread, (s.pc thread).IsSending → s.Posted thread
  receiving : ∀ tid rx buffer timeout, s.pc (.Actual tid) = .Receiving rx buffer timeout →
    s.rxUse rx = .InCall tid
  matched : ∀ tid rx buffer, s.pc (.Actual tid) = .Matched rx buffer →
    s.rxUse rx = .InCall tid ∧ ∃ thread, (s.rxMsg rx).syncingThread = some thread ∧
      s.Holds tid rx thread
  holding : ∀ tid rx thread, s.rxUse rx = .Holding tid →
    (s.rxMsg rx).syncingThread = some thread → s.Holds tid rx thread
  receipts_nodup : (s.receipts.map Receipt.message).Nodup
  receipts : ∀ receipt ∈ s.receipts, ∃ message sender txMsg, receipt.message = some message ∧
    s.sent[message]? = some (sender, txMsg) ∧
    receipt.Shows (galeMboxDataExchange txMsg.size receipt.wanted) sender txMsg
  releases_nodup : (s.releases.map Release.message).Nodup
  releases : ∀ release ∈ s.releases, ∃ receipt ∈ s.receipts, release.Of receipt
  told : ∀ release ∈ s.releases, ∀ thread, s.number thread = release.message →
    (s.txMsg thread).size = release.size
  suspended : ∀ thread, s.pc thread = .Suspended → s.number thread ∉ s.releases.map Release.message
  unreleased : ∀ receipt ∈ s.receipts, receipt.message ∉ s.releases.map Release.message →
    ∃ thread, s.number thread = receipt.message ∧ s.pc thread = .Suspended

theorem initMboxModule_inv (n : Nat) (tx : Thread → Msg) (rxMsg : Nat → Msg) : Inv (initMboxModule n tx rxMsg) where
  senders := ⟨List.nodup_nil, by simp [initMboxModule]⟩
  receivers := ⟨List.nodup_nil, by simp [initMboxModule]⟩
  free_nodup := List.nodup_reverse.mpr List.nodup_range
  free := fun _ _ => rfl
  apart := by simp [initMboxModule]
  number_lt := by simp [initMboxModule]
  number_inj := by simp [initMboxModule]
  posted := by simp [initMboxModule, Pc.IsSending]
  receiving := by simp [initMboxModule]
  matched := by simp [initMboxModule]
  holding := by simp [initMboxModule]
  receipts_nodup := List.nodup_nil
  receipts := by simp [initMboxModule]
  releases_nodup := List.nodup_nil
  releases := by simp [initMboxModule]
  told := by simp [initMboxModule]
  suspended := by simp [initMboxModule]
  unreleased := by simp [initMboxModule]

namespace Inv

variable {s : State} {sendingThread : Thread} {receiver : Tid} {rx : Nat}

theorem holds_unique (h : Inv s) {tid o : Tid} {place : Nat}
    (hh : s.Holds tid rx sendingThread) (ho : s.Holds o place sendingThread) :
    tid = o ∧ rx = place := by
  obtain ⟨-, r, hme, hms, htd, hrx, -⟩ := hh
  obtain ⟨-, receipt', hmm, hm, ht, hr, -⟩ := ho
  have heq : r = receipt' :=
    List.inj_on_of_nodup_map h.receipts_nodup hme hmm (hms.trans hm.symm)
  subst heq
  exact ⟨htd.symm.trans ht, hrx.symm.trans hr⟩

theorem number_not_released (h : Inv s) {m : Option Nat} (hn : m ∉ s.receipts.map Receipt.message) :
    m ∉ s.releases.map Release.message := by
  intro hm
  obtain ⟨release, hrl, rfl⟩ := List.mem_map.mp hm
  obtain ⟨r, hr, hof, -⟩ := h.releases release hrl
  exact hn (hof ▸ List.mem_map_of_mem hr)

theorem length_not_received (h : Inv s) : some s.sent.length ∉ s.receipts.map Receipt.message := by
  intro hmm
  obtain ⟨r, hr, hms⟩ := List.mem_map.mp hmm
  obtain ⟨m, snd, tx, hm, he, -⟩ := h.receipts r hr
  cases hm.symm.trans hms
  simp at he

theorem receivers_update (h : Inv s) {thread : Thread} (hpc : ¬ (s.pc thread).IsReceiving)
    (next : Pc) : Parked Pc.IsReceiving s.rxMsgQueue
      fun tid => update s.pc thread next (.Actual tid) := by
  refine ⟨h.receivers.nodup, fun tid ht => ?_⟩
  have hr := h.receivers.waits tid ht
  have hne : Thread.Actual tid ≠ thread := by
    rintro rfl
    exact hpc hr
  rw [update_of_ne hne]
  exact hr

theorem update_actual (pc : Thread → Pc) (receiver : Tid) (next : Pc) :
    (fun tid => update pc (.Actual receiver) next (.Actual tid)) =
      update (fun tid => pc (.Actual tid)) receiver next := by
  funext tid
  simp [update_apply, Thread.Actual.injEq]

theorem post (h : Inv s) (hpc : s.pc sendingThread = .Running) (current : Tid) (tx : Msg) :
    Inv (s.post sendingThread current tx) := by
  have hrn : ∀ {thread}, s.pc thread ≠ .Running → thread ≠ sendingThread := by
    rintro thread hne rfl
    exact hne hpc
  have hst : ∀ {m : Nat} {entry}, s.sent[m]? = some entry →
      (s.post sendingThread current tx).sent[m]? = some entry := by
    intro m entry he
    have hlt : m < s.sent.length := (List.getElem?_eq_some_iff.mp he).1
    simpa only [State.post, List.getElem?_append_left hlt] using he
  have hn : ∀ {thread}, s.pc thread ≠ .Running → (s.post sendingThread current tx).number thread = s.number thread :=
    fun hne => update_of_ne (hrn hne) _ _
  have htx : ∀ {thread}, s.pc thread ≠ .Running → (s.post sendingThread current tx).txMsg thread = s.txMsg thread :=
    fun hne => update_of_ne (hrn hne) _ _
  have hh : ∀ {tid place thread}, s.Holds tid place thread →
      (s.post sendingThread current tx).Holds tid place thread := by
    rintro tid place thread ⟨hs, hr⟩
    refine ⟨hs, ?_⟩
    rw [hn (by simp [hs])]
    exact hr
  refine
    { h with
      apart := ?_, number_lt := ?_, number_inj := ?_, posted := ?_, matched := ?_, holding := ?_
      receipts := ?_, told := ?_, suspended := ?_, unreleased := ?_ }
  · intro thread ht receiver hrc rx buf timeout hreceiving
    obtain ⟨t', hsn⟩ := h.senders.waits thread ht
    rw [htx (by simp [hsn])]
    exact h.apart thread ht receiver hrc rx buf timeout hreceiving
  · intro thread m hm
    simp only [State.post, List.length_append, List.length_singleton] at hm ⊢
    rcases update_cases hm with ⟨-, ⟨⟩⟩ | ⟨-, hol⟩
    · exact Nat.lt_succ_self _
    · exact Nat.lt_succ_of_lt (h.number_lt thread m hol)
  · intro thread o m ht ho
    rcases update_cases ht with ⟨heq, hl⟩ | ⟨-, ht⟩
    · rcases update_cases ho with ⟨heq', -⟩ | ⟨-, ho⟩
      · rw [heq, heq']
      · cases hl
        exact absurd (h.number_lt o _ ho) (Nat.lt_irrefl _)
    · rcases update_cases ho with ⟨-, hl⟩ | ⟨-, ho⟩
      · cases hl
        exact absurd (h.number_lt thread _ ht) (Nat.lt_irrefl _)
      · exact h.number_inj thread o m ht ho
  · intro thread hsn
    obtain ⟨timeout, hsd⟩ := hsn
    have hne : s.pc thread ≠ .Running := by
      intro hru
      cases hru.symm.trans hsd
    obtain ⟨m, snd, txMsg', hm, he, hrs⟩ := h.posted thread ⟨timeout, hsd⟩
    refine ⟨m, snd, txMsg', ?_, hst he, ?_, hrs.2⟩
    · rw [hn hne]
      exact hm
    · rw [htx hne]
      exact hrs.1
  · intro tid rx buf hmt
    obtain ⟨hu, thread, hsy, hol⟩ := h.matched tid rx buf hmt
    exact ⟨hu, thread, hsy, hh hol⟩
  · intro tid rx thread hu hsy
    exact hh (h.holding tid rx thread hu hsy)
  · intro r hr
    obtain ⟨m, snd, txMsg', hm, he, hsh⟩ := h.receipts r hr
    exact ⟨m, snd, txMsg', hm, hst he, hsh⟩
  · intro release hrl thread ht
    rcases update_cases ht with ⟨-, hl⟩ | ⟨hne, hol⟩
    · exact absurd (List.mem_map.mpr ⟨release, hrl, hl.symm⟩)
        (h.number_not_released h.length_not_received)
    · simp only [State.post, update_of_ne hne]
      exact h.told release hrl thread hol
  · intro thread hs
    rw [hn (by
      intro hru
      cases hru.symm.trans hs)]
    exact h.suspended thread hs
  · intro r hr hnt
    obtain ⟨thread, hm, hs⟩ := h.unreleased r hr hnt
    refine ⟨thread, ?_, hs⟩
    rw [hn (by simp [hs])]
    exact hm

theorem posted_post (h : Inv s) (current : Tid) {tx : Msg} (hs : tx.syncingThread = some sendingThread) :
    (s.post sendingThread current tx).Posted sendingThread := by
  refine ⟨s.sent.length, current, tx, update_self .., ?_, update_self .., hs, h.length_not_received⟩
  simp [State.post]

theorem setRx (h : Inv s) (hi : ∀ tid, ¬ (s.pc (.Actual tid)).Uses rx) (rxMsg : Msg) (use : RxUse)
    (hh : ∀ tid t, use = .Holding tid → rxMsg.syncingThread = some t →
      s.pc t = .Suspended ∧ ∃ r ∈ s.receipts, r.message = s.number t ∧ r.receiver = tid ∧ r.rx = rx ∧ r.msg = rxMsg) :
    Inv { s with
      rxMsg := update s.rxMsg rx rxMsg
      rxUse := update s.rxUse rx use } := by
  have ho : ∀ {tid place}, (s.pc (.Actual tid)).Uses place → place ≠ rx := by
    rintro tid place hu rfl
    exact hi tid hu
  refine { h with apart := ?_, receiving := ?_, matched := ?_, holding := ?_ }
  · intro t ht tid htd place buf timeout hr
    have hne : place ≠ rx := ho (.inl ⟨buf, timeout, hr⟩)
    simp only [update_of_ne hne]
    exact h.apart t ht tid htd place buf timeout hr
  · intro tid place buf timeout hr
    have hne : place ≠ rx := ho (.inl ⟨buf, timeout, hr⟩)
    simp only [update_of_ne hne]
    exact h.receiving tid place buf timeout hr
  · intro tid place buf hm
    have hne : place ≠ rx := ho (.inr ⟨buf, hm⟩)
    simp only [State.Holds, update_of_ne hne]
    exact h.matched tid place buf hm
  · intro tid place t hp hs
    by_cases heq : place = rx
    · subst heq
      simp only [update_self] at hp hs
      simp only [State.Holds, update_self]
      exact hh tid t hp hs
    · simp only [update_of_ne heq] at hp hs
      simp only [State.Holds, update_of_ne heq]
      exact h.holding tid place t hp hs

theorem move (h : Inv s) {t : Thread} {next : Pc} {txMsgQueue : List Thread}
    {rxMsgQueue : List Tid} (hpc : s.pc t ≠ .Suspended) (hn : next ≠ .Suspended)
    (hsn : Parked Pc.IsSending txMsgQueue (update s.pc t next))
    (hrc : Parked Pc.IsReceiving rxMsgQueue fun tid => update s.pc t next (.Actual tid))
    (hf : ∀ slot ∈ s.asyncMsgFree, t ≠ .Dummy slot)
    (ha : ∀ other ∈ txMsgQueue, ∀ tid ∈ rxMsgQueue, ∀ rx buf timeout,
      update s.pc t next (.Actual tid) = .Receiving rx buf timeout → ¬ Compatible (s.txMsg other) (s.rxMsg rx))
    (hp : next.IsSending → s.Posted t)
    (hrv : ∀ tid rx buf timeout, t = .Actual tid →
      next = .Receiving rx buf timeout → s.rxUse rx = .InCall tid)
    (hm : ∀ tid rx buf, t = .Actual tid → next = .Matched rx buf →
      s.rxUse rx = .InCall tid ∧ ∃ other, (s.rxMsg rx).syncingThread = some other ∧ s.Holds tid rx other) :
    Inv { s with txMsgQueue, rxMsgQueue, pc := update s.pc t next } := by
  have hk : ∀ {other}, s.pc other = .Suspended → update s.pc t next other = .Suspended := by
    intro other hs
    rw [update_of_ne ?_, hs]
    rintro rfl
    exact hpc hs
  refine
    { h with
      senders := hsn, receivers := hrc, free := ?_, apart := ha, posted := ?_
      receiving := ?_, matched := ?_, holding := ?_, suspended := ?_, unreleased := ?_ }
  · intro slot hsl
    simp only [update_of_ne (hf slot hsl).symm]
    exact h.free slot hsl
  · rintro other ⟨timeout, hsd⟩
    rcases update_cases hsd with ⟨rfl, hl⟩ | ⟨-, ho⟩
    · exact hp ⟨timeout, hl⟩
    · exact h.posted other ⟨timeout, ho⟩
  · intro tid rx buf timeout ht
    rcases update_cases ht with ⟨heq, hl⟩ | ⟨-, ho⟩
    · exact hrv tid rx buf timeout heq.symm hl
    · exact h.receiving tid rx buf timeout ho
  · intro tid rx buf ht
    have hw : s.rxUse rx = .InCall tid ∧ ∃ other, (s.rxMsg rx).syncingThread = some other ∧ s.Holds tid rx other := by
      rcases update_cases ht with ⟨heq, hl⟩ | ⟨-, ho⟩
      · exact hm tid rx buf heq.symm hl
      · exact h.matched tid rx buf ho
    obtain ⟨hu, other, hsy, hs, hr⟩ := hw
    exact ⟨hu, other, hsy, hk hs, hr⟩
  · intro tid rx other hu hsy
    obtain ⟨hs, hr⟩ := h.holding tid rx other hu hsy
    exact ⟨hk hs, hr⟩
  · intro other hs
    exact h.suspended other (of_update_ne hs hn).2
  · intro r hr hnt
    obtain ⟨other, hms, hs⟩ := h.unreleased r hr hnt
    exact ⟨other, hms, hk hs⟩

theorem pendTx (h : Inv s) (hpc : s.pc sendingThread = .Running) (hp : s.Posted sendingThread)
    (hf : ∀ slot ∈ s.asyncMsgFree, sendingThread ≠ .Dummy slot)
    (hn : ∀ receiver ∈ s.rxMsgQueue, ∀ rx buf timeout, s.pc (.Actual receiver) = .Receiving rx buf timeout →
        ¬ Compatible (s.txMsg sendingThread) (s.rxMsg rx)) (timeout : Timeout) :
    Inv { s with
      txMsgQueue := s.txMsgQueue ++ [sendingThread]
      pc := update s.pc sendingThread (.Sending timeout) } := by
  refine h.move (by simp [hpc]) (by simp) ?_ (h.receivers_update ?_ _) hf ?_
    (fun _ => hp) (by simp) (by simp)
  · exact h.senders.enqueue sendingThread (by simp [hpc, Pc.IsSending]) ⟨timeout, rfl⟩
  · simp [hpc, Pc.IsReceiving]
  · intro o ho tid ht rx buf t' hreceiving
    obtain ⟨-, hw⟩ := of_update_ne hreceiving (by simp)
    rcases List.mem_append.mp ho with hol | hl
    · exact h.apart o hol tid ht rx buf t' hw
    · rw [List.mem_singleton.mp hl]
      exact hn tid ht rx buf t' hw

theorem actual_ne_dummy (tid : Tid) : ∀ slot ∈ s.asyncMsgFree, Thread.Actual tid ≠ .Dummy slot :=
  fun _ _ heq => by cases heq

theorem pendRx (h : Inv s) (hpc : s.pc (.Actual receiver) = .Running) (hu : s.rxUse rx = .InCall receiver)
    (hn : ∀ t ∈ s.txMsgQueue, ¬ Compatible (s.txMsg t) (s.rxMsg rx)) (buf : Bool)
    (timeout : Timeout) :
    Inv { s with
      rxMsgQueue := s.rxMsgQueue ++ [receiver]
      pc := update s.pc (.Actual receiver) (.Receiving rx buf timeout) } := by
  refine h.move (by simp [hpc]) (by simp) ?_ ?_ (actual_ne_dummy receiver) ?_
    (by simp [Pc.IsSending]) ?_ (by simp)
  · exact h.senders.update _ (h.senders.not_mem _ (by simp [hpc, Pc.IsSending])) _
  · rw [update_actual]
    exact h.receivers.enqueue receiver (by simp [hpc, Pc.IsReceiving]) ⟨rx, buf, timeout, rfl⟩
  · intro o ho tid ht place buf' t' hreceiving
    by_cases heq : tid = receiver
    · subst heq
      rw [update_self] at hreceiving
      cases hreceiving
      exact hn o ho
    · rw [update_of_ne (by simpa using heq)] at hreceiving
      refine h.apart o ho tid ?_ place buf' t' hreceiving
      simpa [heq] using ht
  · intro tid place buf' t' ht hnx
    cases ht
    cases hnx
    exact hu

theorem uses_inCall (h : Inv s) {tid : Tid} (hu : (s.pc (.Actual tid)).Uses rx) : s.rxUse rx = .InCall tid := by
  rcases hu with ⟨buf, timeout, hr⟩ | ⟨buf, hm⟩
  · exact h.receiving tid rx buf timeout hr
  · exact (h.matched tid rx buf hm).1

theorem leave (h : Inv s) (hpc : s.pc (.Actual receiver) ≠ .Suspended) : Inv { s with
      txMsgQueue := s.txMsgQueue.erase (.Actual receiver)
      rxMsgQueue := s.rxMsgQueue.erase receiver
      pc := update s.pc (.Actual receiver) .Running } := by
  refine h.move hpc (by simp) (h.senders.dequeue _ _) ?_ (actual_ne_dummy receiver) ?_
    (by simp [Pc.IsSending]) (by simp) (by simp)
  · rw [update_actual]
    exact h.receivers.dequeue receiver _
  · intro o ho tid ht place buf timeout hreceiving
    obtain ⟨hne, hm⟩ := h.receivers.nodup.mem_erase_iff.mp ht
    rw [update_of_ne (by simpa using hne)] at hreceiving
    exact h.apart o (List.mem_of_mem_erase ho) tid hm place buf timeout hreceiving

theorem inCall_unique (hu : s.rxUse rx = .InCall receiver) (tid : Tid)
    (ht : s.rxUse rx = .InCall tid) : tid = receiver := by
  cases hu.symm.trans ht
  rfl

section

variable (h : Inv s)
include h

theorem vacate (hpc : s.pc (.Actual receiver) ≠ .Suspended)
    (hu : ∀ tid, s.rxUse rx = .InCall tid → tid = receiver) (rxMsg : Msg) (use : RxUse)
    (hh : ∀ tid t, use = .Holding tid → rxMsg.syncingThread = some t →
      s.pc t = .Suspended ∧ ∃ r ∈ s.receipts, r.message = s.number t ∧ r.receiver = tid ∧ r.rx = rx ∧ r.msg = rxMsg) :
    Inv { s with
      txMsgQueue := s.txMsgQueue.erase (.Actual receiver)
      rxMsgQueue := s.rxMsgQueue.erase receiver
      rxMsg := update s.rxMsg rx rxMsg
      rxUse := update s.rxUse rx use
      pc := update s.pc (.Actual receiver) .Running } := by
  refine (h.leave hpc).setRx (fun tid ho => ?_) rxMsg use fun tid t htd ht => ?_
  · by_cases heq : Thread.Actual tid = .Actual receiver
    · simp [heq, Pc.Uses] at ho
    · simp only [update_of_ne heq] at ho
      exact heq (congrArg _ (hu tid (h.uses_inCall ho)))
  · obtain ⟨hs, hr⟩ := hh tid t htd ht
    have hne : t ≠ .Actual receiver := by
      rintro rfl
      exact hpc hs
    exact ⟨(update_of_ne hne _ _).trans hs, hr⟩

variable {r : Receipt} {rxMsg : Msg}

theorem suspend (hp : s.Posted sendingThread) (hpc : s.pc sendingThread = .Running ∨ (s.pc sendingThread).IsSending)
    (hsn : sendingThread ∉ s.txMsgQueue)
    (hf : ∀ slot ∈ s.asyncMsgFree, sendingThread ≠ .Dummy slot) (txMsg : Msg)
    (hm : r.message = s.number sendingThread)
    (hsh : ∀ snd msg, s.txMsg sendingThread = { msg with rxSourceThread := some snd } →
      r.Shows (galeMboxDataExchange msg.size r.wanted) snd msg) :
    Inv { s with
      txMsg := update s.txMsg sendingThread txMsg
      pc := update s.pc sendingThread .Suspended
      receipts := s.receipts ++ [r] } := by
  obtain ⟨number, snd, msg, hn, hen, htx, hsc, hnew⟩ := hp
  have hk : ∀ {t}, s.pc t = .Suspended → update s.pc sendingThread .Suspended t = .Suspended := by
    intro t ht
    rw [update_apply, ht, ite_self]
  have hh : ∀ {tid place t}, s.Holds tid place t → update s.pc sendingThread .Suspended t = .Suspended ∧
        ∃ o ∈ s.receipts ++ [r], o.message = s.number t ∧ o.receiver = tid ∧ o.rx = place ∧ o.msg = s.rxMsg place := by
    rintro tid place t ⟨hs, o, hmm, ho⟩
    exact ⟨hk hs, o, List.mem_append_left _ hmm, ho⟩
  refine
    { h with
      senders := h.senders.update _ hsn _, receivers := ?_, free := ?_, apart := ?_
      posted := ?_, receiving := ?_, matched := ?_, holding := ?_, receipts_nodup := ?_
      receipts := ?_, releases := ?_, told := ?_, suspended := ?_, unreleased := ?_ }
  · refine h.receivers_update ?_ _
    rcases hpc with hpc | ⟨timeout, hpc⟩ <;> simp [hpc, Pc.IsReceiving]
  · intro slot hsl
    simp only [update_of_ne (hf slot hsl).symm]
    exact h.free slot hsl
  · intro t ht tid htd place buf timeout hr
    have hne : t ≠ sendingThread := by
      rintro rfl
      exact hsn ht
    simp only [update_of_ne hne]
    exact h.apart t ht tid htd place buf timeout (of_update_ne hr (by simp)).2
  · rintro t ⟨timeout, hse⟩
    obtain ⟨hne, hsd⟩ := of_update_ne hse (by simp)
    obtain ⟨message', sender', msg', hnm, he, htx', hsy, hnw⟩ :=
      h.posted t ⟨timeout, hsd⟩
    refine ⟨message', sender', msg', hnm, he, ?_, hsy, ?_⟩
    · simp only [update_of_ne hne]
      exact htx'
    · -- the message of another snd is another message
      intro hmm
      simp only [List.map_append, List.mem_append, List.map_cons, List.map_nil, List.mem_singleton] at hmm
      rcases hmm with hol | hl
      · exact hnw hol
      · exact hne (h.number_inj t sendingThread message' hnm (hm.symm.trans hl.symm))
  · intro tid place buf timeout hr
    exact h.receiving tid place buf timeout (of_update_ne hr (by simp)).2
  · intro tid place buf hmt
    obtain ⟨hu, t, ht, hol⟩ :=
      h.matched tid place buf (of_update_ne hmt (by simp)).2
    exact ⟨hu, t, ht, hh hol⟩
  · intro tid place t hu ht
    exact hh (h.holding tid place t hu ht)
  · rw [List.map_append, List.map_singleton, ← List.concat_eq_append]
    refine h.receipts_nodup.concat ?_
    rw [hm, hn]
    exact hnew
  · intro o hmm
    rcases List.mem_append.mp hmm with hol | hl
    · exact h.receipts o hol
    · rw [List.mem_singleton.mp hl]
      exact ⟨number, snd, msg, hm.trans hn, hen, hsh snd msg htx⟩
  · intro release hrl
    obtain ⟨o, ho, hof⟩ := h.releases release hrl
    exact ⟨o, List.mem_append_left _ ho, hof⟩
  · intro release hrl t ht
    have hne : t ≠ sendingThread := by
      rintro rfl
      rw [hn] at ht
      exact h.number_not_released hnew (List.mem_map.mpr ⟨release, hrl, ht.symm⟩)
    simp only [update_of_ne hne]
    exact h.told release hrl t ht
  · intro t hs
    by_cases heq : t = sendingThread
    · rw [heq, hn]
      exact h.number_not_released hnew
    · simp only [update_of_ne heq] at hs
      exact h.suspended t hs
  · intro o hmm hnt
    rcases List.mem_append.mp hmm with hol | hl
    · obtain ⟨t, ht, hs⟩ := h.unreleased o hol hnt
      exact ⟨t, ht, hk hs⟩
    · rw [List.mem_singleton.mp hl]
      exact ⟨sendingThread, hm.symm, update_self ..⟩

theorem accept (hpc : s.pc (.Actual receiver) = .Running ∨ (s.pc (.Actual receiver)).IsReceiving)
    (hr : receiver ∉ s.rxMsgQueue) (hu : ∀ tid, s.rxUse rx = .InCall tid → tid = receiver)
    (hsy : rxMsg.syncingThread = some sendingThread)
    (hs : s.pc sendingThread = .Suspended)
    (hrc : ∃ r ∈ s.receipts, r.message = s.number sendingThread ∧
      r.receiver = receiver ∧ r.rx = rx ∧ r.msg = rxMsg) (buf : Bool) :
    Inv { s with
      rxMsg := update s.rxMsg rx rxMsg
      rxUse := update s.rxUse rx (.InCall receiver)
      pc := update s.pc (.Actual receiver) (.Matched rx buf) } := by
  have hpc_ne : s.pc (.Actual receiver) ≠ .Suspended := by
    rcases hpc with hpc | ⟨place, buf', timeout, hpc⟩ <;> simp [hpc]
  have hsn : Thread.Actual receiver ∉ s.txMsgQueue := h.senders.not_mem _ (by
    rcases hpc with hpc | ⟨place, buf', timeout, hpc⟩ <;> simp [hpc, Pc.IsSending])
  have hv := h.vacate hpc_ne hu rxMsg (.InCall receiver) (by simp)
  rw [List.erase_of_not_mem hsn, List.erase_of_not_mem hr] at hv
  have hm : Inv { s with
      rxMsg := update s.rxMsg rx rxMsg
      rxUse := update s.rxUse rx (.InCall receiver)
      pc := update (update s.pc (.Actual receiver) .Running) (.Actual receiver)
        (.Matched rx buf) } := by
    refine hv.move (by simp) (by simp) (hv.senders.update _ hsn _) ?_
      (actual_ne_dummy receiver) ?_ (by simp [Pc.IsSending]) (by simp) ?_
    · rw [update_actual]
      exact hv.receivers.update receiver hr _
    · intro t ht tid htd place buf' timeout hreceiving
      exact hv.apart t ht tid htd place buf' timeout
        (of_update_ne hreceiving (by simp)).2
    · rintro tid place buf' ⟨⟩ ⟨⟩
      have hne : sendingThread ≠ .Actual receiver := by
        rintro rfl
        exact hpc_ne hs
      simp only [State.Holds, update_self]
      exact ⟨trivial, sendingThread, hsy, (update_of_ne hne _ _).trans hs, hrc⟩
  rwa [update_idem] at hm

theorem deliver (hp : s.Posted sendingThread) (hsd : s.pc sendingThread = .Running ∨ (s.pc sendingThread).IsSending)
    (hrc : s.pc (.Actual receiver) = .Running ∨ (s.pc (.Actual receiver)).IsReceiving)
    (hne : sendingThread ≠ .Actual receiver) (hsn : sendingThread ∉ s.txMsgQueue)
    (hr : receiver ∉ s.rxMsgQueue)
    (hf : ∀ slot ∈ s.asyncMsgFree, sendingThread ≠ .Dummy slot)
    (hu : ∀ tid, s.rxUse rx = .InCall tid → tid = receiver) (buf : Bool)
    {matched : Msg × Msg} (hm : mboxMessageMatch (s.txMsg sendingThread) rxMsg = some matched) :
    Inv (s.deliver sendingThread receiver rx buf rxMsg.size matched) := by
  obtain ⟨hi, hd, hs, hsz, hsy⟩ := mboxMessageMatch_rxMsg hm
  have hsc : matched.2.syncingThread = some sendingThread := by
    obtain ⟨_, _, msg, _, _, htx, hsc, _⟩ := hp
    rw [hsy, htx]
    exact hsc
  let receipt : Receipt := ⟨s.number sendingThread, receiver, rx, rxMsg.size, matched.2⟩
  have hsh : ∀ snd msg, s.txMsg sendingThread = { msg with rxSourceThread := some snd } →
      receipt.Shows (galeMboxDataExchange msg.size receipt.wanted) snd msg := by
    intro snd msg htx
    simp only [htx] at hi hd hs hsz
    exact ⟨hi, hd, hs, hsz⟩
  have hss := h.suspend hp hsd hsn hf matched.1 rfl hsh
  refine hss.accept ?_ hr hu hsc (update_self ..)
    ⟨receipt, List.mem_append_right _ (List.mem_singleton_self _), rfl, rfl, rfl, rfl⟩ buf
  simp only [update_of_ne hne.symm]
  exact hrc

theorem release (hpc : s.pc sendingThread = .Suspended)
    (hmt : ∀ tid place buf, s.pc (.Actual tid) = .Matched place buf →
      (s.rxMsg place).syncingThread ≠ some sendingThread)
    (hh : ∀ tid place, s.rxUse place = .Holding tid → (s.rxMsg place).syncingThread ≠ some sendingThread)
    (hrc : r ∈ s.receipts) (hm : r.message = s.number sendingThread)
    (hrv : r.receiver = receiver) (hrx : r.rx = rx) (disc : Bool)
    (hsz : (s.rxMsg rx).size = if disc then 0 else r.msg.size) (sem : Option Nat) :
    Inv (s.release sendingThread receiver rx disc sem) := by
  obtain ⟨number, snd, tx, hn, hen, hsh⟩ := h.receipts r hrc
  rw [hm] at hn
  have hhl : ∀ {tid place thread}, s.Holds tid place thread → thread ≠ sendingThread →
      (s.release sendingThread receiver rx disc sem).Holds tid place thread := by
    rintro tid place thread ⟨hs, hhl⟩ hne
    exact ⟨(update_of_ne hne _ _).trans hs, hhl⟩
  have hsr : sendingThread ∉ s.txMsgQueue :=
    h.senders.not_mem _ (by simp [hpc, Pc.IsSending])
  refine
    { h with
      senders := h.senders.update _ hsr _
      receivers := h.receivers_update (by simp [hpc, Pc.IsReceiving]) _
      free := ?_, apart := ?_, posted := ?_, receiving := ?_, matched := ?_, holding := ?_
      releases_nodup := ?_, releases := ?_, told := ?_, suspended := ?_, unreleased := ?_ }
  · intro slot hsl
    simp [State.release, update_apply, h.free slot hsl, ite_self]
  · intro thread ht tid hti place buf timeout hr
    have hne : thread ≠ sendingThread := by
      rintro rfl
      exact hsr ht
    simp only [State.release, update_of_ne hne]
    exact h.apart thread ht tid hti place buf timeout (of_update_ne hr (by simp)).2
  · rintro thread ⟨timeout, hsd⟩
    obtain ⟨hne, hsn⟩ := of_update_ne hsd (by simp)
    obtain ⟨m, sender', msg, hnm, he, htx, hrs⟩ :=
      h.posted thread ⟨timeout, hsn⟩
    exact ⟨m, sender', msg, hnm, he, (update_of_ne hne _ _).trans htx, hrs⟩
  · intro tid place buf timeout hr
    exact h.receiving tid place buf timeout (of_update_ne hr (by simp)).2
  · intro tid place buf hti
    obtain ⟨-, htd⟩ := of_update_ne hti (by simp)
    obtain ⟨hu, thread, hsy, hol⟩ := h.matched tid place buf htd
    refine ⟨hu, thread, hsy, hhl hol ?_⟩
    rintro rfl
    exact hmt tid place buf htd hsy
  · intro tid place thread hu hsy
    refine hhl (h.holding tid place thread hu hsy) ?_
    rintro rfl
    exact hh tid place hu hsy
  · simp only [State.release, List.map_append, List.map_singleton]
    rw [← List.concat_eq_append]
    exact h.releases_nodup.concat (h.suspended sendingThread hpc)
  · intro release hrl
    rcases List.mem_append.mp hrl with hol | hl
    · exact h.releases release hol
    · rw [List.mem_singleton.mp hl]
      exact ⟨r, hrc, hm, hrv, hrx, hsz⟩
  · intro release hrl thread ht
    simp only [State.release] at ht ⊢
    rcases List.mem_append.mp hrl with hol | hl
    · have hne : thread ≠ sendingThread := by
        rintro rfl
        exact h.suspended thread hpc (List.mem_map.mpr ⟨release, hol, ht.symm⟩)
      rw [update_of_ne hne]
      exact h.told release hol thread ht
    · rw [List.mem_singleton.mp hl] at ht ⊢
      rw [h.number_inj thread sendingThread number (ht.trans hn) hn, update_self]
  · intro thread hs
    obtain ⟨hne, hss⟩ := of_update_ne hs (by simp)
    simp only [State.release, List.map_append, List.map_singleton, List.mem_append, List.mem_singleton, not_or]
    refine ⟨h.suspended thread hss, fun heq => hne ?_⟩
    exact h.number_inj thread sendingThread number (heq.trans hn) hn
  · intro o ho hnt
    simp only [State.release, List.map_append, List.map_singleton, List.mem_append, List.mem_singleton, not_or] at hnt
    obtain ⟨thread, ht, hs⟩ := h.unreleased o ho hnt.1
    have hne : thread ≠ sendingThread := by
      rintro rfl
      exact hnt.2 ht.symm
    exact ⟨thread, ht, (update_of_ne hne _ _).trans hs⟩

theorem idle_of_holding {tid : Tid} (hus : s.rxUse rx = .Holding tid) (o : Tid) : ¬ (s.pc (.Actual o)).Uses rx := by
  intro hu
  cases hus.symm.trans (h.uses_inCall hu)

theorem overwrite (hu : s.rxUse rx = .Holding receiver) (hs : rxMsg.syncingThread = none) :
    Inv { s with rxMsg := update s.rxMsg rx rxMsg } := by
  have hst := h.setRx (h.idle_of_holding hu) rxMsg (.Holding receiver)
    (fun _ _ _ ht => by cases hs.symm.trans ht)
  rwa [← hu, update_eq_self] at hst

theorem push {slot : Nat} (hpc : s.pc (.Dummy slot) = .Running) (hs : slot ∉ s.asyncMsgFree) :
    Inv { s with asyncMsgFree := slot :: s.asyncMsgFree } := by
  refine { h with free_nodup := List.nodup_cons.mpr ⟨hs, h.free_nodup⟩, free := ?_ }
  intro o ho
  rcases List.mem_cons.mp ho with rfl | hol
  · exact hpc
  · exact h.free o hol

theorem dispose (hus : s.rxUse rx = .Holding receiver) (disc : Bool)
    (hsy : rxMsg.syncingThread = (s.rxMsg rx).syncingThread)
    (hsz : rxMsg.size = if disc then 0 else (s.rxMsg rx).size) :
    Inv ({ s with rxMsg := update s.rxMsg rx rxMsg }.mboxMessageDispose receiver rx disc) := by
  unfold State.mboxMessageDispose
  simp only [update_self, update_idem]
  cases ht : rxMsg.syncingThread with
  | none => exact h.overwrite hus ht
  | some sendingThread =>
    have hod := h.holding receiver rx sendingThread hus (hsy.symm.trans ht)
    have hun : ∀ {tid place}, s.Holds tid place sendingThread → place = rx :=
      fun ho => (h.holds_unique hod ho).2.symm
    obtain ⟨hpc, r, hrc, hm, hr, hrx, hms⟩ := hod
    let undone : Msg := { rxMsg with syncingThread := none }
    have hov := h.overwrite hus (show undone.syncingThread = none from rfl)
    have hd : (update s.rxMsg rx undone rx).syncingThread = none := by
      rw [update_self]
    have hrl := hov.release hpc ?_ ?_ hrc hm hr hrx disc ?_
    · cases sendingThread with
      | Actual tid => exact hrl none
      | Dummy slot =>
        refine (hrl _).push (update_self ..) fun hsl => ?_
        cases hpc.symm.trans (h.free slot hsl)
    · intro tid place buf htd hs
      obtain ⟨-, t, hth, hol⟩ := h.matched tid place buf htd
      have hne : place ≠ rx := by
        rintro rfl
        exact h.idle_of_holding hus tid (.inr ⟨buf, htd⟩)
      simp only [update_of_ne hne, hth, Option.some.injEq] at hs
      exact hne (hun (hs ▸ hol))
    · intro tid place hu hs
      by_cases heq : place = rx
      · subst heq
        cases hd.symm.trans hs
      · simp only [update_of_ne heq] at hs
        exact heq (hun (h.holding tid place sendingThread hu hs))
    · simp [undone, hsz, hms]

theorem kMboxDataGet (hu : s.rxUse rx = .Holding receiver) (buf : Bool) : Inv (s.kMboxDataGet receiver rx buf) := by
  cases buf with
  | true =>
    have hd := h.dispose hu false rfl rfl
    rwa [update_eq_self] at hd
  | false => exact h.dispose hu true rfl rfl

theorem mboxMessageDataCheck (hu : s.rxUse rx = .Holding receiver) (buf : Bool) :
    Inv (s.mboxMessageDataCheck receiver rx buf) := by
  unfold State.mboxMessageDataCheck
  split
  · exact h.kMboxDataGet hu true
  · split
    · exact h.kMboxDataGet hu true
    · exact h

end

end Inv

namespace State

variable (s : State) (receiver : Tid) (rx : Nat)

def returned (s : State) (receiver : Tid) (rx : Nat) : State :=
  { s with
    rxUse := update s.rxUse rx (.Holding receiver)
    pc := update s.pc (.Actual receiver) .Running }

theorem update_running_comm (pc : Thread → Pc) (t o : Thread) :
    update (update pc t .Running) o .Running = update (update pc o .Running) t .Running := by
  funext third
  simp only [update_apply]
  split <;> simp

theorem mboxMessageDispose_returned (disc : Bool) : (s.returned receiver rx).mboxMessageDispose receiver rx disc =
      (s.mboxMessageDispose receiver rx disc).returned receiver rx := by
  unfold mboxMessageDispose
  have hm : (s.returned receiver rx).rxMsg = s.rxMsg := rfl
  rw [hm]
  cases (s.rxMsg rx).syncingThread with
  | none => rfl
  | some t => cases t <;> simp [returned, release, update_running_comm]

theorem finishGet_eq (buffer : Bool) : s.finishGet receiver rx buffer =
      (s.returned receiver rx).mboxMessageDataCheck receiver rx buffer := by
  show (s.mboxMessageDataCheck receiver rx buffer).returned receiver rx = _
  unfold mboxMessageDataCheck kMboxDataGet
  have hm : (s.returned receiver rx).rxMsg = s.rxMsg := rfl
  rw [hm]
  cases buffer with
  | true => exact (s.mboxMessageDispose_returned receiver rx false).symm
  | false =>
    simp only [Bool.false_eq_true, if_false]
    split
    · exact (s.mboxMessageDispose_returned receiver rx false).symm
    · rfl

end State

namespace Inv

variable {s : State} {sendingThread : Thread} {receiver : Tid} {rx : Nat}

theorem unpendTx (h : Inv s) (sendingThread : Thread) :
    Inv { s with txMsgQueue := s.txMsgQueue.erase sendingThread } :=
  { h with
    senders := ⟨h.senders.nodup.erase _, fun t ht => h.senders.waits t (List.mem_of_mem_erase ht)⟩
    apart := fun t ht => h.apart t (List.mem_of_mem_erase ht) }

theorem unpendRx (h : Inv s) (receiver : Tid) : Inv { s with rxMsgQueue := s.rxMsgQueue.erase receiver } :=
  { h with
    receivers := ⟨h.receivers.nodup.erase _, fun tid htd => h.receivers.waits tid (List.mem_of_mem_erase htd)⟩
    apart := fun t ht tid htd =>
      h.apart t ht tid (List.mem_of_mem_erase htd) }

theorem finishGet (h : Inv s) {buf : Bool} (hpc : s.pc (.Actual receiver) = .Matched rx buf) :
    Inv (s.finishGet receiver rx buf) := by
  rw [State.finishGet_eq]
  refine mboxMessageDataCheck ?_ (update_self ..) buf
  obtain ⟨hu, t, hsy, hs, hr⟩ := h.matched receiver rx buf hpc
  have hsn : Thread.Actual receiver ∉ s.txMsgQueue :=
    h.senders.not_mem _ (by simp [hpc, Pc.IsSending])
  have hrc : receiver ∉ s.rxMsgQueue :=
    h.receivers.not_mem _ (by simp [hpc, Pc.IsReceiving])
  have hpc_ne : s.pc (.Actual receiver) ≠ .Suspended := by simp [hpc]
  have hv := h.vacate hpc_ne (inCall_unique hu) (s.rxMsg rx) (.Holding receiver) ?_
  · rwa [List.erase_of_not_mem hsn, List.erase_of_not_mem hrc, update_eq_self] at hv
  · intro tid o ht ho
    cases ht
    cases hsy.symm.trans ho
    exact ⟨hs, hr⟩

theorem mboxMessagePut (h : Inv s) (rs : Policy Tid) (hpc : s.pc sendingThread = .Running)
    (hf : ∀ slot ∈ s.asyncMsgFree, sendingThread ≠ .Dummy slot) (current : Tid) {tx : Msg}
    (hs : tx.syncingThread = some sendingThread) (timeout : Timeout) :
    Inv (s.mboxMessagePut rs sendingThread current tx timeout) := by
  have hp := h.post hpc current tx
  have hps := h.posted_post current hs
  have hpc' : (s.post sendingThread current tx).pc sendingThread = .Running := hpc
  have hfr : ∀ slot ∈ (s.post sendingThread current tx).asyncMsgFree, sendingThread ≠ .Dummy slot := hf
  unfold State.mboxMessagePut
  generalize s.post sendingThread current tx = posted at *
  dsimp only
  rcases rs.search_cases (posted.matchReceiver (posted.txMsg sendingThread))
      posted.rxMsgQueue with ⟨hn, ha⟩ | ⟨receiver, hmm, ⟨rx, buf, matched⟩, hmatch, hsome⟩
  · rw [hn]
    cases hw : timeout.isNoWait with
    | true => exact hp
    | false =>
      refine hp.pendTx hpc' hps hfr ?_ timeout
      intro tid ht rx buf t' hr
      have hno := ha tid ht
      simp only [State.matchReceiver, hr, Option.map_eq_none_iff] at hno
      exact mboxMessageMatch_eq_none.mp hno
  · rw [hsome]
    obtain ⟨rx', buf', t', hr⟩ := hp.receivers.waits receiver hmm
    simp only [State.matchReceiver, hr, Option.map_eq_some_iff, Prod.mk.injEq] at hmatch
    obtain ⟨matched', hm, rfl, rfl, rfl⟩ := hmatch
    have hne : sendingThread ≠ .Actual receiver := by
      rintro rfl
      cases hpc'.symm.trans hr
    refine (hp.unpendRx receiver).deliver hps (.inl hpc')
      (.inr ⟨rx', buf', t', hr⟩) hne
      (hp.senders.not_mem _ (by simp [hpc', Pc.IsSending]))
      hp.receivers.nodup.not_mem_erase hfr
      (inCall_unique (hp.receiving receiver rx' buf' t' hr)) buf' hm

theorem kMboxGet (h : Inv s) (ss : Policy Thread) {current : Tid}
    (hpc : s.pc (.Actual current) = .Running) (hus : ∀ tid, s.rxUse rx ≠ .InCall tid)
    (rxMsg : Msg) (buf : Bool) (timeout : Timeout) :
    Inv (s.kMboxGet ss current rx rxMsg buf timeout) := by
  have hi : ∀ tid, ¬ (s.pc (.Actual tid)).Uses rx :=
    fun tid hu => hus tid (h.uses_inCall hu)
  unfold State.kMboxGet
  generalize { rxMsg with txTargetThread := some current } = rxMsg
  dsimp only
  rcases ss.search_cases (s.matchSender rxMsg) s.txMsgQueue with
    ⟨hnone, hall⟩ | ⟨sendingThread, hmem, matched, hmatch, hsome⟩
  · rw [hnone]
    cases hw : timeout.isNoWait with
    | true => exact h.setRx hi rxMsg .Free (by simp)
    | false =>
      refine (h.setRx hi rxMsg (.InCall current) (by simp)).pendRx hpc
        (update_self ..) ?_ buf timeout
      intro t ht
      simp only [update_self]
      exact mboxMessageMatch_eq_none.mp (hall t ht)
  · rw [hsome]
    obtain ⟨t', hs⟩ := h.senders.waits sendingThread hmem
    have hne : sendingThread ≠ .Actual current := by
      rintro rfl
      cases hpc.symm.trans hs
    refine (h.unpendTx sendingThread).deliver (h.posted sendingThread ⟨t', hs⟩)
      (.inr ⟨t', hs⟩) (.inl hpc) hne h.senders.nodup.not_mem_erase
      (h.receivers.not_mem _ (by simp [hpc, Pc.IsReceiving])) ?_
      (fun tid htd => absurd htd (hus tid)) buf hmatch
    rintro slot hsl rfl
    cases (h.free slot hsl).symm.trans hs

theorem timeOut (h : Inv s) {t : Tid} {next : State} {ss : Policy Thread}
    {rs : Policy Tid} (hs : step ss rs s (.TimeOut t) = some next) :
    Inv next := by
  simp only [step] at hs
  cases hpc : s.pc (.Actual t) with
  | Sending timeout =>
    have hr : t ∉ s.rxMsgQueue :=
      h.receivers.not_mem _ (by simp [hpc, Pc.IsReceiving])
    have hpc_ne : s.pc (.Actual t) ≠ .Suspended := by simp [hpc]
    have hl := h.leave hpc_ne
    rw [List.erase_of_not_mem hr] at hl
    simp only [hpc, Option.ite_none_right_eq_some, Option.some.injEq] at hs
    exact hs.2 ▸ hl
  | Receiving rx buf timeout =>
    have hsn : Thread.Actual t ∉ s.txMsgQueue :=
      h.senders.not_mem _ (by simp [hpc, Pc.IsSending])
    have hpc_ne : s.pc (.Actual t) ≠ .Suspended := by simp [hpc]
    have hu := h.receiving t rx buf timeout hpc
    have hv := h.vacate hpc_ne (inCall_unique hu) (s.rxMsg rx) .Free (by simp)
    rw [List.erase_of_not_mem hsn, update_eq_self] at hv
    simp only [hpc, Option.ite_none_right_eq_some, Option.some.injEq] at hs
    exact hs.2 ▸ hv
  | Running | Suspended | Matched rx buf => simp [hpc] at hs

end Inv

theorem step_inv {ss : Policy Thread} {rs : Policy Tid} {s next : State} {op : Op}
    (h : Inv s) (hs : step ss rs s op = some next) : Inv next := by
  cases op with
  | Put t tx timeout =>
    simp only [step] at hs
    split at hs
    · next hpc =>
        cases hs
        exact h.mboxMessagePut rs hpc (Inv.actual_ne_dummy t) t rfl timeout
    · cases hs
  | AsyncPut t tx sem =>
    simp only [step, State.kMboxAsyncPut] at hs
    split at hs
    · split at hs
      · cases hs
      · next slot rest hf =>
          cases hs
          have hn := h.free_nodup
          rw [hf, List.nodup_cons] at hn
          have hsl : ∀ o ∈ slot :: rest, s.pc (.Dummy o) = .Running := hf ▸ h.free
          have hp : Inv { s with asyncMsgFree := rest } :=
            { h with
              free_nodup := hn.2
              free := fun o ho => hsl o (List.mem_cons_of_mem _ ho) }
          refine hp.mboxMessagePut rs (hsl slot List.mem_cons_self) ?_ t rfl _
          rintro o ho heq
          cases heq
          exact hn.1 ho
    · cases hs
  | Get t rx rxMsg buf timeout =>
    simp only [step] at hs
    split at hs
    · cases hs
    · next hpc hu =>
        cases hs
        exact h.kMboxGet ss hpc (fun tid ht => hu tid ht) rxMsg buf timeout
    · cases hs
  | FinishGet t =>
    simp only [step] at hs
    split at hs
    · next hpc =>
        cases hs
        exact h.finishGet hpc
    · cases hs
  | DataGet t rx buf =>
    simp only [step] at hs
    split at hs
    · next hpc hu =>
        split at hs
        · next heq =>
            cases hs
            exact h.kMboxDataGet (heq ▸ hu) buf
        · cases hs
    · cases hs
  | TimeOut t => exact h.timeOut hs

end Gale.Mbox
