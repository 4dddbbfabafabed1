import Gale.Mbox.Invariant

namespace Gale.Mbox

open Function Lib

-- No sender waits beside a receiver it is compatible with; a message is received
-- at most once, and its receiver sees it as it was sent, with the smaller size;
-- its sender is released at most once, by the receiver disposing of the message,
-- finds in its descriptor the size received, and stays suspended until then.
structure Matching (s : State) : Prop where
  apart : ∀ receiver ∈ s.rxMsgQueue, ∃ rx buffer timeout,
    s.pc (.Actual receiver) = .Receiving rx buffer timeout ∧
      ∀ sendingThread ∈ s.txMsgQueue, ¬ Compatible (s.txMsg sendingThread) (s.rxMsg rx)
  received_once : (s.receipts.map Receipt.message).Nodup
  received : ∀ receipt ∈ s.receipts, ∃ message sender txMsg, receipt.message = some message ∧
    s.sent[message]? = some (sender, txMsg) ∧
    receipt.Shows (min txMsg.size receipt.wanted) sender txMsg
  in_hand : ∀ receiver rx buffer, s.pc (.Actual receiver) = .Matched rx buffer →
    ∃ receipt ∈ s.receipts, receipt.receiver = receiver ∧ receipt.rx = rx ∧ receipt.msg = s.rxMsg rx
  released_once : (s.releases.map Release.message).Nodup
  released : ∀ release ∈ s.releases, ∃ receipt ∈ s.receipts, release.Of receipt
  told : ∀ release ∈ s.releases, ∀ thread, s.number thread = release.message →
    (s.txMsg thread).size = release.size
  suspended : ∀ receipt ∈ s.receipts, receipt.message ∉ s.releases.map Release.message →
    ∃ thread, s.number thread = receipt.message ∧ s.pc thread = .Suspended

def Op.size : Op → Nat
  | .Put _ txMsg _ => txMsg.size
  | .AsyncPut _ txMsg _ => txMsg.size
  | .Get _ _ rxMsg _ _ => rxMsg.size
  | _ => 0

structure Sized (bound : Nat) (s : State) : Prop where
  sent : ∀ entry ∈ s.sent, entry.2.size < bound
  inCall : ∀ rx tid, s.rxUse rx = .InCall tid → (s.rxMsg rx).size < bound
  wanted : ∀ receipt ∈ s.receipts, receipt.wanted < bound

theorem dataExchangeDecide_eq (txSize rxBufSize : Nat) :
    dataExchangeDecide txSize rxBufSize = min txSize rxBufSize := by
  unfold dataExchangeDecide
  split <;> omega

theorem galeMboxDataExchange_le (txSize rxBufSize : Nat) : galeMboxDataExchange txSize rxBufSize ≤ rxBufSize := by
  rw [galeMboxDataExchange, dataExchangeDecide_eq]
  exact Nat.le_trans (Nat.min_le_right _ _) (Nat.mod_le _ _)

theorem galeMboxDataExchange_eq {txSize rxBufSize : Nat} (htx : txSize < 2 ^ 32)
    (hrx : rxBufSize < 2 ^ 32) : galeMboxDataExchange txSize rxBufSize = min txSize rxBufSize := by
  rw [galeMboxDataExchange, dataExchangeDecide_eq, Nat.mod_eq_of_lt htx, Nat.mod_eq_of_lt hrx]

theorem Inv.matching {s : State} (h : Inv s) (hsz : Sized (2 ^ 32) s) : Matching s where
  apart := by
    intro rcv hmm
    obtain ⟨rx, buf, timeout, hr⟩ := h.receivers.waits rcv hmm
    exact ⟨rx, buf, timeout, hr, fun sendingThread hs =>
      h.apart sendingThread hs rcv hmm rx buf timeout hr⟩
  received_once := h.receipts_nodup
  received := by
    intro r hmm
    obtain ⟨m, snd, tx, hm, he, hsh⟩ := h.receipts r hmm
    have hsi := hsz.sent _ (List.mem_of_getElem? he)
    rw [galeMboxDataExchange_eq hsi (hsz.wanted r hmm)] at hsh
    exact ⟨m, snd, tx, hm, he, hsh⟩
  in_hand := by
    intro rcv rx buf hmt
    obtain ⟨-, t, -, -, r, hmm, -, hrc⟩ := h.matched rcv rx buf hmt
    exact ⟨r, hmm, hrc⟩
  released_once := h.releases_nodup
  released := h.releases
  told := h.told
  suspended := h.unreleased

namespace Sized

variable {bound : Nat} {s : State}

theorem init (n : Nat) (tx : Thread → Msg) (rx : Nat → Msg) : Sized bound (initMboxModule n tx rx) := by
  constructor <;> simp [initMboxModule]

section

variable (h : Sized bound s)
include h

theorem deliver (snd : Thread) (rcv : Tid) (rx : Nat) (buf : Bool) {rxMsg : Msg}
    (hrx : rxMsg.size < bound) {matched : Msg × Msg}
    (hm : mboxMessageMatch (s.txMsg snd) rxMsg = some matched) :
    Sized bound (s.deliver snd rcv rx buf rxMsg.size matched) := by
  refine ⟨h.sent, fun place tid hu => ?_, fun r hmm => ?_⟩
  · simp only [State.deliver] at hu ⊢
    by_cases heq : place = rx
    · rw [heq, update_self, (mboxMessageMatch_rxMsg hm).2.2.2.1]
      exact Nat.lt_of_le_of_lt (galeMboxDataExchange_le _ _) hrx
    · rw [update_of_ne heq] at hu ⊢
      exact h.inCall place tid hu
  · rcases List.mem_append.mp hmm with ho | hl
    · exact h.wanted r ho
    · rw [List.mem_singleton.mp hl]
      exact hrx

theorem setRx (rx : Nat) {rxMsg : Msg} (use : RxUse) (hrx : rxMsg.size < bound) : Sized bound { s with
      rxMsg := update s.rxMsg rx rxMsg
      rxUse := update s.rxUse rx use } := by
  refine ⟨h.sent, fun place tid hu => ?_, h.wanted⟩
  by_cases heq : place = rx
  · simpa only [heq, update_self] using hrx
  · simp only [update_of_ne heq] at hu ⊢
    exact h.inCall place tid hu

theorem mboxMessageDispose (rcv : Tid) (rx : Nat) (disc : Bool) : Sized bound (s.mboxMessageDispose rcv rx disc) := by
  have hs : ∀ place, (update s.rxMsg rx { s.rxMsg rx with syncingThread := none } place).size =
        (s.rxMsg place).size := by
    intro place
    by_cases heq : place = rx
    · rw [heq, update_self]
    · rw [update_of_ne heq]
  unfold State.mboxMessageDispose
  split
  · exact h
  · next t ht =>
      have hd : ∀ rx' tid, s.rxUse rx' = .InCall tid →
          (update s.rxMsg rx { s.rxMsg rx with syncingThread := none } rx').size < bound :=
        fun rx' tid hu => (hs rx').symm ▸ h.inCall rx' tid hu
      cases t with
      | Dummy slot | Actual tid => exact ⟨h.sent, hd, h.wanted⟩

theorem kMboxDataGet (rcv : Tid) (rx : Nat) (buf : Bool) : Sized bound (s.kMboxDataGet rcv rx buf) := by
  unfold State.kMboxDataGet
  split
  · exact h.mboxMessageDispose rcv rx false
  · have hz : Sized bound
        { s with rxMsg := update s.rxMsg rx { s.rxMsg rx with size := 0 } } := by
      refine ⟨h.sent, fun place tid hu => ?_, h.wanted⟩
      have hs := h.inCall place tid hu
      by_cases heq : place = rx
      · simp only [heq, update_self]
        exact Nat.zero_lt_of_lt hs
      · simpa only [update_of_ne heq] using hs
    exact hz.mboxMessageDispose rcv rx true

theorem finishGet (rcv : Tid) (rx : Nat) (buf : Bool) : Sized bound (s.finishGet rcv rx buf) := by
  have hc : Sized bound (s.mboxMessageDataCheck rcv rx buf) := by
    unfold State.mboxMessageDataCheck
    split
    · exact h.kMboxDataGet rcv rx true
    · split
      · exact h.mboxMessageDispose rcv rx false
      · exact h
  refine ⟨hc.sent, fun place tid hu => ?_, hc.wanted⟩
  have hne : place ≠ rx := by
    rintro rfl
    simp [State.finishGet] at hu
  simp only [State.finishGet, update_of_ne hne] at hu
  exact hc.inCall place tid hu

theorem mboxMessagePut (hr : ∀ tid rx buf timeout, s.pc (.Actual tid) = .Receiving rx buf timeout →
      s.rxUse rx = .InCall tid) (rs : Policy Tid) (snd : Thread) (current : Tid)
    {tx : Msg} (htx : tx.size < bound) (timeout : Timeout) :
    Sized bound (s.mboxMessagePut rs snd current tx timeout) := by
  have hp : Sized bound (s.post snd current tx) := by
    refine ⟨fun entry hmm => ?_, h.inCall, h.wanted⟩
    rcases List.mem_append.mp hmm with ho | hl
    · exact h.sent entry ho
    · rw [List.mem_singleton.mp hl]
      exact htx
  have hps : (s.post snd current tx).pc = s.pc := rfl
  have hus : (s.post snd current tx).rxUse = s.rxUse := rfl
  unfold State.mboxMessagePut
  generalize s.post snd current tx = posted at *
  dsimp only
  rcases rs.search_cases (posted.matchReceiver (posted.txMsg snd))
      posted.rxMsgQueue with ⟨hn, -⟩ | ⟨rcv, -, ⟨rx, buf, matched⟩, hmatch, hsome⟩
  · rw [hn]
    cases hw : timeout.isNoWait with
    | true => exact hp
    | false => exact ⟨hp.sent, hp.inCall, hp.wanted⟩
  · rw [hsome]
    unfold State.matchReceiver at hmatch
    split at hmatch
    · next place buf' t' hpc =>
        simp only [Option.map_eq_some_iff, Prod.mk.injEq] at hmatch
        obtain ⟨matched', hm, rfl, rfl, rfl⟩ := hmatch
        rw [hps] at hpc
        have huse := hr rcv place buf' t' hpc
        have hs := hp.inCall place rcv (hus ▸ huse)
        have hu : Sized bound { posted with rxMsgQueue := posted.rxMsgQueue.erase rcv } :=
          ⟨hp.sent, hp.inCall, hp.wanted⟩
        exact hu.deliver snd rcv place buf' hs hm
    · cases hmatch

theorem kMboxGet (ss : Policy Thread) (current : Tid) (rx : Nat) {rxMsg : Msg}
    (hrx : rxMsg.size < bound) (buf : Bool) (timeout : Timeout) :
    Sized bound (s.kMboxGet ss current rx rxMsg buf timeout) := by
  unfold State.kMboxGet
  have hs : { rxMsg with txTargetThread := some current }.size < bound := hrx
  generalize { rxMsg with txTargetThread := some current } = rxMsg at hs
  dsimp only
  rcases ss.search_cases (s.matchSender rxMsg) s.txMsgQueue with
    ⟨hnone, -⟩ | ⟨snd, -, matched, hmatch, hsome⟩
  · rw [hnone]
    cases hw : timeout.isNoWait with
    | true => exact h.setRx rx .Free hs
    | false =>
      have hst := h.setRx rx (.InCall current) hs
      exact ⟨hst.sent, hst.inCall, hst.wanted⟩
  · rw [hsome]
    have hu : Sized bound { s with txMsgQueue := s.txMsgQueue.erase snd } :=
      ⟨h.sent, h.inCall, h.wanted⟩
    exact hu.deliver snd current rx buf hs hmatch

theorem step {ss : Policy Thread} {rs : Policy Tid} {next : State} {op : Op}
    (hi : Inv s) (hop : op.size < bound) (hs : step ss rs s op = some next) :
    Sized bound next := by
  cases op with
  | Put t tx timeout =>
    simp only [Mbox.step] at hs
    split at hs
    · cases hs
      have htx : { tx with syncingThread := some (.Actual t) }.size < bound := hop
      exact h.mboxMessagePut hi.receiving rs (.Actual t) t htx timeout
    · cases hs
  | AsyncPut t tx sem =>
    simp only [Mbox.step, State.kMboxAsyncPut] at hs
    split at hs
    · split at hs
      · cases hs
      · next slot rest hf =>
          cases hs
          have hp : Sized bound { s with asyncMsgFree := rest } :=
            ⟨h.sent, h.inCall, h.wanted⟩
          have htx : { tx with syncingThread := some (.Dummy slot), asyncSem := sem }.size <
            bound := hop
          exact hp.mboxMessagePut hi.receiving rs (.Dummy slot) t htx _
    · cases hs
  | Get t rx rxMsg buf timeout =>
    simp only [Mbox.step] at hs
    split at hs
    · cases hs
    · cases hs
      exact h.kMboxGet ss t rx hop buf timeout
    · cases hs
  | FinishGet t =>
    simp only [Mbox.step] at hs
    split at hs
    · cases hs
      exact h.finishGet t _ _
    · cases hs
  | DataGet t rx buf =>
    simp only [Mbox.step] at hs
    split at hs
    · split at hs
      · cases hs
        exact h.kMboxDataGet t rx buf
      · cases hs
    · cases hs
  | TimeOut t =>
    simp only [Mbox.step] at hs
    split at hs
    · simp only [Option.ite_none_right_eq_some, Option.some.injEq] at hs
      obtain ⟨-, rfl⟩ := hs
      exact ⟨h.sent, h.inCall, h.wanted⟩
    · next rx buf timeout hpc =>
        simp only [Option.ite_none_right_eq_some, Option.some.injEq] at hs
        obtain ⟨-, rfl⟩ := hs
        refine ⟨h.sent, fun place tid hu => ?_, h.wanted⟩
        have hne : place ≠ rx := by
          rintro rfl
          simp at hu
        simp only [update_of_ne hne] at hu
        exact h.inCall place tid hu
    · cases hs

end

end Sized

-- A receiver willing to take 2^32 bytes takes none of the five it is sent.
def messageOf (size : Nat) : Msg := ⟨size, 0, 0, K_ANY, K_ANY, none, none⟩

def truncatedRun : List Op :=
  [.Put 1 (messageOf 5) K_FOREVER, .Get 2 0 (messageOf (2 ^ 32)) true K_NO_WAIT]

theorem truncatedRun_size {bits : Nat} (hb : 32 < bits) : ∀ op ∈ truncatedRun, op.size < 2 ^ bits := by
  have hl : 2 ^ 32 < 2 ^ bits := Nat.pow_lt_pow_right (by decide) hb
  intro op hop
  simp only [truncatedRun, List.mem_cons, List.not_mem_nil, or_false] at hop
  rcases hop with rfl | rfl
  · exact Nat.lt_trans (by decide) hl
  · exact hl

theorem truncatedRun_received : ∃ fin, run (step (.byPriority fun _ => 0) (.byPriority fun _ => 0))
        (initMboxModule 0 (fun _ => messageOf 0) (fun _ => messageOf 0)) truncatedRun = some fin ∧
      fin.sent.map (fun entry => entry.2.size) = [5] ∧
      fin.receipts.map (fun r => (r.wanted, r.msg.size)) = [(2 ^ 32, 0)] :=
  ⟨_, rfl, rfl, rfl⟩

theorem not_matching_of_truncated {s : State} (hsn : s.sent.map (fun entry => entry.2.size) = [5])
    (hr : s.receipts.map (fun r => (r.wanted, r.msg.size)) = [(2 ^ 32, 0)]) : ¬ Matching s := by
  intro h
  obtain ⟨r, hrc, hs⟩ := List.map_eq_singleton_iff.mp hr
  obtain ⟨m, snd, tx, -, he, -, -, -, hsz⟩ :=
    h.received r (by simp [hrc])
  have htx : tx.size ∈ s.sent.map (fun entry => entry.2.size) :=
    List.mem_map_of_mem (List.mem_of_getElem? he)
  rw [hsn, List.mem_singleton] at htx
  simp only [Prod.mk.injEq] at hs
  rw [hs.1, hs.2, htx] at hsz
  exact absurd hsz (by decide)

-- mbox_message_match passes the sizes on as uint32_t.
theorem matching_iff_size_fits (wordBits : Nat) :
    (∀ (senders : Policy Thread) (receivers : Policy Tid) (numAsyncMsgs : Nat)
      (txMsg : Thread → Msg) (rxMsg : Nat → Msg) (ops : List Op),
      (∀ op ∈ ops, op.size < 2 ^ wordBits) → Throughout (step senders receivers) Matching
          (initMboxModule numAsyncMsgs txMsg rxMsg) ops) ↔ wordBits ≤ 32 := by
  constructor
  · intro ha
    by_contra hlarge
    obtain ⟨final, hrn, hsn, hr⟩ := truncatedRun_received
    refine not_matching_of_truncated hsn hr (Throughout.last ?_ hrn)
    exact ha _ _ _ _ _ truncatedRun (truncatedRun_size (by omega))
  · intro hb senders receivers numAsyncMsgs txMsg rxMsg ops hops
    have hsm : ∀ op ∈ ops, op.size < 2 ^ 32 := fun op hop =>
      Nat.lt_of_lt_of_le (hops op hop) (Nat.pow_le_pow_right (by decide) hb)
    have halong : Along (step senders receivers) (fun _ op => op.size < 2 ^ 32)
        (initMboxModule numAsyncMsgs txMsg rxMsg) ops :=
      along_of_forall fun _ op hop => hsm op hop
    have hi : Throughout (step senders receivers) (fun s => Inv s ∧ Sized (2 ^ 32) s)
        (initMboxModule numAsyncMsgs txMsg rxMsg) ops := by
      refine throughout_of_along ?_ ?_ halong
      · intro s op next h hop hs
        exact ⟨step_inv h.1 hs, h.2.step h.1 hop hs⟩
      · exact ⟨initMboxModule_inv numAsyncMsgs txMsg rxMsg, Sized.init numAsyncMsgs txMsg rxMsg⟩
    exact hi.mono fun s h => h.1.matching h.2

theorem matching_fails_with_size_t_of_64_bits : (∀ op ∈ truncatedRun, op.size < 2 ^ 64) ∧
      ∃ final, run (step (.byPriority fun _ => 0) (.byPriority fun _ => 0))
        (initMboxModule 0 (fun _ => messageOf 0) (fun _ => messageOf 0)) truncatedRun = some final ∧
      final.receipts.map (fun receipt => (receipt.wanted, receipt.msg.size)) = [(2 ^ 32, 0)] ∧
      ¬ Matching final := by
  obtain ⟨final, hrn, hs, hr⟩ := truncatedRun_received
  exact ⟨truncatedRun_size (by decide), final, hrn, hr,
    not_matching_of_truncated hs hr⟩

end Gale.Mbox
