import Gale.CanThin.Fault
import Gale.Lib.Bits

namespace Gale.CanThin

open Lib

def keeping (base : UInt32) : Driver Call where
  program := (driver base).program
  thread call given result := if call = .Mode ∨ result = CAN_FAULT then given else result

def MAILBOX : List UInt32 := [TI0R, TDT0R, TDL0R, TDH0R]

def WritesMailbox (base : UInt32) (access : Access) : Prop :=
  ∃ reg ∈ MAILBOX, ∃ value, access = .Write (base + reg) value

def RequestsTx (base : UInt32) (access : Access) : Prop :=
  ∃ value, access = .Write (base + TI0R) value ∧ value &&& TI0R_TXRQ ≠ 0

def SeesEmpty (base : UInt32) (access : Access) : Prop :=
  ∃ value, access = .Read (base + TSR) value ∧ value &&& TSR_TME0 ≠ 0

def loads (base : UInt32) : Call → List Access
  | .TxRequest _ dlc dlo dhi =>
    [.Write (base + TDT0R) (dlc &&& 0xF), .Write (base + TDL0R) dlo, .Write (base + TDH0R) dhi]
  | _ => []

def trace (past : List (Entry Call)) : List Access := past.flatMap Entry.accesses

def RejectedSilent (base : UInt32) (e : Entry Call) : Prop :=
  (∃ id dlc dlo dhi, e.call = .TxRequest id dlc dlo dhi) → e.result = some CAN_FAULT →
    ∀ access ∈ e.accesses, ¬ WritesMailbox base access

structure FramesComplete (base : UInt32) (past : List (Entry Call)) : Prop where
  -- a call requests the transmission of a frame that it has loaded
  loaded : ∀ e ∈ past, ∀ before request after, e.accesses = before ++ request :: after →
    RequestsTx base request → loads base e.call ≠ [] ∧ ∀ access ∈ loads base e.call, access ∈ before
  -- the mailbox was seen empty since the last request
  idle : ∀ before write after, trace past = before ++ write :: after → WritesMailbox base write →
    ∀ older request newer, before = older ++ request :: newer → RequestsTx base request →
      ∃ access ∈ newer, SeesEmpty base access
  rejected : ∀ e ∈ past, RejectedSilent base e

-- The request is accepted: the phase is normal and the mailbox reads as empty.
def Sends (given : UInt32) (input : Call × List UInt32) : Prop :=
  unpack given = .Normal ∧ (∃ id dlc dlo dhi, input.1 = .TxRequest id dlc dlo dhi) ∧
    ∃ tsr ∈ input.2.head?, tsr &&& TSR_TME0 ≠ 0

variable {base : UInt32}

theorem requestsTx_writes {access : Access} (h : RequestsTx base access) : WritesMailbox base access := by
  obtain ⟨v, rfl, -⟩ := h
  exact ⟨TI0R, by decide, v, rfl⟩

variable {given : UInt32} {input : Call × List UInt32}

theorem sends_of_writes {a : Access} (hm : a ∈ ((driver base).entry anyBus () given input).accesses)
    (hw : WritesMailbox base a) : Sends given input := by
  obtain ⟨reg, hr, v, rfl⟩ := hw
  have ht : Transfers base ((driver base).entry anyBus () given input) :=
    ⟨reg, List.mem_append_left [RF0R] hr, v, hm⟩
  obtain ⟨hn, he⟩ := transfers_iff.mp ht
  obtain ⟨call, es⟩ := input
  cases call with
  | TxRequest id dlc dlo dhi => exact ⟨hn, ⟨id, dlc, dlo, dhi, rfl⟩, he⟩
  | RxRelease =>
    have ho : RF0R ∉ MAILBOX := by decide
    cases es with
    | nil => simp [Driver.entry, Driver.outcome, driver, canRxRelease, canRx, hn] at hm
    | cons rf0r es =>
      obtain ⟨_, hs, hp⟩ := he
      cases hs
      simp [Driver.entry, Driver.outcome, driver, canRxRelease, canRx, hn, hp] at hm
      exact absurd (hm.1 ▸ hr) ho
  | _ => exact he.elim

theorem outcome_of_sends {tsr : UInt32} (hn : unpack given = .Normal)
    (he : tsr &&& TSR_TME0 ≠ 0) (id dlc dlo dhi : UInt32) (es : List UInt32) :
    (driver base).outcome anyBus () given (.TxRequest id dlc dlo dhi, tsr :: es) = ⟨[.Read (base + TSR) tsr,
          .Write (base + TI0R) (((id &&& STID_MASK) <<< STID_SHIFT) ||| TI0R_TXRQ),
          .Write (base + TDT0R) (dlc &&& 0xF), .Write (base + TDL0R) dlo,
          .Write (base + TDH0R) dhi],
        (), some (pack .Normal)⟩ := by
  simp [Driver.outcome, driver, canTxRequest, canTx, hn, Mmio.exec, he]

theorem rejected_silent (base given : UInt32) (input : Call × List UInt32) :
    RejectedSilent base ((driver base).entry anyBus () given input) := by
  intro _ hr a hm hw
  obtain ⟨hn, ⟨id, dlc, dlo, dhi, hc⟩, tsr, htsr, hempty⟩ := sends_of_writes hm hw
  obtain ⟨call, es⟩ := input
  obtain rfl : call = .TxRequest id dlc dlo dhi := hc
  obtain ⟨rest, rfl⟩ : ∃ rest, es = tsr :: rest := List.head?_eq_some_iff.mp htsr
  have hrs := congrArg Outcome.result
    (@outcome_of_sends base _ _ hn hempty id dlc dlo dhi rest)
  exact pack_ne_fault .Normal (Option.some.inj (hrs.symm.trans hr))

theorem txrq_set (x : UInt32) : (x ||| TI0R_TXRQ) &&& TI0R_TXRQ ≠ 0 := by
  rw [Bits.or_and_distrib]
  intro hz
  exact absurd (UInt32.or_eq_zero_iff.mp hz).2 (by decide)

theorem not_loaded_of_sends (hs : Sends given input) {past : List (Entry Call)}
    (hm : (driver base).entry anyBus () given input ∈ past) :
    ¬ FramesComplete base past := by
  intro hc
  obtain ⟨hn, ⟨id, dlc, dlo, dhi, hcl⟩, tsr, htsr, hempty⟩ := hs
  obtain ⟨call, es⟩ := input
  obtain rfl : call = .TxRequest id dlc dlo dhi := hcl
  obtain ⟨rest, rfl⟩ : ∃ rest, es = tsr :: rest := List.head?_eq_some_iff.mp htsr
  have ha := congrArg Outcome.accesses
    (@outcome_of_sends base _ _ hn hempty id dlc dlo dhi rest)
  have hr : RequestsTx base
      (.Write (base + TI0R) (((id &&& STID_MASK) <<< STID_SHIFT) ||| TI0R_TXRQ)) :=
    ⟨_, rfl, txrq_set _⟩
  have hl := (hc.loaded _ hm [.Read (base + TSR) tsr] _ _ ha hr).2
  have hd := hl (.Write (base + TDT0R) (dlc &&& 0xF)) List.mem_cons_self
  simp at hd

theorem complete_of_silent {past : List (Entry Call)} (h : ∀ e ∈ past, ∀ a ∈ e.accesses, ¬ WritesMailbox base a) :
    FramesComplete base past where
  loaded := by
    intro e he before request after hs hr
    exact absurd (requestsTx_writes hr) (h e he request (by simp [hs]))
  idle := by
    intro before write after hs hw
    have hm : write ∈ trace past := by simp [hs]
    obtain ⟨e, he, ha⟩ := List.mem_flatMap.mp hm
    exact absurd hw (h e he write ha)
  rejected := fun e he _ _ => h e he

theorem step_rejected {s next : Session Call Unit} (h : ∀ e ∈ s.past, RejectedSilent base e)
    (hs : s.step (keeping base) anyBus input = some next) :
    ∀ e ∈ next.past, RejectedSilent base e := by
  obtain ⟨given, -, -, -, hp⟩ := Session.step_eq_some _ _ hs
  rw [hp]
  intro e he
  rcases List.mem_append.mp he with ho | hn
  · exact h e ho
  · obtain rfl := List.mem_singleton.mp hn
    exact rejected_silent base given input

theorem frames_complete_iff (base word : UInt32) (inputs : List (Call × List UInt32)) :
    (Throughout (Session.step (keeping base) anyBus) (fun s => FramesComplete base s.past)
        (Session.start word ()) inputs ↔
      Along (Session.step (keeping base) anyBus)
        (fun s input => ∀ given, s.word = some given → ¬ Sends given input)
        (Session.start word ()) inputs) ∧
    Throughout (Session.step (keeping base) anyBus)
      (fun s => ∀ e ∈ s.past, RejectedSilent base e) (Session.start word ()) inputs := by
  refine ⟨?_, throughout_of_step (fun _ _ _ h hst => step_rejected h hst)
    (by simp [Session.start]) inputs⟩
  refine throughout_iff_along
    (fun s : Session Call Unit => ∀ e ∈ s.past, ∀ access ∈ e.accesses, ¬ WritesMailbox base access)
    (fun s hs => complete_of_silent hs) ?_ ?_ (by simp [Session.start]) inputs
  · intro s input next hs hq hst
    obtain ⟨given, hg, -, -, hp⟩ := Session.step_eq_some _ _ hst
    rw [hp]
    intro e he access ha hw
    rcases List.mem_append.mp he with ho | hn
    · exact hs e ho access ha hw
    · obtain rfl := List.mem_singleton.mp hn
      exact hq given hg (sends_of_writes ha hw)
  · intro s input next _ hl hst
    obtain ⟨given, hg, -, -, hp⟩ := Session.step_eq_some _ _ hst
    simp only [not_forall, not_not] at hl
    obtain ⟨given', hgv, hsn⟩ := hl
    obtain rfl : given = given' := Option.some.inj (hg.symm.trans hgv)
    rw [hp]
    exact not_loaded_of_sends hsn (List.mem_append_right _ (List.mem_singleton_self _))

theorem frame_requested_unloaded : ∃ s, run (Session.step (keeping 0) anyBus) (Session.start 0 ())
        [(.EnterInit, [MSR_INAK]), (.LeaveInit, [0]), (.TxRequest 5 8 1 2, [TSR_TME0])] = some s ∧
      ¬ FramesComplete 0 s.past := by
  have hs : Sends 2 (.TxRequest 5 8 1 2, [TSR_TME0]) :=
    ⟨by decide, ⟨5, 8, 1, 2, rfl⟩, TSR_TME0, rfl, by decide⟩
  exact ⟨_, rfl, not_loaded_of_sends hs (List.mem_append_right _ (List.mem_singleton_self _))⟩

end Gale.CanThin
