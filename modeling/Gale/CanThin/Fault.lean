import Gale.CanThin

namespace Gale.CanThin

open Lib

def Transfers (base : UInt32) (e : Entry Call) : Prop :=
  ∃ reg ∈ [TI0R, TDT0R, TDL0R, TDH0R, RF0R], ∃ value, .Write (base + reg) value ∈ e.accesses

def LeftInit (e : Entry Call) : Prop :=
  e.call = .LeaveInit ∧ ∃ word, e.result = some word ∧ word ≠ CAN_FAULT

def EnteredInit (e : Entry Call) : Prop := e.call = .EnterInit

-- A transmission with the mailbox empty, or a release with a message pending.
def Effective (input : Call × List UInt32) : Prop :=
  match input.1 with
  | .TxRequest _ _ _ _ => ∃ tsr ∈ input.2.head?, tsr &&& TSR_TME0 ≠ 0
  | .RxRelease => ∃ rf0r ∈ input.2.head?, rf0r &&& RF0R_FMP_MASK ≠ 0
  | _ => False

theorem unpack_pack (p : Phase) : unpack (pack p) = p := by
  cases p <;> decide

theorem pack_ne_fault (p : Phase) : pack p ≠ CAN_FAULT := by
  cases p <;> decide

variable {base : UInt32}

theorem transfers_iff {given : UInt32} {input : Call × List UInt32} :
    Transfers base ((driver base).entry anyBus () given input) ↔ unpack given = .Normal ∧ Effective input := by
  obtain ⟨call, es⟩ := input
  simp only [Transfers, Driver.entry, Driver.outcome, driver]
  cases call with
  | EnterInit =>
    simp [canEnterInit, Effective]
    decide
  | Configure brp ts1 ts2 sjw =>
    cases hp : unpack given with
    | Init =>
      simp [canConfigure, configure, hp]
      decide
    | _ => simp [canConfigure, configure, hp, Effective]
  | LeaveInit =>
    cases hp : unpack given with
    | Init =>
      simp [canLeaveInit, leaveInit, hp]
      decide
    | _ => simp [canLeaveInit, leaveInit, hp, Effective]
  | TxRequest id dlc dlo dhi =>
    cases hp : unpack given with
    | Normal =>
      cases es with
      | nil => simp [canTxRequest, canTx, hp, Effective]
      | cons tsr es =>
        by_cases he : tsr &&& TSR_TME0 = 0 <;>
          simp [canTxRequest, canTx, hp, Effective, he]
    | _ => simp [canTxRequest, canTx, hp]
  | RxRelease =>
    cases hp : unpack given with
    | Normal =>
      cases es with
      | nil => simp [canRxRelease, canRx, hp, Effective]
      | cons rf0r es =>
        by_cases hn : rf0r &&& RF0R_FMP_MASK = 0 <;>
          simp [canRxRelease, canRx, hp, Effective, hn]
    | _ => simp [canRxRelease, canRx, hp]
  | Mode => simp [Effective]

theorem normal_result {given word : UInt32} {input : Call × List UInt32} (hm : input.1 ≠ .Mode)
    (hr : ((driver base).outcome anyBus () given input).result = some word)
    (hf : word ≠ CAN_FAULT) (hn : unpack word = .Normal) :
    input.1 = .LeaveInit ∨ input.1 ≠ .EnterInit ∧ unpack given = .Normal ∧ Effective input := by
  obtain ⟨call, es⟩ := input
  simp only [Driver.outcome, driver] at hr
  cases call with
  | EnterInit =>
    simp only [canEnterInit, Mmio.wr_bind, Mmio.spin_bind, Mmio.pure_eq, Mmio.exec_write_result,
      Mmio.exec_spin_result, Mmio.exec_ret_result] at hr
    obtain ⟨_, _, hw⟩ := hr
    cases hw
    rw [unpack_pack] at hn
    cases hn
  | Configure brp ts1 ts2 sjw =>
    cases hp : unpack given with
    | Init =>
      simp only [canConfigure, hp, configure, Mmio.wr_bind, Mmio.pure_eq,
        Mmio.exec_write_result, Mmio.exec_ret_result, Option.some.injEq] at hr
      rw [← hr, unpack_pack] at hn
      cases hn
    | _ =>
      simp only [canConfigure, hp, configure, Mmio.pure_eq, Mmio.exec_ret_result, Option.some.injEq] at hr
      exact absurd hr.symm hf
  | LeaveInit => exact .inl rfl
  | TxRequest id dlc dlo dhi =>
    cases hp : unpack given with
    | Normal =>
      cases es with
      | nil => simp [canTxRequest, hp, canTx] at hr
      | cons tsr es =>
        by_cases he : tsr &&& TSR_TME0 = 0
        · simp [canTxRequest, hp, canTx, he] at hr
          exact absurd hr.symm hf
        · exact .inr ⟨nofun, rfl, tsr, rfl, he⟩
    | _ =>
      simp [canTxRequest, hp, canTx] at hr
      exact absurd hr.symm hf
  | RxRelease =>
    cases hp : unpack given with
    | Normal =>
      cases es with
      | nil => simp [canRxRelease, hp, canRx] at hr
      | cons rf0r es =>
        by_cases hnn : rf0r &&& RF0R_FMP_MASK = 0
        · simp [canRxRelease, hp, canRx, hnn] at hr
          exact absurd hr.symm hf
        · exact .inr ⟨nofun, rfl, rf0r, rfl, hnn⟩
    | _ =>
      simp [canRxRelease, hp, canRx] at hr
      exact absurd hr.symm hf
  | Mode => exact absurd rfl hm

theorem faultOnly (base : UInt32) : FaultOnly (driver base) anyBus CAN_FAULT (Transfers base) LeftInit EnteredInit
      (fun word => unpack word = .Normal) Effective where
  acts_of_entitled := by
    intro _ given a _ ha
    exact (transfers_iff.mp ha).1
  acts_of_fault := by
    intro _ a
    exact transfers_iff.trans (and_iff_right (by decide))
  entitled_next := by
    intro _ given a result hr hf hn
    by_cases hm : a.1 = .Mode
    · simp only [driver, hm, if_true] at hf hn
      refine .inr ⟨?_, .inl ⟨hf, hn⟩⟩
      show a.1 ≠ .EnterInit
      rw [hm]
      exact nofun
    · simp only [driver, hm, if_false] at hf hn
      rcases normal_result hm hr hf hn with hl | ⟨hs, hg, he⟩
      · exact .inl ⟨hl, result, hr, hf⟩
      · exact .inr ⟨hs, .inr (transfers_iff.mpr ⟨hg, he⟩)⟩

end Gale.CanThin
