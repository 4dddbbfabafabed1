import Gale.Lib.Bits
import Gale.WdgThin

namespace Gale.WdgThin

open Lib

def KeyWritten (base key : UInt32) (e : Entry Call) : Prop := .Write (base + KR) key ∈ e.accesses

def Relies (base : UInt32) (e : Entry Call) : Prop :=
  KeyWritten base KEY_REFRESH e ∨ e.call = .IsRunning ∧ e.result = some 1

def Call.relies : Call → Bool
  | .Refresh | .IsRunning => true
  | _ => false

theorem phDec_phEnc (p : Phase) : phDec (phEnc p) = p := by
  cases p <;> decide

theorem toNat_phEnc (p : Phase) : (phEnc p).toNat < 4 := by
  cases p <;> decide

theorem toNat_config_lt (w : Iwdg) :
    (((w.prescaler &&& PSC_MASK) <<< PSC_SHIFT) ||| (w.reload &&& RLD_MASK)).toNat < 2 ^ 15 := by
  have hp : (w.prescaler &&& PSC_MASK).toNat ≤ 7 := Bits.toNat_and_le _ _
  have hr : (w.reload &&& RLD_MASK).toNat ≤ 4095 := Bits.toNat_and_le _ _
  rw [Bits.toNat_field (by decide) (by show _ < 2 ^ 20; omega) (by show _ < 2 ^ 12; omega)]
  show _ * 2 ^ 12 + _ < 2 ^ 15
  omega

theorem unpack_pack_phase (w : Iwdg) : (unpack (pack w)).phase = w.phase := by
  have hl := toNat_config_lt w
  simp only [unpack, pack, UInt32.or_assoc]
  rw [show PHASE_SHIFT = 30 from rfl, Bits.tagged_shiftRight (toNat_phEnc _) (by omega), phDec_phEnc]

variable {base : UInt32}

theorem relies_iff {given : UInt32} {a : Call × List UInt32} : Relies base ((driver base).entry anyBus () given a) ↔
      (unpack given).phase = .Running ∧ a.1.relies = true := by
  obtain ⟨call, es⟩ := a
  simp only [Relies, KeyWritten, Driver.entry, Driver.outcome, driver]
  cases call with
  | Unlock =>
    cases hp : (unpack given).phase <;> simp [wdgUnlock, unlock, hp, Call.relies] <;> decide
  | Configure prescaler reload =>
    cases hp : (unpack given).phase with
    | Unlocked =>
      have hpr : KR ≠ PR := by decide
      have hr : KR ≠ RLR := by decide
      simp [wdgConfigure, setConfig, hp, hpr, hr]
    | _ => simp [wdgConfigure, setConfig, hp, Call.relies]
  | Lock => simp [Call.relies]
  | Start =>
    cases hp : (unpack given).phase with
    | Configured =>
      simp [wdgStart, start, hp]
      decide
    | _ => simp [wdgStart, start, hp, Call.relies]
  | Refresh =>
    cases hp : (unpack given).phase <;> simp [wdgRefresh, refresh, hp, Call.relies]
  | IsRunning =>
    by_cases hp : (unpack given).phase = .Running <;>
      simp [wdgIsRunning, hp, Call.relies]

theorem running_result {given word : UInt32} {a : Call × List UInt32} (hq : a.1 ≠ .IsRunning)
    (hr : ((driver base).outcome anyBus () given a).result = some word)
    (hf : word ≠ WDG_FAULT) (hrn : (unpack word).phase = .Running) :
    KeyWritten base KEY_START ((driver base).entry anyBus () given a) ∨
      (unpack given).phase = .Running ∧ a.1.relies = true := by
  obtain ⟨call, es⟩ := a
  simp only [KeyWritten, Driver.entry, Driver.outcome, driver] at hr ⊢
  cases call with
  | Unlock =>
    cases hp : (unpack given).phase <;> simp [wdgUnlock, unlock, hp] at hr <;>
      first
        | exact absurd hr.symm hf
        | (rw [← hr, unpack_pack_phase] at hrn; cases hrn)
  | Configure prescaler reload =>
    cases hp : (unpack given).phase with
    | Unlocked =>
      simp only [wdgConfigure, setConfig, hp, Mmio.spin_bind, Mmio.wr_bind, Mmio.pure_eq,
        Mmio.exec_spin_result, Mmio.exec_write_result, Mmio.exec_ret_result] at hr
      obtain ⟨_, _, _, _, hw⟩ := hr
      cases hw
      rw [unpack_pack_phase] at hrn
      cases hrn
    | _ =>
      simp [wdgConfigure, setConfig, hp] at hr
      exact absurd hr.symm hf
  | Lock =>
    cases hp : (unpack given).phase with
    | Unlocked =>
      simp [wdgLock, lock, hp] at hr
      rw [← hr, unpack_pack_phase] at hrn
      cases hrn
    | _ =>
      simp [wdgLock, lock, hp] at hr
      exact absurd hr.symm hf
  | Start =>
    cases hp : (unpack given).phase with
    | Configured => simp [wdgStart, start, hp]
    | _ =>
      simp [wdgStart, start, hp] at hr
      exact absurd hr.symm hf
  | Refresh =>
    cases hp : (unpack given).phase with
    | Running => exact .inr ⟨rfl, rfl⟩
    | _ =>
      simp [wdgRefresh, refresh, hp] at hr
      exact absurd hr.symm hf
  | IsRunning => exact absurd rfl hq

theorem faultOnly (base : UInt32) : FaultOnly (driver base) anyBus WDG_FAULT (Relies base) (KeyWritten base KEY_START)
      (fun _ => False) (fun word => (unpack word).phase = .Running)
      (fun a => a.1.relies = true) where
  acts_of_entitled := by
    intro _ given a _ ha
    exact (relies_iff.mp ha).1
  acts_of_fault := by
    intro _ a
    exact relies_iff.trans (and_iff_right (by decide))
  entitled_next := by
    intro _ given a result hr hf hrn
    by_cases hq : a.1 = .IsRunning
    · simp only [driver, hq, if_true] at hf hrn
      exact .inr ⟨not_false, .inl ⟨hf, hrn⟩⟩
    · simp only [driver, hq, if_false] at hf hrn
      rcases running_result hq hr hf hrn with hs | hrl
      · exact .inl hs
      · exact .inr ⟨not_false, .inr (relies_iff.mpr hrl)⟩

end Gale.WdgThin
