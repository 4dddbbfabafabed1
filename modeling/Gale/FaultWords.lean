import Gale.CanThin.Fault
import Gale.WdgThin.Fault
import Gale.AdcThin.Fault
import Gale.DacThin.Fault

namespace Gale

open Lib

namespace CanThin

-- The mailbox and FIFO registers are written in the normal mode only.
def Inert (base : UInt32) (inputs : List (Call × List UInt32)) : Prop :=
  (driver base).Inert anyBus (Transfers base) LeftInit EnteredInit (pack .Sleep) () inputs

def Heeds (base : UInt32) (inputs : List (Call × List UInt32)) : Prop :=
  (driver base).Heeds anyBus CAN_FAULT Effective LeftInit EnteredInit (pack .Sleep) () inputs

theorem inert_iff (base : UInt32) (inputs : List (Call × List UInt32)) : Inert base inputs ↔ Heeds base inputs :=
  (faultOnly base).inert_iff (by decide) () inputs

end CanThin

namespace WdgThin

-- The refresh key and the answer that it runs come after the start key.
def Inert (base : UInt32) (inputs : List (Call × List UInt32)) : Prop :=
  (driver base).Inert anyBus (Relies base) (KeyWritten base KEY_START) (fun _ => False)
    (pack .idle) () inputs

def Heeds (base : UInt32) (inputs : List (Call × List UInt32)) : Prop :=
  (driver base).Heeds anyBus WDG_FAULT (fun input => input.1.relies = true)
    (KeyWritten base KEY_START) (fun _ => False) (pack .idle) () inputs

theorem inert_iff (base : UInt32) (inputs : List (Call × List UInt32)) : Inert base inputs ↔ Heeds base inputs :=
  (faultOnly base).inert_iff (by decide) () inputs

end WdgThin

namespace AdcThin

-- A sample is given after the end of the conversion was seen only.
def Inert (base : UInt32) (inputs : List (Call × List UInt32)) : Prop :=
  (driver base).Inert anyBus Sampled (SawEoc base) Started (pack .off) () inputs

def Heeds (base : UInt32) (inputs : List (Call × List UInt32)) : Prop :=
  (driver base).Heeds anyBus ADC_FAULT Reads (SawEoc base) Started (pack .off) () inputs

theorem inert_iff (base : UInt32) (inputs : List (Call × List UInt32)) : Inert base inputs ↔ Heeds base inputs :=
  (faultOnly base).inert_iff (by decide) () inputs

end AdcThin

namespace DacThin

-- The registers of a channel are written while it is enabled only.
def Inert (base : UInt32) (inputs : List (Call × List UInt32)) : Prop :=
  ∀ channel ≤ MAX_CHANNEL,
    (driver base).Inert anyBus (Drives base channel) (Enabled channel) Disabled (pack .off) () inputs

-- The fault word is a word of channel 1.
def Heeds (base : UInt32) (inputs : List (Call × List UInt32)) : Prop :=
  (driver base).Heeds anyBus DAC_FAULT (fun input => ∃ v, input.1 = .Load v) (Enabled 1) Disabled
    (pack .off) () inputs

theorem inert_iff (base : UInt32) (inputs : List (Call × List UInt32)) : Inert base inputs ↔ Heeds base inputs := by
  have ho : (unpack (pack .off)).phase = .Off := by decide
  have hon : (driver base).Inert anyBus (Drives base 1) (Enabled 1) Disabled (pack .off) () inputs ↔
      Heeds base inputs := by
    rw [(faultOnly base (by decide)).inert_iff (fun hw => hw.1 ho) () inputs]
    simp only [true_and]
    exact Iff.rfl
  constructor
  · intro h
    exact hon.mp (h 1 (by decide))
  · intro h c hc
    rcases eq_of_le_max hc with rfl | rfl
    · -- the word of c 0 is never the fault word
      rw [(faultOnly base (by decide)).inert_iff (fun hw => hw.1 ho) () inputs]
      exact along_of_forall fun _ _ _ _ hr => absurd hr.1 (by decide)
    · exact hon.mpr h

end DacThin

theorem fault_words_inert_iff (can wdg adc dac : UInt32)
    (canCalls : List (CanThin.Call × List UInt32)) (wdgCalls : List (WdgThin.Call × List UInt32))
    (adcCalls : List (AdcThin.Call × List UInt32)) (dacCalls : List (DacThin.Call × List UInt32)) :
    CanThin.Inert can canCalls ∧ WdgThin.Inert wdg wdgCalls ∧ AdcThin.Inert adc adcCalls ∧
        DacThin.Inert dac dacCalls ↔
      CanThin.Heeds can canCalls ∧ WdgThin.Heeds wdg wdgCalls ∧ AdcThin.Heeds adc adcCalls ∧
        DacThin.Heeds dac dacCalls := by
  rw [CanThin.inert_iff, WdgThin.inert_iff, AdcThin.inert_iff, DacThin.inert_iff]

-- In each driver a first call that is rejected gives the fault word, and the
-- call given that word goes through: a frame is sent before the controller left
-- its sleep, a watchdog that was not started is refreshed, a sample is given
-- though nothing was converted, and channel 1 is loaded though it is off.
theorem fault_words_not_inert :
    ¬ CanThin.Inert 0x40006400 [(.Configure 0 0 0 0, []), (.TxRequest 1 0 0 0, [CanThin.TSR_TME0])] ∧
      ¬ WdgThin.Inert 0x40003000 [(.Lock, []), (.Refresh, [])] ∧
      ¬ AdcThin.Inert 0x40012400 [(.Poll, []), (.Read, [5])] ∧
      ¬ DacThin.Inert 0x40007400 [(.Trigger, []), (.Load 5, [])] := by
  rw [CanThin.inert_iff, WdgThin.inert_iff, AdcThin.inert_iff, DacThin.inert_iff]
  refine ⟨fun h => ?_, fun h => ?_, fun h => ?_, fun h => ?_⟩
  · have hs := ((h _ rfl).2 _ rfl).1 rfl ⟨CanThin.TSR_TME0, rfl, by decide⟩
    exact absurd (since_singleton.mp hs).1 (by decide)
  · have hs := ((h _ rfl).2 _ rfl).1 rfl rfl
    exact absurd (since_singleton.mp hs) List.not_mem_nil
  · have hs := ((h _ rfl).2 _ rfl).1 rfl ⟨rfl, by decide⟩
    obtain ⟨-, sr, -, hr⟩ := since_singleton.mp hs
    exact absurd hr List.not_mem_nil
  · have hs := ((h _ rfl).2 _ rfl).1 rfl ⟨5, rfl⟩
    rcases since_singleton.mp hs with ⟨hc, -⟩ | ⟨channel, hc, -⟩
    · cases hc
    · cases hc

end Gale
