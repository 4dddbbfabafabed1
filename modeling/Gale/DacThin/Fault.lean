import Gale.DacThin

namespace Gale.DacThin

open Lib

def Drives (base channel : UInt32) (e : Entry Call) : Prop :=
  ∃ value, .Write (base + dhrOffset channel) value ∈ e.accesses ∨
    .Write (base + SWTRIGR) value ∈ e.accesses ∧ value &&& swtrigBit channel ≠ 0

-- Both dac_enable and dac_configure enable a channel, the latter by its lowest bit.
def Enabled (channel : UInt32) (e : Entry Call) : Prop :=
  (e.call = .Enable channel ∧ ∃ word, e.result = some word ∧ word ≠ DAC_FAULT) ∨
    ∃ other, e.call = .Configure other ∧ other &&& 1 = channel

def Disabled (e : Entry Call) : Prop := e.call = .Disable

def Entitles (channel word : UInt32) : Prop :=
  (unpack word).phase ≠ .Off ∧ (unpack word).channel = channel

variable {base ch : UInt32}

theorem drives_iff {given : UInt32} {a : Call × List UInt32} (hc : ch ≤ MAX_CHANNEL) :
    Drives base ch ((driver base).entry anyBus () given a) ↔ (unpack given).channel = ch ∧
        ((∃ v, a.1 = .Load v) ∧ (unpack given).phase ≠ .Off ∨ a.1 = .Trigger ∧ (unpack given).phase = .Loaded) := by
  obtain ⟨call, es⟩ := a
  obtain ⟨hcr, ht⟩ := dhrOffset_ne ch
  have hg := unpack_channel_le given
  have ho : SWTRIGR ≠ CR := by decide
  simp only [Drives, Driver.entry]
  cases call with
  | Configure o => simp [outcome_configure, hcr, ho]
  | Enable o =>
    rw [outcome_enable]
    split <;> simp [hcr, ho]
  | Load v =>
    have hne := (dhrOffset_ne (unpack given).channel).2.symm
    rw [outcome_load]
    split
    · next hp => simp [hp]
    · next hp => simp [hp, hne, dhrOffset_inj hc hg, eq_comm]
  | Trigger =>
    rw [outcome_trigger]
    split
    · next hp => simp [hp, ht, swtrigBit_and hg hc]
    · next hp => simp [hp]
  | Output => cases es <;> simp [Driver.outcome, driver, dacOutput]
  | Value | IsOutput => simp [Driver.outcome, driver]
  | Disable => simp [outcome_disable, hcr, ho]

theorem enabled_result {given word : UInt32} {a : Call × List UInt32} (ht : a.1.threads = true)
    (hr : ((driver base).outcome anyBus () given a).result = some word)
    (hf : word ≠ DAC_FAULT) (hw : Entitles ch word) :
    Enabled ch ((driver base).entry anyBus () given a) ∨
      a.1 ≠ .Disable ∧ Drives base ch ((driver base).entry anyBus () given a) := by
  obtain ⟨call, es⟩ := a
  cases call with
  | Configure o | Output | Value | IsOutput => cases ht
  | Enable o =>
    have hrt := hr
    rw [outcome_enable] at hr
    split at hr
    · next ho =>
        cases hr
        rw [Entitles, unpack_pack_channel ho.2] at hw
        exact .inl (.inl ⟨by rw [← hw.2]; rfl, _, hrt, hf⟩)
    · exact absurd (Option.some.inj hr).symm hf
  | Load v =>
    rw [outcome_load] at hr
    split at hr
    · exact absurd (Option.some.inj hr).symm hf
    · next hp =>
        cases hr
        rw [Entitles, unpack_pack_kept] at hw
        have hc : ch ≤ MAX_CHANNEL := hw.2 ▸ unpack_channel_le given
        exact .inr ⟨nofun, (drives_iff hc).mpr ⟨hw.2, .inl ⟨⟨v, rfl⟩, hp⟩⟩⟩
  | Trigger =>
    rw [outcome_trigger] at hr
    split at hr
    · next hp =>
        cases hr
        rw [Entitles, unpack_pack_kept] at hw
        have hc : ch ≤ MAX_CHANNEL := hw.2 ▸ unpack_channel_le given
        exact .inr ⟨nofun, (drives_iff hc).mpr ⟨hw.2, .inr ⟨rfl, hp⟩⟩⟩
    · exact absurd (Option.some.inj hr).symm hf
  | Disable =>
    cases hr
    rw [Entitles, unpack_pack_phase] at hw
    exact absurd rfl hw.1

theorem faultOnly (base : UInt32) (hc : ch ≤ MAX_CHANNEL) :
    FaultOnly (driver base) anyBus DAC_FAULT (Drives base ch) (Enabled ch) Disabled
      (Entitles ch) (fun a => ch = 1 ∧ ∃ v, a.1 = .Load v) where
  acts_of_entitled := by
    intro _ given a _ ha
    obtain ⟨hg, ⟨-, hp⟩ | ⟨-, hp⟩⟩ := (drives_iff hc).mp ha
    · exact ⟨hp, hg⟩
    · exact ⟨by rw [hp]; exact nofun, hg⟩
  acts_of_fault := by
    intro _ a
    have hf : (unpack DAC_FAULT).channel = 1 ∧ (unpack DAC_FAULT).phase = .Output := by decide
    rw [drives_iff hc, hf.1, hf.2]
    simp [eq_comm]
  entitled_next := by
    intro _ given a result hr hf hw
    cases ht : a.1.threads with
    | true =>
      simp only [driver, ht, if_true] at hf hw
      rcases enabled_result ht hr hf hw with he | ⟨hd, hdr⟩
      · exact .inl he
      · exact .inr ⟨hd, .inr hdr⟩
    | false =>
      simp only [driver, ht] at hf hw
      refine .inr ⟨?_, .inl ⟨hf, hw⟩⟩
      intro hd
      rw [show a.1 = .Disable from hd] at ht
      cases ht

end Gale.DacThin
