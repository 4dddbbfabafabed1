import Gale.AdcThin

namespace Gale.AdcThin

open Lib

def Accepted (e : Entry Call) : Prop := ∃ word, e.result = some word ∧ word ≠ ADC_FAULT

def Sampled (e : Entry Call) : Prop := e.call = .Read ∧ Accepted e

def SawEoc (base : UInt32) (e : Entry Call) : Prop :=
  e.call = .Poll ∧ ∃ sr, sr &&& SR_EOC ≠ 0 ∧ .Read (base + SR) sr ∈ e.accesses

def Started (e : Entry Call) : Prop := (∃ cr2Extra, e.call = .Start cr2Extra) ∧ Accepted e

def Reads {ε : Type} (input : Call × List ε) : Prop := input.1 = .Read ∧ input.2 ≠ []

variable {σ ε : Type} {device : Device σ ε} {st : σ} {base : UInt32}

theorem sampled_iff {given : UInt32} {input : Call × List ε} : Sampled ((driver base).entry device st given input) ↔
      (unpack given).phase = .Complete ∧ Reads input := by
  obtain ⟨call, es⟩ := input
  simp only [Sampled, Accepted, Reads, Driver.entry]
  by_cases hc : call = .Read
  · subst hc
    cases es with
    | nil => simp [outcome_read_nil]
    | cons event es =>
      by_cases hp : (unpack given).phase = .Complete <;> simp [outcome_read, hp]
  · simp [hc]

theorem accepted_cases {given word : UInt32} {a : Call × List ε} (ht : a.1.threads = true)
    (hr : ((driver base).outcome device st given a).result = some word)
    (hf : word ≠ ADC_FAULT) :
    (unpack word).phase = .Off ∨ (unpack word).phase = .Ready ∨
      (unpack word).phase = .Converting ∧ Started ((driver base).entry device st given a) ∨
      (unpack word).phase = .Complete ∧ (unpack given).phase = .Converting ∧
        SawEoc base ((driver base).entry device st given a) := by
  obtain ⟨call, es⟩ := a
  cases call with
  | Configure c sc | Sample | IsComplete => cases ht
  | Enable c extra =>
    rw [outcome_enable] at hr
    split at hr
    · cases hr
      exact .inr (.inl (unpack_pack_phase _))
    · exact absurd (Option.some.inj hr).symm hf
  | Start extra =>
    have hrt := hr
    rw [outcome_start] at hr
    split at hr
    · cases hr
      refine .inr (.inr (.inl ⟨unpack_pack_phase _, ⟨extra, rfl⟩, _, hrt, hf⟩))
    · exact absurd (Option.some.inj hr).symm hf
  | Poll =>
    by_cases hp : (unpack given).phase = .Converting
    · rw [outcome_poll, if_pos hp] at hr
      obtain ⟨l, hl, rfl⟩ := Option.map_eq_some_iff.mp hr
      obtain ⟨sr, hrd, hm⟩ := Mmio.ready_of_waits hl
      refine .inr (.inr (.inr ⟨unpack_pack_phase _, hp, rfl, sr, of_decide_eq_true hrd, ?_⟩))
      simp only [Driver.entry]
      rw [outcome_poll, if_pos hp]
      exact hm
    · rw [outcome_poll, if_neg hp] at hr
      exact absurd (Option.some.inj hr).symm hf
  | Read =>
    cases es with
    | nil => cases hr
    | cons event es =>
      rw [outcome_read] at hr
      have hw := Option.some.inj hr
      split at hw
      · rw [← hw]
        exact .inr (.inl (unpack_pack_phase _))
      · exact absurd hw.symm hf
  | Disable =>
    cases hr
    exact .inl (unpack_pack_phase _)

theorem faultOnly (base : UInt32) : FaultOnly (driver base) anyBus ADC_FAULT Sampled (SawEoc base) Started
      (fun word => (unpack word).phase = .Complete) Reads where
  acts_of_entitled := by
    intro _ given a _ ha
    exact (sampled_iff.mp ha).1
  acts_of_fault := by
    intro _ a
    exact sampled_iff.trans (and_iff_right (by decide))
  entitled_next := by
    intro _ given a result hr hf hcm
    cases ht : a.1.threads with
    | true =>
      simp only [driver, ht, if_true] at hf hcm
      rcases accepted_cases ht hr hf with h | h | ⟨h, -⟩ | ⟨-, -, hs⟩
      · simp [h] at hcm
      · simp [h] at hcm
      · simp [h] at hcm
      · exact .inl hs
    | false =>
      simp only [driver, ht] at hf hcm
      refine .inr ⟨?_, .inl ⟨hf, hcm⟩⟩
      rintro ⟨⟨extra, hc⟩, -⟩
      rw [show a.1 = .Start extra from hc] at ht
      cases ht

end Gale.AdcThin
