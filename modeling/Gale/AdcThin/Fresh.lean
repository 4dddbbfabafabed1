import Gale.AdcThin.Fault

namespace Gale.AdcThin

open Lib

-- The registers of the converter. The end of a conversion sets EOC, and reading
-- the data register clears it.
structure Regs where
  cr2 : UInt32
  eoc : Bool
  dr : UInt32

namespace Regs

def reset : Regs where
  cr2 := 0
  eoc := false
  dr := 0

def completes (regs : Regs) (result : UInt32) : Regs := { regs with eoc := true, dr := result }

def happens (regs : Regs) : Option UInt32 → Regs
  | some result => regs.completes result
  | none => regs

def read (base : UInt32) (regs : Regs) (event : Option UInt32) (addr : UInt32) : UInt32 × Regs :=
  let regs := regs.happens event
  if addr = base + SR then (if regs.eoc then SR_EOC else 0, regs)
  else if addr = base + DR then (regs.dr, { regs with eoc := false })
  else if addr = base + CR2 then (regs.cr2, regs)
  else (0, regs)

def write (base : UInt32) (regs : Regs) (addr value : UInt32) : Regs :=
  if addr = base + CR2 then { regs with cr2 := value } else regs

end Regs

def device (base : UInt32) : Device Regs (Option UInt32) where
  read := Regs.read base
  write := Regs.write base

-- The exported calls for a caller that keeps its word when it is given the fault word.
def keeping (base : UInt32) : Driver Call where
  program := (driver base).program
  thread call given result := if call.threads = true ∧ result ≠ ADC_FAULT then result else given

inductive Input where
  | Completes (result : UInt32)
  | Call (call : Call) (events : List (Option UInt32))

def step (base : UInt32) (s : Session Call Regs) : Input → Option (Session Call Regs)
  | .Completes result => some { s with device := s.device.completes result }
  | .Call call events => s.step (keeping base) (device base) (call, events)

def ReadsDr (base : UInt32) (e : Entry Call) : Prop := ∃ value, .Read (base + DR) value ∈ e.accesses

-- The data register is read once for a conversion that was started, after its
-- end was seen, and the converter does not run on by itself.
structure Fresh (base : UInt32) (s : Session Call Regs) : Prop where
  once : Guarded (ReadsDr base) Started (ReadsDr base) s.past
  seen : Guarded (ReadsDr base) (SawEoc base) Started s.past
  single : s.device.cr2 &&& CR2_CONT = 0

def Undisturbed (base : UInt32) (s : Session Call Regs) : Input → Prop
  | .Completes _ => True
  | .Call call events => ∀ given ∈ s.word,
      ((driver base).outcome (device base) s.device given (call, events)).result = some ADC_FAULT →
      ((driver base).outcome (device base) s.device given (call, events)).state = s.device

-- Samples are read in the complete phase only, and no accepted call asks for
-- continuous conversion.
def Proper (s : Session Call Regs) : Input → Prop
  | .Call .Read events => events ≠ [] → ∀ given ∈ s.word, (unpack given).phase = .Complete
  | .Call (.Enable channel cr2Extra) _ => ∀ given ∈ s.word, (unpack given).phase = .Off →
      channel ≤ MAX_CHANNEL → cr2Extra &&& CR2_CONT = 0
  | .Call (.Start cr2Extra) _ => ∀ given ∈ s.word, (unpack given).phase = .Ready →
      cr2Extra &&& CR2_CONT = 0
  | _ => True

section Entries

variable {σ ε : Type} {bus : Device σ ε} {st : σ} {base given : UInt32} {input : Call × List ε}

theorem readsDr_iff : ReadsDr base ((driver base).entry bus st given input) ↔ Reads input := by
  obtain ⟨call, evs⟩ := input
  simp only [ReadsDr, Reads, Driver.entry]
  cases call with
  | Configure c sc => simp [outcome_configure]
  | Enable c extra =>
    rw [outcome_enable]
    split <;> simp
  | Start extra =>
    rw [outcome_start]
    split <;> simp
  | Poll =>
    rw [outcome_poll]
    split
    · simp only [reduceCtorEq, false_and, iff_false]
      rintro ⟨v, hm⟩
      obtain ⟨_, hr⟩ := Mmio.mem_waits hm
      have ha : base + DR = base + SR := (Access.Read.inj hr).1
      exact absurd (add_left_cancel ha) (by decide)
    · simp
  | Read =>
    cases evs with
    | nil => simp [outcome_read_nil]
    | cons event evs => simp [outcome_read]
  | Sample | IsComplete => simp [Driver.outcome, driver, Mmio.exec]
  | Disable => simp [outcome_disable]

theorem started_iff : Started ((driver base).entry bus st given input) ↔
    (∃ extra, input.1 = .Start extra) ∧ (unpack given).phase = .Ready := by
  simp only [Started, Accepted, Driver.entry]
  refine and_congr_right ?_
  rintro ⟨extra, hc⟩
  obtain ⟨call, evs⟩ := input
  cases hc
  rw [outcome_start]
  split
  · next hp => simp [hp]
  · next hp => simp [hp]

theorem next_word {result : UInt32} (hrd : Reads input → (unpack given).phase = .Complete)
    (hrs : ((driver base).outcome bus st given input).result = some result) :
    ((unpack ((keeping base).thread input.1 given result)).phase = .Converting →
      Started ((driver base).entry bus st given input) ∨ (unpack given).phase = .Converting ∧ ¬ Reads input) ∧
    ((unpack ((keeping base).thread input.1 given result)).phase = .Complete → ¬ Reads input ∧
        (SawEoc base ((driver base).entry bus st given input) ∧
            (unpack given).phase = .Converting ∨ (unpack given).phase = .Complete)) := by
  by_cases hn : input.1.threads = true ∧ result ≠ ADC_FAULT
  · simp only [keeping, if_pos hn]
    rcases accepted_cases hn.1 hrs hn.2 with h | h | ⟨h, hs⟩ | ⟨h, hg, hsn⟩
    · simp [h]
    · simp [h]
    · simp [h, hs]
    · have hq : ¬ Reads input := fun hr => by simp [hrd hr] at hg
      simp [h, hg, hsn, hq]
  · simp only [keeping, if_neg hn]
    have hq : ¬ Reads input := by
      intro hr
      have hsm : Sampled ((driver base).entry bus st given input) :=
        sampled_iff.mpr ⟨hrd hr, hr⟩
      obtain ⟨hc, word, hw, hne⟩ := hsm
      obtain rfl : result = word := Option.some.inj (hrs.symm.trans hw)
      exact hn ⟨by rw [hr.1]; rfl, hne⟩
    exact ⟨fun hp => .inr ⟨hp, hq⟩, fun hp => ⟨hq, .inr hp⟩⟩

end Entries

section Device

variable {base given : UInt32} {regs : Regs} {es : List (Option UInt32)} (event : Option UInt32)

theorem read_sr : (device base).read regs event (base + SR) =
      (if (regs.happens event).eoc then SR_EOC else 0, regs.happens event) := by
  simp [device, Regs.read]

theorem read_dr : (device base).read regs event (base + DR) =
      ((regs.happens event).dr, { regs.happens event with eoc := false }) := by
  have hne : DR ≠ SR := by decide
  simp [device, Regs.read, hne]

theorem happens_eoc (h : regs.eoc = true) : (regs.happens event).eoc = true := by
  cases event with
  | none => exact h
  | some result => rfl

theorem happens_cr2 : (regs.happens event).cr2 = regs.cr2 := by
  cases event <;> rfl

theorem pollWaits_cr2 : (pollWaits (device base) base regs es).state.cr2 = regs.cr2 := by
  induction es generalizing regs with
  | nil => rfl
  | cons event es ih =>
    simp only [pollWaits, Mmio.waits, read_sr] at ih ⊢
    split
    · exact happens_cr2 event
    · exact ih.trans (happens_cr2 event)

theorem pollWaits_keeps_eoc (h : regs.eoc = true) : (pollWaits (device base) base regs es).state.eoc = true := by
  induction es generalizing regs with
  | nil => exact h
  | cons event es ih =>
    simp only [pollWaits, Mmio.waits, read_sr] at ih ⊢
    split
    · exact happens_eoc event h
    · exact ih (happens_eoc event h)

theorem pollWaits_eoc {sr : UInt32} (hsr : sr &&& SR_EOC ≠ 0)
    (hm : .Read (base + SR) sr ∈ (pollWaits (device base) base regs es).accesses) :
    (pollWaits (device base) base regs es).state.eoc = true := by
  induction es generalizing regs with
  | nil => simp [pollWaits, Mmio.waits] at hm
  | cons event es ih =>
    simp only [pollWaits, Mmio.waits, read_sr] at ih hm ⊢
    cases he : (regs.happens event).eoc with
    | true =>
      exact he
    | false =>
      simp only [he, Bool.false_eq_true, if_false] at hm ⊢
      rcases List.mem_cons.mp hm with heq | hm
      · obtain ⟨-, rfl⟩ := Access.Read.inj heq
        exact absurd (UInt32.zero_and) hsr
      · exact ih hm

theorem outcome_keeps_eoc {input : Call × List (Option UInt32)} (hq : ¬ Reads input) (h : regs.eoc = true) :
    ((driver base).outcome (device base) regs given input).state.eoc = true := by
  obtain ⟨call, es⟩ := input
  have hw : ∀ (regs : Regs) addr v, regs.eoc = true → ((device base).write regs addr v).eoc = true := by
    intro regs addr v h
    simp only [device, Regs.write]
    split <;> exact h
  cases call with
  | Configure c sc =>
    exact hw _ _ _ (hw _ _ _ (hw _ _ _ h))
  | Enable c extra =>
    rw [outcome_enable]
    split
    · exact hw _ _ _ h
    · exact h
  | Start extra =>
    rw [outcome_start]
    split
    · exact hw _ _ _ h
    · exact h
  | Poll =>
    rw [outcome_poll]
    split
    · exact pollWaits_keeps_eoc h
    · exact h
  | Read =>
    cases es with
    | nil => exact h
    | cons event es => exact absurd ⟨rfl, List.cons_ne_nil _ _⟩ hq
  | Sample | IsComplete => exact h
  | Disable =>
    exact hw _ _ _ h

theorem sawEoc_eoc {input : Call × List (Option UInt32)}
    (h : SawEoc base ((driver base).entry (device base) regs given input)) :
    ((driver base).outcome (device base) regs given input).state.eoc = true := by
  obtain ⟨call, es⟩ := input
  obtain ⟨hc, sr, hsr, hm⟩ := h
  cases hc
  simp only [Driver.entry] at hm
  rw [outcome_poll] at hm ⊢
  split at hm
  · next hp =>
      rw [if_pos hp]
      exact pollWaits_eoc hsr hm
  · cases hm

theorem and_cont_of_adon (extra : UInt32) : (CR2_ADON ||| extra) &&& CR2_CONT = extra &&& CR2_CONT := by
  rw [Bits.or_and_distrib, show CR2_ADON &&& CR2_CONT = 0 from by decide, UInt32.zero_or]

theorem and_cont_of_start (extra : UInt32) : startWord extra &&& CR2_CONT = extra &&& CR2_CONT := by
  rw [startWord, Bits.or_and_distrib,
    show (CR2_ADON ||| CR2_EXTTRIG ||| CR2_EXTSEL_SWSTART ||| CR2_SWSTART) &&& CR2_CONT = 0 from
      by decide, UInt32.zero_or]

theorem write_cr2 (value : UInt32) : ((device base).write regs (base + CR2) value).cr2 = value := by
  simp [device, Regs.write]

theorem write_other {addr : UInt32} (v : UInt32) (h : addr ≠ CR2) :
    (device base).write regs (base + addr) v = regs := by
  simp [device, Regs.write, h]

theorem configure_regs (c sc : UInt32) : ((driver base).outcome (device base) regs given (.Configure c sc, es)).state =
      regs := by
  have hs : smprReg c ≠ CR2 := by
    unfold smprReg
    split <;> decide
  rw [outcome_configure]
  rw [write_other _ hs, write_other _ (by decide), write_other _ (by decide)]

end Device

variable {base : UInt32} {s next : Session Call Regs} {es : List (Option UInt32)}
  {input : Input}

theorem Proper.single {call : Call} {given : UInt32} (hproper : Proper s (.Call call es))
    (hg : s.word = some given) (h : s.device.cr2 &&& CR2_CONT = 0) :
    ((driver base).outcome (device base) s.device given (call, es)).state.cr2 &&& CR2_CONT = 0 := by
  cases call with
  | Configure c sc =>
    rw [configure_regs]
    exact h
  | Enable c extra =>
    rw [outcome_enable]
    split
    · next hp =>
        rw [write_cr2, and_cont_of_adon]
        exact hproper given hg hp.1 hp.2
    · exact h
  | Start extra =>
    rw [outcome_start]
    split
    · next hp =>
        dsimp only
        rw [write_cr2, and_cont_of_start]
        exact hproper given hg hp
    · exact h
  | Poll =>
    rw [outcome_poll]
    split
    · dsimp only
      rw [pollWaits_cr2]
      exact h
    · exact h
  | Read =>
    cases es with
    | nil => exact h
    | cons event es =>
      rw [outcome_read, read_dr]
      rw [happens_cr2]
      exact h
  | Sample | IsComplete => exact h
  | Disable =>
    rw [outcome_disable]
    rw [write_cr2]
    exact UInt32.zero_and

theorem Proper.undisturbed (hproper : Proper s input) : Undisturbed base s input := by
  cases input with
  | Completes result => trivial
  | Call call es =>
    intro given hg hr
    cases call with
    | Configure c sc => exact configure_regs c sc
    | Enable c extra =>
      rw [outcome_enable] at hr ⊢
      split at hr
      · exact absurd (Option.some.inj hr) (pack_ne_fault _)
      · next hp => rw [if_neg hp]
    | Start extra =>
      rw [outcome_start] at hr ⊢
      split at hr
      · exact absurd (Option.some.inj hr) (pack_ne_fault _)
      · next hp => rw [if_neg hp]
    | Poll =>
      rw [outcome_poll] at hr ⊢
      split at hr
      · obtain ⟨_, _, hw⟩ := Option.map_eq_some_iff.mp hr
        exact absurd hw (pack_ne_fault _)
      · next hp => rw [if_neg hp]
    | Read =>
      cases es with
      | nil => rfl
      | cons event es =>
        have hp := hproper (List.cons_ne_nil _ _) given hg
        rw [outcome_read] at hr
        have hw := Option.some.inj hr
        rw [if_pos hp] at hw
        exact absurd hw (pack_ne_fault _)
    | Sample | IsComplete => rfl
    | Disable => exact absurd (Option.some.inj hr) (pack_ne_fault _)

structure Inv (base : UInt32) (s : Session Call Regs) : Prop where
  fresh : Fresh base s
  started : ∀ given ∈ s.word, (unpack given).phase = .Converting ∨ (unpack given).phase = .Complete →
    Since Started (ReadsDr base) s.past
  ended : ∀ given ∈ s.word, (unpack given).phase = .Complete → Since (SawEoc base) Started s.past
  -- the result of a conversion that was not read is still there
  pending : Since Started (ReadsDr base) s.past → Since (SawEoc base) Started s.past →
    s.device.eoc = true

theorem inv_start (base : UInt32) : Inv base (Session.start (pack .off) .reset) where
  fresh := ⟨guarded_nil, guarded_nil, by decide⟩
  started := by
    intro given hg hp
    cases hg
    exact absurd hp (by decide)
  ended := by
    intro given hg hp
    cases hg
    exact absurd hp (by decide)
  pending := fun h => absurd h not_since_nil

theorem Inv.completes (h : Inv base s) (result : UInt32) :
    Inv base { s with device := s.device.completes result } where
  fresh := ⟨h.fresh.once, h.fresh.seen, h.fresh.single⟩
  started := h.started
  ended := h.ended
  pending := fun _ _ => rfl

theorem Inv.call (h : Inv base s) {call : Call} {given : UInt32} (hg : s.word = some given)
    (hproper : Proper s (.Call call es))
    (hw : next.word = ((driver base).outcome (device base) s.device given (call, es)).result.map
      ((keeping base).thread call given))
    (hd : next.device = ((driver base).outcome (device base) s.device given (call, es)).state)

    (hps : next.past = s.past ++ [(driver base).entry (device base) s.device given (call, es)]) :
    Inv base next := by
  have hrd : Reads (call, es) → (unpack given).phase = .Complete := by
    rintro ⟨hcl, he⟩
    cases hcl
    exact hproper he given hg
  have honce : Reads (call, es) → Since Started (ReadsDr base) s.past := fun hr =>
    h.started given hg (.inr (hrd hr))
  have hsn : Reads (call, es) → Since (SawEoc base) Started s.past := fun hr =>
    h.ended given hg (hrd hr)
  refine ⟨⟨?_, ?_, ?_⟩, ?_, ?_, ?_⟩
  · rw [hps]
    exact guarded_snoc.mpr ⟨h.fresh.once, fun hr => honce (readsDr_iff.mp hr)⟩
  · rw [hps]
    exact guarded_snoc.mpr ⟨h.fresh.seen, fun hr => hsn (readsDr_iff.mp hr)⟩
  · rw [hd]
    exact hproper.single hg h.fresh.single
  · intro word hm hp
    rw [hw] at hm
    obtain ⟨result, hrs, rfl⟩ := Option.map_eq_some_iff.mp hm
    obtain ⟨hc, hcm⟩ := next_word hrd hrs
    rw [hps, since_snoc]
    rcases hp with hp | hp
    · rcases hc hp with hs | ⟨hst, hq⟩
      · exact .inl hs
      · exact .inr ⟨h.started given hg (.inl hst), mt readsDr_iff.mp hq⟩
    · obtain ⟨hq, ⟨-, hgv⟩ | hgv⟩ := hcm hp
      · exact .inr ⟨h.started given hg (.inl hgv), mt readsDr_iff.mp hq⟩
      · exact .inr ⟨h.started given hg (.inr hgv), mt readsDr_iff.mp hq⟩
  · intro word hm hp
    rw [hw] at hm
    obtain ⟨result, hrs, rfl⟩ := Option.map_eq_some_iff.mp hm
    obtain ⟨-, ⟨hsw, -⟩ | hgv⟩ := (next_word hrd hrs).2 hp
    · rw [hps, since_snoc]
      exact .inl hsw
    · rw [hps, since_snoc]
      refine .inr ⟨h.ended given hg hgv, fun hs => ?_⟩
      have hry := (started_iff.mp hs).2
      rw [hgv] at hry
      cases hry
  · rw [hps, hd, since_snoc, since_snoc]
    rintro hu (hsw | ⟨hen, hst⟩)
    · exact sawEoc_eoc hsw
    · obtain ⟨hu, hq⟩ := hu.resolve_left hst
      exact outcome_keeps_eoc (mt readsDr_iff.mpr hq) (h.pending hu hen)

theorem step_call {call : Call} (hs : step base s (.Call call es) = some next) : ∃ given, s.word = some given ∧
      next.word = ((driver base).outcome (device base) s.device given (call, es)).result.map
        ((keeping base).thread call given) ∧
      next.device = ((driver base).outcome (device base) s.device given (call, es)).state ∧
      next.past = s.past ++ [(driver base).entry (device base) s.device given (call, es)] :=
  Session.step_eq_some (keeping base) (device base) hs

theorem Inv.step (h : Inv base s) (hproper : Proper s input) (hs : step base s input = some next) : Inv base next := by
  cases input with
  | Completes result =>
    cases hs
    exact h.completes result
  | Call call es =>
    obtain ⟨given, hg, hw, hd, hp⟩ := step_call hs
    exact h.call hg hproper hw hd hp

theorem Inv.breaks (h : Inv base s) (hproper : ¬ Proper s input)
    (hs : AdcThin.step base s input = some next) (hef : Undisturbed base s input) :
    ¬ Fresh base next := by
  refine fun hf => hproper ?_
  cases input with
  | Completes result => trivial
  | Call call es =>
    obtain ⟨given, hgv, hw, hd, hps⟩ := step_call hs
    have hsn := hf.single
    rw [hd] at hsn
    cases call with
    | Enable c extra =>
      intro given' hg hp hc
      obtain rfl : given = given' := Option.some.inj (hgv.symm.trans hg)
      rw [outcome_enable, if_pos ⟨hp, hc⟩] at hsn
      rwa [write_cr2, and_cont_of_adon] at hsn
    | Start extra =>
      intro given' hg hp
      obtain rfl : given = given' := Option.some.inj (hgv.symm.trans hg)
      rw [outcome_start, if_pos hp] at hsn
      dsimp only at hsn
      rwa [write_cr2, and_cont_of_start] at hsn
    | Read =>
      intro he given' hg
      obtain rfl : given = given' := Option.some.inj (hgv.symm.trans hg)
      by_contra hp
      have hr : ReadsDr base ((driver base).entry (device base) s.device given (.Read, es)) :=
        readsDr_iff.mpr ⟨rfl, he⟩
      have honce := hf.once
      have hse := hf.seen
      rw [hps] at honce hse
      -- the result is still there, and the rejected call takes it
      have hpn := h.pending ((guarded_snoc.mp honce).2 hr) ((guarded_snoc.mp hse).2 hr)
      cases es with
      | nil => exact he rfl
      | cons event es =>
        have hsm := hef given hgv (by rw [outcome_read]; exact congrArg some (if_neg hp))
        rw [outcome_read, read_dr] at hsm
        rw [← hsm] at hpn
        cases hpn
    | _ => trivial

theorem samples_fresh_iff (base : UInt32) (inputs : List Input) :
    Throughout (step base) (Fresh base) (Session.start (pack .off) .reset) inputs ∧
        Along (step base) (Undisturbed base) (Session.start (pack .off) .reset) inputs ↔
      Along (step base) Proper (Session.start (pack .off) .reset) inputs :=
  throughout_and_along_iff (Inv base) (fun _ h => h.fresh) (fun _ _ _ _ hproper _ => hproper.undisturbed)
    (fun _ _ _ h hproper hs => h.step hproper hs)
    (fun _ _ _ h hproper hs he => h.breaks hproper hs he) (inv_start base) inputs

-- A read while the conversion runs is rejected, and has taken the result that came
-- in the meantime; and the extra bits of adc_enable turn on continuous conversion.
theorem rejected_read_takes_sample :
    ¬ Throughout (step 0x40012400) (Fresh 0x40012400) (Session.start (pack .off) .reset)
        [.Call (.Enable 0 0) [], .Call (.Start 0) [], .Completes 7, .Call .Read [none]] ∧
      ¬ Along (step 0x40012400) (Undisturbed 0x40012400) (Session.start (pack .off) .reset)
        [.Call (.Enable 0 0) [], .Call (.Start 0) [], .Completes 7, .Call .Read [none]] ∧
      ¬ Throughout (step 0x40012400) (Fresh 0x40012400) (Session.start (pack .off) .reset)
        [.Call (.Enable 0 CR2_CONT) []] := by
  refine ⟨fun ht => ?_, fun ha => ?_, fun ht => ?_⟩
  · obtain ⟨event, hm, hp, -⟩ :=
      ((ht.last rfl).seen [_, _] _ [] rfl ⟨7, List.mem_singleton.mpr rfl⟩).exists_mem
    simp only [List.mem_cons, List.not_mem_nil, or_false] at hm
    rcases hm with rfl | rfl
    · cases hp
    · cases hp
  · have hs := ((((ha _ rfl).2 _ rfl).2 _ rfl).2 _ rfl).1 _ rfl rfl
    exact absurd (congrArg Regs.eoc hs) (by decide)
  · exact absurd (ht.last rfl).single (by decide)

end Gale.AdcThin
