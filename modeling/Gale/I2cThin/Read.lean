import Gale.I2cThin.Theorems

namespace Gale.I2cThin

open Lib

def received (base : UInt32) (accesses : List Access) : List UInt32 :=
  accesses.filterMap fun
    | .Read addr value => if addr = base + DR then some (value &&& 0xFF) else none
    | .Write _ _ => none

def requests (base bit : UInt32) (accesses : List Access) : Nat :=
  accesses.countP fun
    | .Read _ _ => false
    | .Write addr value => addr = base + CR1 && value &&& bit ≠ 0

-- Whenever a byte is taken, CR1 was last written with ACK if more bytes are to
-- come, and without ACK but with STOP if it is the last one.
def Acked (base : UInt32) : Option UInt32 → List Access → Prop
  | _, [] => True
  | control, .Write addr value :: rest =>
    Acked base (if addr = base + CR1 then some value else control) rest
  | control, .Read addr _ :: rest =>
    (addr = base + DR → ∃ written, control = some written ∧
      if received base rest = [] then written &&& CR1_ACK = 0 ∧ written &&& CR1_STOP ≠ 0
      else written &&& CR1_ACK ≠ 0) ∧
    Acked base control rest

def stepResult (entry : Entry Call) : Option UInt32 :=
  match entry.call with
  | .Step _ => entry.result
  | _ => none

def returned (s : Session Call Unit) : List UInt32 := s.past.filterMap stepResult

def transaction (count read : UInt32) (begun : List UInt32) (steps : List (UInt32 × List UInt32)) :
    List (Call × List UInt32) :=
  opening count read begun ++ moving steps ++ [(.Stop, [])]

structure Transacts (base : UInt32) (count : Nat) (s : Session Call Unit) : Prop where
  delivered : returned s = received base (traffic s)
  taken : (received base (traffic s)).length = count
  acked : Acked base none (traffic s)
  started : requests base CR1_START (traffic s) = 1
  stopped : requests base CR1_STOP (traffic s) = 1

section Polls

variable (base : UInt32)

theorem sr1_ne {register : UInt32} (h : SR1 ≠ register) : base + SR1 ≠ base + register := by
  rw [ne_eq, UInt32.add_right_inj]
  exact h

theorem received_besides (accesses : List Access) :
    received base (besides (base + SR1) accesses) = received base accesses := by
  have hne : base + SR1 ≠ base + DR := sr1_ne base (by decide)
  unfold received besides
  rw [List.filterMap_filter]
  refine List.filterMap_congr fun a _ => ?_
  by_cases hp : a.addr = base + SR1
  · cases a with
    | Read addr v =>
      cases hp
      simp [hne]
    | Write addr v => simp
  · simp [hp]

theorem requests_besides (bit : UInt32) (accesses : List Access) :
    requests base bit (besides (base + SR1) accesses) = requests base bit accesses := by
  have hne : base + SR1 ≠ base + CR1 := sr1_ne base (by decide)
  unfold requests besides
  rw [List.countP_filter]
  refine List.countP_congr fun a _ => ?_
  cases a with
  | Read addr v => simp
  | Write addr v =>
    by_cases hp : addr = base + SR1 <;> simp [hp, hne, Access.addr]

theorem acked_besides (control : Option UInt32) (accesses : List Access) :
    Acked base control (besides (base + SR1) accesses) ↔ Acked base control accesses := by
  have hdr : base + SR1 ≠ base + DR := sr1_ne base (by decide)
  have hcr : base + SR1 ≠ base + CR1 := sr1_ne base (by decide)
  induction accesses generalizing control with
  | nil => rfl
  | cons a rest ih =>
    by_cases hp : a.addr = base + SR1
    · rw [besides_cons_polled hp]
      refine (ih control).trans ?_
      cases a with
      | Read addr v =>
        cases hp
        simp [Acked, hdr]
      | Write addr v =>
        cases hp
        simp [Acked, hcr]
    · rw [besides_cons_other hp]
      cases a with
      | Read addr v => simp [Acked, ih, received_besides]
      | Write addr v => simp [Acked, ih]

end Polls

def readTrace (base : UInt32) : List UInt32 → List Access
  | [] => []
  | value :: rest =>
    (if rest = [] then [.Write (base + CR1) (CR1_PE ||| CR1_STOP)] else []) ++
      .Read (base + DR) value :: readTrace base rest

section Trace

variable {base : UInt32}

@[simp] theorem received_read (v : UInt32) (rest : List Access) :
    received base (.Read (base + DR) v :: rest) = (v &&& 0xFF) :: received base rest := by
  simp [received]

@[simp] theorem received_write (addr v : UInt32) (rest : List Access) :
    received base (.Write addr v :: rest) = received base rest := rfl

@[simp] theorem requests_nil (bit : UInt32) : requests base bit [] = 0 := rfl

@[simp] theorem requests_read (bit addr v : UInt32) (rest : List Access) :
    requests base bit (.Read addr v :: rest) = requests base bit rest := by
  simp [requests]

@[simp] theorem requests_write (bit v : UInt32) (rest : List Access) :
    requests base bit (.Write (base + CR1) v :: rest) = requests base bit rest + if v &&& bit ≠ 0 then 1 else 0 := by
  simp [requests, List.countP_cons]

theorem received_append (first second : List Access) :
    received base (first ++ second) = received base first ++ received base second :=
  List.filterMap_append

theorem requests_append (bit : UInt32) (first second : List Access) :
    requests base bit (first ++ second) = requests base bit first + requests base bit second :=
  List.countP_append

theorem readTrace_last (v : UInt32) : readTrace base [v] =
      [.Write (base + CR1) (CR1_PE ||| CR1_STOP), .Read (base + DR) v] := rfl

theorem readTrace_more (v next : UInt32) (rest : List UInt32) : readTrace base (v :: next :: rest) =
      .Read (base + DR) v :: readTrace base (next :: rest) := rfl

theorem received_readTrace (vs : List UInt32) : received base (readTrace base vs) = vs.map (· &&& 0xFF) := by
  induction vs with
  | nil => rfl
  | cons v rest ih =>
    cases rest with
    | nil => simp [readTrace_last, received]
    | cons next rest =>
      rw [readTrace_more, received_read, ih]
      rfl

theorem requests_start_readTrace (vs : List UInt32) : requests base CR1_START (readTrace base vs) = 0 := by
  induction vs with
  | nil => rfl
  | cons v rest ih =>
    cases rest with
    | nil =>
      rw [readTrace_last, requests_write, requests_read, requests_nil]
      decide
    | cons next rest => rw [readTrace_more, requests_read, ih]

variable {vs : List UInt32}

theorem requests_stop_readTrace (h : vs ≠ []) : requests base CR1_STOP (readTrace base vs) = 1 := by
  induction vs with
  | nil => exact absurd rfl h
  | cons v rest ih =>
    cases rest with
    | nil =>
      rw [readTrace_last, requests_write, requests_read, requests_nil]
      decide
    | cons next rest => rw [readTrace_more, requests_read, ih (List.cons_ne_nil _ _)]

theorem acked_readTrace (h : vs ≠ []) {w : UInt32}
    (hak : w &&& CR1_ACK ≠ 0) {after : List Access} (ha : received base after = [])
    (hac : Acked base (some (CR1_PE ||| CR1_STOP)) after) :
    Acked base (some w) (readTrace base vs ++ after) := by
  induction vs with
  | nil => exact absurd rfl h
  | cons v rest ih =>
    cases rest with
    | nil =>
      rw [readTrace_last]
      simp only [List.cons_append, List.nil_append, Acked, if_true]
      refine ⟨fun _ => ⟨_, rfl, ?_⟩, hac⟩
      rw [if_pos ha]
      decide
    | cons next rest =>
      rw [readTrace_more, List.cons_append]
      refine ⟨fun _ => ⟨_, rfl, ?_⟩, ih (List.cons_ne_nil _ _)⟩
      have hm : received base (readTrace base (next :: rest) ++ after) ≠ [] := by
        rw [received_append, received_readTrace]
        exact List.cons_ne_nil _ _
      rw [if_neg hm]
      exact hak

end Trace

theorem left_read {n : Nat} {word : UInt32}
    (h : Left (fun x => pack ⟨.Active, x, true⟩) (pack ⟨.Complete, 0, true⟩) 29 (n + 1) word)
    (hn : n + 1 < 2 ^ 29) :
    (unpack word).phase = .Active ∧ (unpack word).read = true ∧ ackByte (unpack word) = decide (n ≠ 0) := by
  cases h with
  | more _ =>
    have hr : (UInt32.ofNat (n + 1) &&& REM_MASK).toNat = n + 1 := by
      rw [toNat_remaining, UInt32.toNat_ofNat']
      omega
    have hgt : UInt32.ofNat (n + 1) &&& REM_MASK > 1 ↔ n ≠ 0 := by
      rw [gt_iff_lt, UInt32.lt_iff_toNat_lt, hr]
      show 1 < n + 1 ↔ n ≠ 0
      omega
    simp only [unpack_pack, ackByte, hgt, decide_true, Bool.true_and, and_self]

section Run

variable {base : UInt32} {s next : Session Call Unit} {entry : Entry Call}

theorem traffic_snoc (hp : next.past = s.past ++ [entry]) : traffic next = traffic s ++ entry.accesses := by
  rw [traffic, hp, List.flatMap_append, List.flatMap_singleton, ← traffic]

theorem returned_snoc (hp : next.past = s.past ++ [entry]) :
    returned next = returned s ++ (stepResult entry).toList := by
  rw [returned, hp, List.filterMap_append, ← returned]
  cases hr : stepResult entry with
  | none => rw [List.filterMap_cons_none hr]; rfl
  | some result => rw [List.filterMap_cons_some hr]; rfl

end Run

theorem moving_reads {base : UInt32} {ss : List (UInt32 × List UInt32)} (hf : ss.length < 2 ^ 29)
    {s fin : Session Call Unit} {given reached : UInt32}
    (hl : Left (fun x => pack ⟨.Active, x, true⟩) (pack ⟨.Complete, 0, true⟩) 29 ss.length given)
    (hrn : calls base s (moving ss) = some fin) (hg : s.word = some given)
    (hfn : fin.word = some reached) :
    besides (base + SR1) (traffic fin) =
        besides (base + SR1) (traffic s) ++ readTrace base (ss.map fun p => taken base p.2) ∧
      returned fin = returned s ++ List.iterate stepWord (stepWord given) ss.length := by
  induction ss generalizing s given with
  | nil =>
    cases hrn
    exact ⟨(List.append_nil _).symm, (List.append_nil _).symm⟩
  | cons p rest ih =>
    obtain ⟨mid, hs, hrs⟩ := run_cons_eq_some.mp hrn
    obtain ⟨word, hw⟩ := Session.word_of_run _ _ hrs hfn
    obtain ⟨⟨result, hr, hth⟩, hpast⟩ := Session.step_returned _ _ hs hg hw
    obtain rfl : result = stepWord given := outcome_step_result hr
    obtain rfl : stepWord given = word := hth
    obtain ⟨ht, hrt⟩ := ih (Nat.lt_of_succ_lt hf) ((fieldCount true).left_step hl)
      hrs hw
    obtain ⟨hp, hrd, hac⟩ := left_read hl hf
    have ha := outcome_step_read hp hrd hr
    constructor
    · rw [ht, traffic_snoc hpast, besides_append, List.append_assoc]
      congr 1
      rw [Driver.entry, ha, hac]
      cases rest with
      | nil | cons next rest => rfl
    · rw [hrt, returned_snoc hpast, List.append_assoc]
      congr 1
      simp only [stepResult, Driver.entry, hr]
      rfl

def Ran (base word count read : UInt32) (final : Session Call Unit) : Prop :=
  ∃ begun steps reached, steps.length = count.toNat ∧
    calls base (.start word ()) (transaction count read begun steps) = some final ∧
    final.word = some reached

section Transaction

variable {base word count read : UInt32}

variable {fin : Session Call Unit}

theorem transaction_returned (hi : (unpack word).phase = .Idle) (hc : count ≠ 0)
    (hft : count.toNat < 2 ^ 29) (hrd : read ≠ 0) {begun : List UInt32}
    {ss : List (UInt32 × List UInt32)} (hs : ss.length = count.toNat)
    {reached : UInt32}
    (hru : calls base (.start word ()) (transaction count read begun ss) = some fin)
    (hfn : fin.word = some reached) :
    besides (base + SR1) (traffic fin) = .Write (base + CR1) (CR1_PE ||| CR1_START ||| CR1_ACK) ::
          (readTrace base (ss.map fun p => taken base p.2) ++ [.Write (base + CR1) (CR1_PE ||| CR1_STOP)]) ∧
      returned fin = List.iterate stepWord (stepWord (pack ⟨.Active, count, true⟩)) count.toNat := by
  have hne : base + CR1 ≠ base + SR1 := by
    rw [ne_eq, UInt32.add_right_inj]
    decide
  obtain ⟨moved, hmv, hl⟩ := run_append_eq_some.mp hru
  obtain ⟨op, ho, hm⟩ := run_append_eq_some.mp hmv
  obtain ⟨given, hg⟩ := Session.word_of_run _ _ hl hfn
  obtain ⟨first, hf⟩ := Session.word_of_run _ _ hm hg
  obtain ⟨hw, hop⟩ := opening_returned hi hc ho hf
  have hrn : decide (read ≠ 0) = true := decide_eq_true hrd
  rw [hrn] at hw
  subst hw
  have hn : returned op = [] := by
    have hcs : op.past.map Entry.call = [.Start count read, .AddrAck] :=
      Session.run_calls _ _ ho
    refine List.filterMap_eq_nil_iff.mpr fun entry he => ?_
    have hcl : entry.call ∈ op.past.map Entry.call := List.mem_map_of_mem he
    rw [hcs, List.mem_pair] at hcl
    rcases hcl with h | h
    · rw [stepResult, h]
    · rw [stepResult, h]
  have hps : 0 < count.toNat := UInt32.lt_iff_toNat_lt.mp (UInt32.pos_iff_ne_zero.mpr hc)
  have hlf := (fieldCount true).left_active hc
  rw [Nat.mod_eq_of_lt (by omega), Nat.sub_add_cancel hps, ← hs] at hlf
  obtain ⟨ht, hr⟩ := moving_reads (hs ▸ hft) hlf hm hf hg
  obtain ⟨stopped, hst, hnl⟩ := run_cons_eq_some.mp hl
  cases hnl
  obtain ⟨-, hp⟩ := Session.step_returned _ _ hst hg hfn
  constructor
  · rw [traffic_snoc hp, besides_append, ht, hop, if_pos hrd]
    simp only [Driver.entry, outcome_stop, besides_write hne]
    rfl
  · rw [returned_snoc hp, hr, hn, hs]
    exact List.append_nil _

theorem received_of_trace {vs : List UInt32} {first last : UInt32} (ht : besides (base + SR1) (traffic fin) =
      .Write (base + CR1) first :: (readTrace base vs ++ [.Write (base + CR1) last])) :
    received base (traffic fin) = vs.map (· &&& 0xFF) := by
  rw [← received_besides, ht, received_write, received_append, received_readTrace]
  exact List.append_nil _

theorem stepWord_ne_byte (count v : UInt32) : stepWord (pack ⟨.Active, count, true⟩) ≠ v &&& 0xFF := by
  have hb : (unpack (v &&& 0xFF)).phase = .Idle := by
    have hle : (v &&& 0xFF).toNat ≤ 255 := Bits.toNat_and_le v 0xFF
    have hs : (v &&& 0xFF) >>> PHASE_SHIFT = 0 := by
      apply UInt32.toNat_inj.mp
      rw [UInt32.toNat_shiftRight, Nat.shiftRight_eq_div_pow]
      exact Nat.div_eq_of_lt (Nat.lt_of_le_of_lt hle (by decide))
    rw [unpack, hs]
    rfl
  intro h
  rw [← h, (fieldCount true).step_active] at hb
  split at hb
  · rw [unpack_pack] at hb
    cases hb
  · rw [unpack_pack] at hb
    cases hb

theorem ran_reads (hi : (unpack word).phase = .Idle) (hc : count ≠ 0) (hft : count.toNat < 2 ^ 29) (hrd : read ≠ 0)
    (hrn : Ran base word count read fin) :
    (received base (traffic fin)).length = count.toNat ∧ Acked base none (traffic fin) ∧
      requests base CR1_START (traffic fin) = 1 ∧ requests base CR1_STOP (traffic fin) = 2 ∧
      returned fin ≠ received base (traffic fin) ∧
      returned fin = List.iterate stepWord (stepWord (pack ⟨.Active, count, true⟩)) count.toNat := by
  obtain ⟨begun, ss, reached, hs, hru, hf⟩ := hrn
  obtain ⟨ht, hr⟩ := transaction_returned hi hc hft hrd hs hru hf
  have hp : 0 < count.toNat := UInt32.lt_iff_toNat_lt.mp (UInt32.pos_iff_ne_zero.mpr hc)
  have hv : ss.map (fun p => taken base p.2) ≠ [] := by
    rw [ne_eq, List.map_eq_nil_iff, ← List.length_eq_zero_iff]
    omega
  have hrc := received_of_trace ht
  refine ⟨?_, ?_, ?_, ?_, ?_, hr⟩
  · rw [hrc, List.length_map, List.length_map, hs]
  · rw [← acked_besides, ht, Acked, if_pos rfl]
    exact acked_readTrace hv (by decide) rfl trivial
  · rw [← requests_besides, ht, requests_write, requests_append, requests_start_readTrace,
      requests_write, requests_nil]
    decide
  · rw [← requests_besides, ht, requests_write, requests_append,
      requests_stop_readTrace hv, requests_write, requests_nil]
    decide
  · rw [hr, hrc]
    obtain ⟨n, hn⟩ := Nat.exists_eq_succ_of_ne_zero (Nat.ne_of_gt hp)
    obtain ⟨v, vs, hcn⟩ := List.exists_cons_of_ne_nil hv
    rw [hn, hcn]
    intro h
    exact stepWord_ne_byte count v (List.cons.inj h).1

theorem exists_ran (base read : UInt32) (hi : (unpack word).phase = .Idle) (hc : count ≠ 0)
    (hft : count.toNat < 2 ^ 29) (hrd : read ≠ 0) {bytes : List UInt32}
    (hb : bytes.length = count.toNat) (hr : ∀ byte ∈ bytes, byte &&& 0xFF = byte) :
    ∃ final, Ran base word count read final ∧ received base (traffic final) = bytes := by
  obtain ⟨op, ho, hop⟩ := opening_returns base read hi hc
  obtain ⟨moved, hm, hmv⟩ := moving_returns base bytes hop
  have hrs : ((driver base).outcome anyBus moved.device
      (stepWord^[bytes.length] (pack ⟨.Active, count, read ≠ 0⟩)) (.Stop, [])).result = some (pack .idle) := by
    rw [outcome_stop]
  obtain ⟨final, hs, hf⟩ := Session.step_of_result (driver base) anyBus hmv hrs
  have hst : (bytes.map fun byte => ((0 : UInt32), ready byte)).length = count.toNat := by
    rw [List.length_map, hb]
  have hrn : calls base (.start word ())
      (transaction count read (ready 0) (bytes.map fun byte => (0, ready byte))) = some final :=
    run_append_eq_some.mpr ⟨moved, run_append_eq_some.mpr ⟨op, ho, hm⟩, run_cons_eq_some.mpr ⟨final, hs, rfl⟩⟩
  refine ⟨final, ⟨_, _, _, hst, hrn, hf⟩, ?_⟩
  obtain ⟨ht, -⟩ := transaction_returned hi hc hft hrd hst hrn hf
  rw [received_of_trace ht, List.map_map, List.map_map]
  calc bytes.map _ = bytes.map id := List.map_congr_left fun byte hby => hr byte hby
    _ = bytes := List.map_id bytes

theorem read_transaction_fails (base : UInt32) {word count read : UInt32}
    (hidle : (unpack word).phase = .Idle) (hcount : count ≠ 0) (hfits : count.toNat < 2 ^ 29)
    (hread : read ≠ 0) :
    (∀ final, Ran base word count read final →
      ¬ Transacts base count.toNat final ∧ returned final ≠ received base (traffic final) ∧
      (received base (traffic final)).length = count.toNat ∧ Acked base none (traffic final) ∧
      requests base CR1_START (traffic final) = 1 ∧ requests base CR1_STOP (traffic final) = 2) ∧
    (∀ bytes : List UInt32, bytes.length = count.toNat → (∀ byte ∈ bytes, byte &&& 0xFF = byte) →
      ∃ final, Ran base word count read final ∧ received base (traffic final) = bytes) ∧
    ∀ decode : List UInt32 → List UInt32,
      ∃ final, Ran base word count read final ∧ decode (returned final) ≠ received base (traffic final) := by
  have hp : 0 < count.toNat := UInt32.lt_iff_toNat_lt.mp (UInt32.pos_iff_ne_zero.mpr hcount)
  have hs : ∀ bytes : List UInt32, bytes.length = count.toNat →
      (∀ byte ∈ bytes, byte &&& 0xFF = byte) →
      ∃ final, Ran base word count read final ∧ received base (traffic final) = bytes :=
    fun bytes hby hr => exists_ran base read hidle hcount hfits hread hby hr
  refine ⟨fun final hrn => ?_, hs, fun decode => ?_⟩
  · obtain ⟨ht, ha, hst, hsp, hne, -⟩ := ran_reads hidle hcount hfits hread hrn
    exact ⟨fun h => hne h.delivered, hne, ht, ha, hst, hsp⟩
  · -- all zeros and all ones give the same words
    have hb : ∀ byte : UInt32, byte &&& 0xFF = byte → ∃ final, Ran base word count read final ∧
          received base (traffic final) = List.replicate count.toNat byte := by
      intro byte hb
      refine hs _ List.length_replicate fun other hot => ?_
      rwa [List.eq_of_mem_replicate hot]
    obtain ⟨zeros, hz, hzr⟩ := hb 0 (by decide)
    obtain ⟨ones, ho, hon⟩ := hb 1 (by decide)
    obtain ⟨-, -, -, -, -, hwr⟩ := ran_reads hidle hcount hfits hread hz
    obtain ⟨-, -, -, -, -, hw⟩ := ran_reads hidle hcount hfits hread ho
    by_cases hd : decode (returned zeros) = received base (traffic zeros)
    · refine ⟨ones, ho, fun h => ?_⟩
      rw [hw, ← hwr, hd, hzr, hon, List.replicate_inj] at h
      exact absurd (h.2.resolve_left (Nat.ne_of_gt hp)) (by decide)
    · exact ⟨zeros, hz, hd⟩

end Transaction

theorem two_byte_read_fails : (unpack 0).phase = .Idle ∧
      ∀ final, Ran 0x40005400 0 2 1 final → ¬ Transacts 0x40005400 2 final :=
  ⟨by decide, fun final hr =>
    ((read_transaction_fails 0x40005400 (by decide) (by decide) (by decide) (by decide)).1 final hr).1⟩

-- The slave sends 0x5A. The caller is given the word of a completed read instead,
-- and the bus two requests to stop.
theorem one_byte_read_lost :
    ∃ final, calls 0x40005400 (.start 0 ()) (transaction 1 1 (ready 0) [(0, ready 0x5A)]) = some final ∧
      received 0x40005400 (traffic final) = [0x5A] ∧ returned final = [0xE0000000] ∧
      requests 0x40005400 CR1_STOP (traffic final) = 2 ∧ ¬ Transacts 0x40005400 1 final := by
  refine ⟨_, rfl, by decide, by decide, by decide, fun h => ?_⟩
  exact absurd h.stopped (by decide)

end Gale.I2cThin
