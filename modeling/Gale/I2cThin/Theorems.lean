import Gale.I2cThin
import Gale.Lib.Countdown

namespace Gale.I2cThin

open Lib

theorem fieldCount (read : Bool) :
    FieldCount stepWord (fun x => pack ⟨.Active, x, read⟩) (pack ⟨.Complete, 0, read⟩) I2C_FAULT
      (fun word => i2cIsComplete word = 1) REM_MASK 29 where
  width_pos := by decide
  width_le := by decide
  mask_eq := rfl
  active_congr := pack_congr
  step_active := by
    intro x
    by_cases hz : (x &&& REM_MASK) - 1 = 0
    · simp [stepWord, unpack_pack, step, if_pos hz]
    · simp [stepWord, unpack_pack, step, if_neg hz]
  step_done := by
    simp [stepWord, unpack_pack, step]
  active_ne := by
    intro x hf
    have hp := congrArg (fun word => (unpack word).phase) hf
    simp only [unpack_pack] at hp
    exact absurd hp (by decide)
  done_ne := by
    cases read <;> decide
  active_incomplete := by
    intro x
    simp [i2cIsComplete, unpack_pack]
  done_complete := by
    simp [i2cIsComplete, unpack_pack]

-- The calls of a transfer: START, the acknowledged address, and one call a byte,
-- each with what it reads on the bus.
def opening (count read : UInt32) (begun : List UInt32) : List (Call × List UInt32) :=
  [(.Start count read, begun), (.AddrAck, [])]

def moving (steps : List (UInt32 × List UInt32)) : List (Call × List UInt32) :=
  steps.map fun p => (.Step p.1, p.2)

def calls (base : UInt32) (s : Session Call Unit) (inputs : List (Call × List UInt32)) :
    Option (Session Call Unit) :=
  run (Session.step (driver base) anyBus) s inputs

def traffic (s : Session Call Unit) : List Access := s.past.flatMap Entry.accesses

section Calls

variable {base word count read : UInt32}

theorem outcome_addrAck_started {st : Unit} {es : List UInt32} (sd : Bool) :
    (driver base).outcome anyBus st (pack ⟨.Addressing, count, sd⟩) (.AddrAck, es) =
      ⟨[], st, some (pack ⟨.Active, count, sd⟩)⟩ := by
  have hp : (unpack (pack ⟨.Addressing, count, sd⟩)).phase = .Addressing := by
    rw [unpack_pack]
  have hpc : pack ⟨.Active, count &&& REM_MASK, sd⟩ = pack ⟨.Active, count, sd⟩ := by
    apply pack_congr
    rw [toNat_remaining, Nat.mod_mod]
  rw [outcome_addrAck hp, unpack_pack, hpc]

variable {s : Session Call Unit} {given : UInt32}

theorem opening_returned (hi : (unpack word).phase = .Idle) (hc : count ≠ 0) {begun : List UInt32}
    (hrn : calls base (.start word ()) (opening count read begun) = some s)
    (hw : s.word = some given) :
    given = pack ⟨.Active, count, read ≠ 0⟩ ∧ besides (base + SR1) (traffic s) =
        [.Write (base + CR1) (CR1_PE ||| CR1_START ||| (if read ≠ 0 then CR1_ACK else 0))] := by
  obtain ⟨sd, hs, hrt⟩ := run_cons_eq_some.mp hrn
  obtain ⟨acked, hac, hn⟩ := run_cons_eq_some.mp hrt
  cases hn
  obtain ⟨addressed, ha⟩ := Session.word_of_run _ _ hrt hw
  obtain ⟨⟨result, hrs, hth⟩, hpast⟩ := Session.step_returned _ _ hs rfl ha
  obtain ⟨⟨result', hr, ht⟩, hpast'⟩ := Session.step_returned _ _ hac ha hw
  have had : addressed = pack ⟨.Addressing, count, read ≠ 0⟩ := by
    rw [outcome_start hi hc] at hrs
    obtain ⟨-, -, rfl⟩ := Option.map_eq_some_iff.mp hrs
    exact hth.symm
  subst had
  constructor
  · rw [outcome_addrAck_started] at hr
    cases hr
    exact ht.symm
  · have hne : base + CR1 ≠ base + SR1 := by
      rw [ne_eq, UInt32.add_right_inj]
      decide
    simp [traffic, hpast', hpast, Session.start, Driver.entry, outcome_start hi hc, outcome_addrAck_started, besides_write hne, Mmio.besides_waits]

theorem opening_returns (base read : UInt32) (hi : (unpack word).phase = .Idle) (hc : count ≠ 0) :
    ∃ s, calls base (.start word ()) (opening count read (ready 0)) = some s ∧
      s.word = some (pack ⟨.Active, count, read ≠ 0⟩) := by
  have hsr : ((driver base).outcome anyBus () word (.Start count read, ready 0)).result =
      some (pack ⟨.Addressing, count, read ≠ 0⟩) := by
    rw [outcome_start hi hc]
    rfl
  have hac : ((driver base).outcome anyBus () (pack ⟨.Addressing, count, read ≠ 0⟩)
      (.AddrAck, [])).result = some (pack ⟨.Active, count, read ≠ 0⟩) := by
    rw [outcome_addrAck_started]
  obtain ⟨sd, hs, hst⟩ :=
    @Session.step_of_result _ _ _ (driver base) anyBus (.start word ()) _ _ _ rfl hsr
  obtain ⟨acked, hs', ha⟩ := Session.step_of_result (driver base) anyBus hst hac
  exact ⟨acked, run_cons_eq_some.mpr ⟨sd, hs, run_cons_eq_some.mpr ⟨acked, hs', rfl⟩⟩, ha⟩

theorem moving_returned {ss : List (UInt32 × List UInt32)} {fin : Session Call Unit}
    {reached : UInt32} (hrn : calls base s (moving ss) = some fin)
    (hg : s.word = some given) (hf : fin.word = some reached) :
    reached = stepWord^[ss.length] given := by
  rw [← List.length_map (fun p : UInt32 × List UInt32 => (Call.Step p.1, p.2))]
  refine Session.run_iterate _ _ (fun a hi st given result hr => ?_) hrn hg hf
  obtain ⟨p, -, rfl⟩ := List.mem_map.mp hi
  exact outcome_step_result hr

theorem moving_returns (base : UInt32) (bs : List UInt32) (hg : s.word = some given) :
    ∃ fin, calls base s (moving (bs.map fun byte => (0, ready byte))) = some fin ∧
      fin.word = some (stepWord^[bs.length] given) := by
  have hl : (moving (bs.map fun byte => (0, ready byte))).length = bs.length := by
    rw [moving, List.length_map, List.length_map]
  rw [← hl]
  refine Session.exists_run _ _ (fun a hi st given => ?_) hg
  obtain ⟨p, hp, rfl⟩ := List.mem_map.mp hi
  obtain ⟨byte, -, rfl⟩ := List.mem_map.mp hp
  exact ⟨_, outcome_step_ready 0 byte, rfl⟩

def Reaches (base word count read : UInt32) (k : Nat) (reached : UInt32) : Prop :=
  ∃ begun steps final, steps.length = k ∧
    calls base (.start word ()) (opening count read begun ++ moving steps) = some final ∧
    final.word = some reached

def Counts (base word count read : UInt32) : Prop :=
  CountsDown (Reaches base word count read) I2C_FAULT (fun reached => i2cIsComplete reached = 1)
    count.toNat

theorem reaches_iff (hi : (unpack word).phase = .Idle) (hc : count ≠ 0) (k : Nat) (reached : UInt32) :
    Reaches base word count read k reached ↔ reached = stepWord^[k] (pack ⟨.Active, count, read ≠ 0⟩) := by
  constructor
  · rintro ⟨begun, ss, fin, rfl, hr, hf⟩
    obtain ⟨s, ho, hm⟩ := run_append_eq_some.mp hr
    obtain ⟨given, hg⟩ := Session.word_of_run _ _ hm hf
    rw [moving_returned hm hg hf, (opening_returned hi hc ho hg).1]
  · rintro rfl
    obtain ⟨s, ho, hs⟩ := opening_returns base read hi hc
    obtain ⟨fin, hm, hf⟩ := moving_returns base (List.replicate k 0) hs
    rw [List.length_replicate] at hf
    exact ⟨_, _, fin, by simp, run_append_eq_some.mpr ⟨s, ho, hm⟩, hf⟩

theorem counts_iff (hi : (unpack word).phase = .Idle) (hc : count ≠ 0) :
    Counts base word count read ↔ count.toNat ≤ 2 ^ 29 :=
  (fieldCount (read ≠ 0)).countsDown_iff hc fun k reached => reaches_iff hi hc k reached

end Calls

end Gale.I2cThin
