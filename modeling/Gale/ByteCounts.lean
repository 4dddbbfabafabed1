import Gale.SpiThin
import Gale.I2cThin.Theorems

namespace Gale

theorem byte_counts_iff (base read : UInt32) {spiWord i2cWord count : UInt32}
    (hspi : (SpiThin.unpack spiWord).phase = .Idle) (hi2c : (I2cThin.unpack i2cWord).phase = .Idle)
    (hcount : count ≠ 0) :
    (SpiThin.Counts spiWord count ↔ count.toNat ≤ 2 ^ 30) ∧
      (I2cThin.Counts base i2cWord count read ↔ count.toNat ≤ 2 ^ 29) :=
  ⟨SpiThin.counts_iff hspi hcount, I2cThin.counts_iff hi2c hcount⟩

theorem byte_counts_five : SpiThin.Counts 0 5 ∧ I2cThin.Counts 0x40005400 0 5 1 :=
  have h := byte_counts_iff 0x40005400 1 (show (SpiThin.unpack 0).phase = .Idle by decide)
    (show (I2cThin.unpack 0).phase = .Idle by decide) (show (5 : UInt32) ≠ 0 by decide)
  ⟨h.1.mpr (by decide), h.2.mpr (by decide)⟩

-- One more than the field holds, and the first byte completes the transfer.
theorem byte_counts_truncated :
    ¬ SpiThin.Counts 0 0x40000001 ∧ ¬ I2cThin.Counts 0x40005400 0 0x20000001 1 := by
  refine ⟨fun h => ?_, fun h => ?_⟩
  · have hc := (h.complete_iff 1 (by decide) _ rfl).mp (by decide)
    exact absurd hc (by decide)
  · have hc := (h.complete_iff 1 (by decide) 0xE0000000
      ⟨I2cThin.ready 0, [(0, I2cThin.ready 0)], _, rfl, rfl, by decide⟩).mp (by decide)
    exact absurd hc (by decide)

end Gale
