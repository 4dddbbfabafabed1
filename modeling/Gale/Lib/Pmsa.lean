import Mathlib

namespace Gale.Lib.Pmsa

-- The ARMv7-M memory protection unit (PMSAv7) with n regions: its registers
-- and what they say about an address.

def field (word : UInt32) (low width : Nat) : Nat := word.toNat / 2 ^ low % 2 ^ width

inductive Access where
  | NoAccess
  | ReadOnly
  | ReadWrite

structure Rights where
  privileged : Access
  unprivileged : Access

structure Region where
  rbar : UInt32
  rasr : UInt32

namespace Region

def enabled (region : Region) : Bool := field region.rasr 0 1 = 1

-- A region covers 2 ^ (SIZE + 1) bytes.
def sizeLog (region : Region) : Nat := field region.rasr 1 5 + 1

-- Regions of at least 256 bytes have eight subregions, each with a disable bit.
def subregionDisabled (region : Region) (address : UInt32) : Bool :=
  8 ≤ region.sizeLog ∧
    field region.rasr (8 + address.toNat % 2 ^ region.sizeLog / 2 ^ (region.sizeLog - 3)) 1 = 1

-- The address bits of RBAR below the region's size are not compared.
def hits (region : Region) (address : UInt32) : Bool :=
  region.enabled ∧ address.toNat / 2 ^ region.sizeLog = region.rbar.toNat / 2 ^ region.sizeLog ∧
    ¬ region.subregionDisabled address

-- The AP field; 0b100 is reserved.
def rights (region : Region) : Rights :=
  match field region.rasr 24 3 with
  | 1 => ⟨.ReadWrite, .NoAccess⟩
  | 2 => ⟨.ReadWrite, .ReadOnly⟩
  | 3 => ⟨.ReadWrite, .ReadWrite⟩
  | 5 => ⟨.ReadOnly, .NoAccess⟩
  | 6 | 7 => ⟨.ReadOnly, .ReadOnly⟩
  | _ => ⟨.NoAccess, .NoAccess⟩

end Region

structure Mpu (n : Nat) where
  ctrl : UInt32
  rnr : UInt32
  regions : Fin n → Region

inductive Lookup where
  | DefaultMap
  | Fault
  | Mapped (rights : Rights)

namespace Mpu

variable {n : Nat}

def modifyRegion (mpu : Mpu n) (f : Region → Region) : Mpu n :=
  if h : mpu.rnr.toNat < n then
    let r : Fin n := ⟨mpu.rnr.toNat, h⟩
    { mpu with regions := Function.update mpu.regions r (f (mpu.regions r)) }
  else mpu

def writeCtrl (mpu : Mpu n) (value : UInt32) : Mpu n := { mpu with ctrl := value }

def writeRnr (mpu : Mpu n) (value : UInt32) : Mpu n := { mpu with rnr := value }

-- With VALID set the REGION field of the value replaces the region number.
def writeRbar (mpu : Mpu n) (value : UInt32) : Mpu n :=
  let mpu := if field value 4 1 = 1 then { mpu with rnr := value % 16 } else mpu
  mpu.modifyRegion fun region => { region with rbar := value }

def writeRasr (mpu : Mpu n) (value : UInt32) : Mpu n :=
  mpu.modifyRegion fun region => { region with rasr := value }

-- The enabled region of the highest number decides; with none, the default
-- map if PRIVDEFENA is set.
def lookup (mpu : Mpu n) (address : UInt32) : Lookup :=
  if field mpu.ctrl 0 1 = 0 then .DefaultMap
  else
    match (List.finRange n).reverse.find? fun r => (mpu.regions r).hits address with
    | some r => .Mapped (mpu.regions r).rights
    | none => if field mpu.ctrl 2 1 = 1 then .DefaultMap else .Fault

theorem lookup_cases (mpu : Mpu n) (he : field mpu.ctrl 0 1 = 1) (hb : field mpu.ctrl 2 1 = 0) (addr : UInt32) :
    (mpu.lookup addr = .Fault ∧ ∀ r, (mpu.regions r).hits addr = false) ∨
      ∃ r, (mpu.regions r).hits addr ∧ mpu.lookup addr = .Mapped (mpu.regions r).rights := by
  unfold lookup
  rw [he, hb]
  cases hf : (List.finRange n).reverse.find? fun r => (mpu.regions r).hits addr with
  | none =>
    refine .inl ⟨rfl, fun r => ?_⟩
    have := List.find?_eq_none.mp hf r (by simp)
    simpa using this
  | some r =>
    have hh := List.find?_some hf
    exact .inr ⟨r, hh, rfl⟩

theorem write_region (mpu : Mpu n) {rnr rbar : UInt32} (rasr : UInt32) (hr : rnr.toNat < n) (hv : field rbar 4 1 = 0) :
    ((mpu.writeRnr rnr).writeRbar rbar).writeRasr rasr = { mpu with
        rnr := rnr
        regions := Function.update mpu.regions ⟨rnr.toNat, hr⟩ ⟨rbar, rasr⟩ } := by
  simp [writeRnr, writeRbar, writeRasr, modifyRegion, hv, hr]

end Mpu

end Gale.Lib.Pmsa
