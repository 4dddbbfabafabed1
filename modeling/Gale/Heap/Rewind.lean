import Gale.Heap.Calls

namespace Gale.Heap

open Lib

-- sys_heap_aligned_alloc with a rewind bit in its alignment: what is aligned is the address
-- that lies the value of the bit above the one returned.

theorem two_pow_or_two_pow {low high : Nat} (h : low < high) : 2 ^ high ||| 2 ^ low = 2 ^ high + 2 ^ low := by
  have hlt : 2 ^ low < 2 ^ high := Nat.pow_lt_pow_right (by decide) h
  have hor := Nat.two_pow_add_eq_or_of_lt hlt 1
  rw [Nat.mul_one] at hor
  exact hor.symm

theorem lowestBit_two_bits {low high : Nat} (h : low < high) : lowestBit (2 ^ high + 2 ^ low) = 2 ^ low := by
  have hp := Nat.two_pow_pos low
  have hlt : 2 ^ low < 2 ^ high := Nat.pow_lt_pow_right (by decide) h
  have hlg : (2 ^ high + 2 ^ low).log2 = high := by
    rw [Nat.log2_eq_iff (by omega), Nat.pow_succ]
    omega
  have hn : 2 ^ (high + 1) - (2 ^ high + 2 ^ low) = 2 ^ low * (2 ^ (high - low) - 1) := by
    rw [Nat.mul_sub, Nat.mul_one, ← Nat.pow_add, Nat.add_sub_of_le (Nat.le_of_lt h), Nat.pow_succ]
    omega
  unfold lowestBit
  rw [hlg, hn, ← two_pow_or_two_pow h]
  apply Nat.eq_of_testBit_eq
  intro i
  rw [Nat.testBit_and, Nat.testBit_or, Nat.testBit_two_pow, Nat.testBit_two_pow,
    Nat.testBit_two_pow_mul, Nat.testBit_two_pow_sub_one]
  by_cases hl : low = i
  · simp [hl]
    omega
  · by_cases hh : high = i <;> simp [hl, hh]

namespace Represents

variable {lo : Layout} {s : ZHeap} {held : Nat → Option Nat}

theorem sysHeapAlignedAlloc_two_bits (h : Represents lo s held) {low high : Nat}
    (hlt : low < high) (hl : 2 ^ low ∣ lo.header) (bs : Nat) :
    Grants lo held bs (fun mem => 2 ^ high ∣ mem + 2 ^ low)
      (s.sysHeapAlignedAlloc lo.cfg (2 ^ high + 2 ^ low) bs) := by
  have hh := lo.cfg.chunkHeaderBytes_cases lo.endChunk
  have hle : 2 ^ low ≤ lo.header :=
    Nat.le_of_dvd (by unfold Layout.header; omega) hl
  have hne : 2 ^ high + 2 ^ low ≠ 2 ^ low := by
    have hps := Nat.two_pow_pos high
    omega
  unfold ZHeap.sysHeapAlignedAlloc
  simp only [lowestBit_two_bits hlt, h.chunkHeaderBytes_eq]
  rw [if_pos hne, Nat.add_sub_cancel, Nat.min_eq_left hle]
  refine h.alignedAlloc ?_ (fun c => ?_) bs
  · rw [Nat.and_two_pow_sub_one_eq_mod, Nat.mod_self]
  · have hp : 2 ^ low ∣ 2 ^ high := Nat.pow_dvd_pow 2 (Nat.le_of_lt hlt)
    have hm := hl.trans (lo.header_dvd_chunkMem c)
    have hn := roundUp_add_le hp (Nat.dvd_add hm (Nat.dvd_refl _)) (Nat.two_pow_pos high)
    have hup := le_roundUp (lo.chunkMem c + 2 ^ low) (Nat.two_pow_pos high)
    omega

-- The requested alignment with the bit for the word below it. The word's own bit is the
-- rewind bit unless the alignment is smaller; then they change places.
theorem sysHeapAlignedAlloc_or (h : Represents lo s held) {al word : Nat}
    (hp : al &&& (al - 1) = 0) (hw : 2 ^ word ∣ lo.header) (bs : Nat) :
    Grants lo held bs (fun mem => max al 1 ∣ mem + 2 ^ word)
      (s.sysHeapAlignedAlloc lo.cfg (al ||| 2 ^ word) bs) := by
  have hh := lo.cfg.chunkHeaderBytes_cases lo.endChunk
  have hle : 2 ^ word ≤ lo.header :=
    Nat.le_of_dvd (by unfold Layout.header; omega) hw
  by_cases hz : al = 0
  · subst hz
    rw [Nat.zero_or, h.sysHeapAlignedAlloc_plain hle]
    exact (h.sysHeapAlloc bs).grants fun _ _ => one_dvd _
  obtain ⟨e, rfl⟩ := (Nat.and_sub_one_eq_zero_iff_isPowerOfTwo hz).mp hp
  rw [Nat.max_eq_left (Nat.two_pow_pos e)]
  rcases Nat.lt_trichotomy e word with hlt | rfl | hlt
  · have hd : 2 ^ e ∣ 2 ^ word := Nat.pow_dvd_pow 2 (Nat.le_of_lt hlt)
    rw [Nat.or_comm, two_pow_or_two_pow hlt]
    refine (h.sysHeapAlignedAlloc_two_bits hlt (hd.trans hw) bs).mono fun mem hm => ?_
    exact Nat.dvd_add ((Nat.dvd_add_left (Nat.dvd_refl _)).mp (hd.trans hm)) hd
  · rw [Nat.or_self, h.sysHeapAlignedAlloc_plain hle]
    exact (h.sysHeapAlloc bs).grants fun _ hm =>
      Nat.dvd_add (hw.trans hm) (Nat.dvd_refl _)
  · rw [two_pow_or_two_pow hlt]
    exact h.sysHeapAlignedAlloc_two_bits hlt hw bs

end Represents

end Gale.Heap
