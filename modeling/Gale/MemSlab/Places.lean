import Gale.MemSlab
import Gale.Lib.Linked
import Gale.Lib.Run

namespace Gale.MemSlab

open Function Lib

def block (slab : MemSlab) (index : Nat) : Nat := slab.buffer + index * slab.blockSize

def blocks (slab : MemSlab) : List Nat := (List.range slab.numBlocks).map slab.block

theorem block_add_inj (slab : MemSlab) {i j off : Nat} (ho : off < slab.blockSize)
    (h : slab.block j = slab.block i + off) : j = i := by
  simp only [block] at h
  rcases Nat.lt_trichotomy j i with hlt | heq | hgt
  · have := Nat.mul_le_mul_right slab.blockSize hlt
    rw [Nat.succ_mul] at this
    omega
  · exact heq
  · have := Nat.mul_le_mul_right slab.blockSize hgt
    rw [Nat.succ_mul] at this
    omega

theorem block_injective (slab : MemSlab) (hs : 0 < slab.blockSize) : Function.Injective slab.block := by
  intro j i h
  exact slab.block_add_inj hs h

variable {free : List Nat} {cfg : Config} {slab : MemSlab}

theorem linkBlocks_linked (count : Nat) (slab : MemSlab)
    (hs : 0 < slab.blockSize) (hf : ∀ i < count, slab.block i ∉ free)
    (hl : Linked slab.memory slab.freeList free) :
    let linked := linkBlocks count slab (slab.buffer + count * slab.blockSize - slab.blockSize)
    Linked linked.memory linked.freeList ((List.range count).map slab.block ++ free) := by
  induction count generalizing slab free with
  | zero => exact hl
  | succ count ih =>
    have hp : slab.buffer + (count + 1) * slab.blockSize - slab.blockSize = slab.block count := by
      rw [block, Nat.succ_mul]
      omega
    have hls := hl.push (hf count (by omega))
    have ho : ∀ i < count, slab.block i ∉ slab.block count :: free := by
      intro i hi hm
      rcases List.mem_cons.mp hm with h | h
      · have := slab.block_injective hs h
        omega
      · exact hf i (by omega) h
    have hr := ih
      { slab with
        memory := update slab.memory (slab.block count) slab.freeList
        freeList := some (slab.block count) } hs ho hls
    rw [List.range_succ, List.map_append, List.append_assoc, hp]
    exact hr

theorem linkBlocks_eq (count : Nat) (slab : MemSlab) (p : Nat) : ∃ memory freeList, linkBlocks count slab p =
      { slab with memory := memory, freeList := freeList } := by
  induction count generalizing slab p with
  | zero => exact ⟨slab.memory, slab.freeList, rfl⟩
  | succ count ih =>
    obtain ⟨memory, freeList, h⟩ := ih
      { slab with
        memory := update slab.memory p slab.freeList
        freeList := some p } (p - slab.blockSize)
    exact ⟨memory, freeList, h⟩

theorem createFreeList_ok {linked : MemSlab} (h : createFreeList cfg slab = .ok linked) :
    0 < slab.blockSize ∧ linked = linkBlocks slab.numBlocks { slab with freeList := none }
        (slab.buffer + slab.numBlocks * slab.blockSize - slab.blockSize) := by
  simp only [createFreeList] at h
  split at h
  · cases h
  next hrc =>
  split at h
  · cases h
  split at h
  · cases h
  split at h
  · cases h
  refine ⟨?_, ?_⟩
  · rcases Nat.eq_zero_or_pos slab.blockSize with hz | hp
    · simp [initValidate, EINVAL, hz] at hrc
    · exact hp
  · rw [← Except.ok.inj h, Nat.mul_comm slab.blockSize]

theorem kMemSlabInit_ok {mem : Nat → Option Nat} {buf bs nb : Nat} (h : kMemSlabInit cfg mem buf bs nb = .ok slab) :
    0 < slab.blockSize ∧ slab.numUsed = 0 ∧ slab.waitQ = [] ∧ Linked slab.memory slab.freeList slab.blocks := by
  obtain ⟨hs, hsl⟩ := createFreeList_ok h
  have hl := linkBlocks_linked nb ⟨nb, bs, buf, 0, 0, none, mem, []⟩
    hs (by simp) Linked.nil
  obtain ⟨m', freeList', heq⟩ := linkBlocks_eq nb
    ⟨nb, bs, buf, 0, 0, none, mem, []⟩
    (buf + nb * bs - bs)
  simp only [heq, List.append_nil] at hl
  simp only [heq] at hsl
  subst hsl
  exact ⟨hs, rfl, rfl, hl⟩

theorem kMemSlabAlloc_cases (cfg : Config) (hl : Linked slab.memory slab.freeList free)
    (hu : slab.numUsed + free.length = slab.numBlocks) (current : Tid) (timeout : Timeout) :
    (∃ block rest maxUsed, free = block :: rest ∧ Linked slab.memory (slab.memory block) rest ∧
      slab.kMemSlabAlloc cfg current timeout = ({ slab with
            freeList := slab.memory block
            numUsed := slab.numUsed + 1
            maxUsed := maxUsed }, some (0, some block))) ∨
    (free = [] ∧ cfg.multithreading ∧ slab.kMemSlabAlloc cfg current timeout =
      ({ slab with waitQ := slab.waitQ ++ [current] }, none)) ∨
    slab.kMemSlabAlloc cfg current timeout = (slab, some (ENOMEM, none)) := by
  by_cases hlt : slab.numUsed < slab.numBlocks
  · left
    cases hh : slab.freeList with
    | none =>
      have hn := hl.eq_none_iff.mp hh
      rw [hn] at hu
      simp only [List.length_nil] at hu
      omega
    | some block =>
      rw [hh] at hl
      obtain ⟨rest, hf, hr⟩ := hl.eq_cons
      refine ⟨block, rest, if cfg.traceMaxUtilization then max (slab.numUsed + 1) slab.maxUsed
        else slab.maxUsed, hf, hr, ?_⟩
      simp [kMemSlabAlloc, allocDecide, hlt, hh]
  · right
    have hn : free = [] := by
      apply List.eq_nil_of_length_eq_zero
      omega
    simp only [kMemSlabAlloc, allocDecide, hlt, if_false]
    cases isNoWait cfg timeout with
    | true => exact .inr rfl
    | false =>
      cases hmt : cfg.multithreading with
      | true => exact .inl ⟨hn, rfl, rfl⟩
      | false => exact .inr rfl

theorem kMemSlabFree_cases (cfg : Config) (pol : Policy Tid) {mem : Nat} (hg : slab.slabPtrIsGood cfg mem) :
    (∃ t ∈ slab.waitQ, slab.freeList = none ∧ slab.kMemSlabFree cfg pol mem =
      some ({ slab with waitQ := slab.waitQ.erase t }, some t)) ∨
    ((slab.freeList = none → cfg.multithreading → slab.waitQ = []) ∧ slab.kMemSlabFree cfg pol mem = some ({ slab with
          memory := update slab.memory mem slab.freeList
          freeList := some mem
          numUsed := slab.numUsed - 1 }, none)) := by
  have hf : (freeDecide slab.numUsed false) = ⟨.Free, slab.numUsed - 1⟩ := by
    simp only [freeDecide, Bool.false_eq_true, if_false]
    split
    · rfl
    · have : slab.numUsed = 0 := by omega
      simp [this]
  simp only [kMemSlabFree, hg, Bool.not_true, Bool.false_eq_true, if_false]
  by_cases he : slab.freeList = none ∧ cfg.multithreading
  · rcases pol.take_cases slab.waitQ with ⟨hnl, ht⟩ | ⟨t, hm, ht⟩
    · right
      refine ⟨fun _ _ => hnl, ?_⟩
      simp only [if_pos he, ht, Option.isSome_none, hf]
      rw [hnl]
    · left
      refine ⟨t, hm, he.1, ?_⟩
      simp [if_pos he, ht, freeDecide]
  · right
    refine ⟨fun hn hmt => absurd ⟨hn, hmt⟩ he, ?_⟩
    simp [if_neg he, hf]

end Gale.MemSlab
