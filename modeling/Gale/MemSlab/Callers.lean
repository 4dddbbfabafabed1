import Gale.MemSlab.Places
import Gale.Lib.WaitQueue

namespace Gale.MemSlab

open Function Lib

-- Where a thread stands with its alloc; a woken thread has the result of z_pend_curr.
inductive Pc where
  | Running
  | Pended (timeout : Timeout)
  | Woken (ret : Int)
  deriving DecidableEq, Repr

-- A slab and the threads that use it. Kept for the statements: the blocks that an
-- alloc has returned and that are not freed yet, and those handed to a woken
-- thread whose alloc has still to return, with the thread.
structure Callers where
  slab : MemSlab
  pc : Tid → Pc
  swapData : Tid → Option Nat
  held : List (Tid × Nat)
  handed : List (Tid × Nat)

inductive Op where
  | Alloc (thread : Tid) (timeout : Timeout)
  -- the holder of a block, or another thread for it, frees it
  | Free (holder : Tid) (mem : Nat)
  | TimeOut (thread : Tid)
  | Resume (thread : Tid)
  | Write (holder : Tid) (mem offset : Nat) (value : Option Nat)

def allocated (thread : Tid) (ret : Int) (mem : Option Nat) : List (Tid × Nat) :=
  if ret = 0 then mem.toList.map (thread, ·) else []

namespace Callers

def start (slab : MemSlab) : Callers where
  slab := slab
  pc := fun _ => .Running
  swapData := fun _ => none
  held := []
  handed := []

def alloc (cfg : Config) (s : Callers) (thread : Tid) (timeout : Timeout) : Callers :=
  let result := s.slab.kMemSlabAlloc cfg thread timeout
  match result.2 with
  | some (ret, mem) => { s with slab := result.1, held := s.held ++ allocated thread ret mem }
  | none => { s with slab := result.1, pc := update s.pc thread (.Pended timeout) }

def freed (s : Callers) (holder : Tid) (mem : Nat) (result : MemSlab × Option Tid) : Callers :=
  match result.2 with
  | some thread =>
    { slab := result.1
      pc := update s.pc thread (.Woken 0)
      swapData := update s.swapData thread (some mem)
      held := s.held.erase (holder, mem)
      handed := s.handed ++ [(thread, mem)] }
  | none => { s with slab := result.1, held := s.held.erase (holder, mem) }

def timeOut (s : Callers) (thread : Tid) : Callers :=
  { s with
    slab := { s.slab with waitQ := s.slab.waitQ.erase thread }
    pc := update s.pc thread (.Woken EAGAIN) }

def resume (s : Callers) (thread : Tid) (ret : Int) : Callers :=
  { s with
    pc := update s.pc thread .Running
    held := s.held ++ allocated thread ret (s.swapData thread)
    handed := s.handed.diff (allocated thread ret (s.swapData thread)) }

def write (s : Callers) (address : Nat) (value : Option Nat) : Callers :=
  { s with slab := { s.slab with memory := update s.slab.memory address value } }

def step (cfg : Config) (policy : Policy Tid) (s : Callers) : Op → Option Callers
  | .Alloc thread timeout =>
    if s.pc thread = .Running then some (s.alloc cfg thread timeout) else none
  | .Free holder mem =>
    if (holder, mem) ∈ s.held then
      (s.slab.kMemSlabFree cfg policy mem).map (s.freed holder mem)
    else none
  | .TimeOut thread =>
    match s.pc thread with
    | .Pended timeout => if timeout ≠ K_FOREVER then some (s.timeOut thread) else none
    | _ => none
  | .Resume thread =>
    match s.pc thread with
    | .Woken ret => some (s.resume thread ret)
    | _ => none
  | .Write holder mem offset value =>
    if (holder, mem) ∈ s.held ∧ offset < s.slab.blockSize then
      some (s.write (mem + offset) value)
    else none

variable {policy : Policy Tid} {holder thread : Tid} {mem : Nat}

theorem step_cases {cfg : Config} {s next : Callers} {op : Op} (hs : s.step cfg policy op = some next) :
    (∃ thread timeout, s.pc thread = .Running ∧ next = s.alloc cfg thread timeout) ∨
    (∃ holder mem result, (holder, mem) ∈ s.held ∧
      s.slab.kMemSlabFree cfg policy mem = some result ∧ next = s.freed holder mem result) ∨
    (∃ thread timeout, s.pc thread = .Pended timeout ∧ next = s.timeOut thread) ∨
    (∃ thread ret, s.pc thread = .Woken ret ∧ next = s.resume thread ret) ∨
    ∃ holder mem off value, (holder, mem) ∈ s.held ∧ off < s.slab.blockSize ∧
      next = s.write (mem + off) value := by
  cases op with
  | Alloc thread timeout =>
    obtain ⟨hpc, hn⟩ := Option.ite_none_right_eq_some.mp hs
    exact .inl ⟨thread, timeout, hpc, (Option.some.inj hn).symm⟩
  | Free holder mem =>
    obtain ⟨hm, hn⟩ := Option.ite_none_right_eq_some.mp hs
    obtain ⟨result, hr, hf⟩ := Option.map_eq_some_iff.mp hn
    exact .inr (.inl ⟨holder, mem, result, hm, hr, hf.symm⟩)
  | TimeOut thread =>
    simp only [step] at hs
    split at hs
    · next timeout hpc =>
        obtain ⟨_, hn⟩ := Option.ite_none_right_eq_some.mp hs
        exact .inr (.inr (.inl ⟨thread, timeout, hpc, (Option.some.inj hn).symm⟩))
    · cases hs
  | Resume thread =>
    simp only [step] at hs
    split at hs
    · next ret hpc =>
        exact .inr (.inr (.inr (.inl ⟨thread, ret, hpc, (Option.some.inj hs).symm⟩)))
    · cases hs
  | Write holder mem off value =>
    obtain ⟨⟨hm, ho⟩, hn⟩ := Option.ite_none_right_eq_some.mp hs
    exact .inr (.inr (.inr (.inr ⟨holder, mem, off, value, hm, ho, (Option.some.inj hn).symm⟩)))

def holders (s : Callers) (block : Nat) : List Tid :=
  ((s.handed ++ s.held).filter (·.2 = block)).map Prod.fst

-- Each block is once on the free list and with no caller, or not on it and with
-- exactly one; the counts agree; threads wait only for an empty free list; and
-- no alloc, whatever its time limit, finds the list empty after a decision to
-- take a block. A thread handed a block has it in swap_data with the result 0,
-- and a held block is accepted by k_mem_slab_free.
def OnePlace (cfg : Config) (s : Callers) : Prop :=
  ∃ free, Linked s.slab.memory s.slab.freeList free ∧ (∀ index < s.slab.numBlocks,
      (free.count (s.slab.block index) = 1 ∧ s.holders (s.slab.block index) = []) ∨
      (s.slab.block index ∉ free ∧ ∃ holder, s.holders (s.slab.block index) = [holder])) ∧
    s.slab.numUsed + free.length = s.slab.numBlocks ∧
    (s.slab.waitQ ≠ [] → free = []) ∧
    (∀ timeout, (allocDecide s.slab.numUsed s.slab.numBlocks (isNoWait cfg timeout)).decision =
      .Alloc → s.slab.freeList ≠ none) ∧
    (∀ thread block, (thread, block) ∈ s.handed ↔
      s.pc thread = .Woken 0 ∧ s.swapData thread = some block) ∧
    ∀ holder mem, (holder, mem) ∈ s.held → s.slab.slabPtrIsGood cfg mem

structure Inv (cfg : Config) (s : Callers) (free : List Nat) : Prop where
  size : 0 < s.slab.blockSize
  linked : Linked s.slab.memory s.slab.freeList free
  places : (free ++ (s.handed ++ s.held).map Prod.snd).Perm s.slab.blocks
  used : s.slab.numUsed + free.length = s.slab.numBlocks
  waiting : s.slab.waitQ ≠ [] → free = []
  alone : cfg.multithreading = false → s.slab.waitQ = []
  queue : s.slab.waitQ.Nodup
  pended : ∀ thread ∈ s.slab.waitQ, ∃ timeout, s.pc thread = .Pended timeout
  handed : ∀ thread block, (thread, block) ∈ s.handed ↔
    s.pc thread = .Woken 0 ∧ s.swapData thread = some block

variable {cfg : Config} {s : Callers} {free : List Nat}

theorem Inv.nodup_blocks (h : s.Inv cfg free) : s.slab.blocks.Nodup :=
  List.Nodup.map (s.slab.block_injective h.size) List.nodup_range

theorem Inv.nodup (h : s.Inv cfg free) : (free ++ (s.handed ++ s.held).map Prod.snd).Nodup :=
  h.places.nodup_iff.mpr h.nodup_blocks

theorem Inv.nodup_handed (h : s.Inv cfg free) : s.handed.Nodup := by
  have hc := List.Nodup.of_map _ (List.nodup_append.mp h.nodup).2.1
  exact (List.nodup_append.mp hc).1

theorem Inv.mem_blocks (h : s.Inv cfg free) (hm : (holder, mem) ∈ s.held) :
    ∃ i < s.slab.numBlocks, s.slab.block i = mem := by
  have hbl : mem ∈ s.slab.blocks := by
    refine h.places.mem_iff.mp (List.mem_append_right _ (List.mem_map.mpr ⟨(holder, mem), ?_, rfl⟩))
    exact List.mem_append_right _ hm
  obtain ⟨i, hi, hb⟩ := List.mem_map.mp hbl
  exact ⟨i, List.mem_range.mp hi, hb⟩

theorem Inv.slabPtrIsGood (h : s.Inv cfg free) (hm : (holder, mem) ∈ s.held) : s.slab.slabPtrIsGood cfg mem := by
  obtain ⟨i, hi, rfl⟩ := h.mem_blocks hm
  have ho : ((s.slab.block i : Nat) : Int) - s.slab.buffer = i * s.slab.blockSize := by
    simp only [block]
    omega
  have hb : i * s.slab.blockSize < s.slab.blockSize * s.slab.numBlocks := by
    rw [Nat.mul_comm]
    exact Nat.mul_lt_mul_of_pos_left hi h.size
  unfold MemSlab.slabPtrIsGood
  split
  · rfl
  · rw [ho]
    simp only [Bool.and_eq_true, decide_eq_true_eq]
    refine ⟨⟨Int.mul_nonneg (Int.natCast_nonneg _) (Int.natCast_nonneg _), ?_⟩, Int.mul_emod_left _ _⟩
    exact_mod_cast hb

theorem length_holders (s : Callers) (block : Nat) :
    (s.holders block).length = ((s.handed ++ s.held).map Prod.snd).count block := by
  rw [holders, List.length_map, List.count, List.countP_map, List.countP_eq_length_filter]
  rfl

theorem Inv.onePlace (h : s.Inv cfg free) : s.OnePlace cfg := by
  refine ⟨free, h.linked, fun i hi => ?_, h.used, h.waiting, fun timeout hd hn => ?_,
    h.handed, fun holder mem hm => h.slabPtrIsGood hm⟩
  · have hm : s.slab.block i ∈ s.slab.blocks :=
      List.mem_map.mpr ⟨i, List.mem_range.mpr hi, rfl⟩
    have hc := List.count_eq_one_of_mem h.nodup (h.places.mem_iff.mpr hm)
    rw [List.count_append, ← length_holders] at hc
    rcases Nat.eq_zero_or_pos (free.count (s.slab.block i)) with hz | hp
    · refine .inr ⟨List.count_eq_zero.mp hz, List.length_eq_one_iff.mp ?_⟩
      omega
    · refine .inl ⟨by omega, List.length_eq_zero_iff.mp ?_⟩
      omega
  · have hnl := h.linked.eq_none_iff.mp hn
    have hu := h.used
    rw [hnl, List.length_nil] at hu
    have hlt : ¬ s.slab.numUsed < s.slab.numBlocks := by omega
    simp only [allocDecide, hlt, if_false] at hd
    split at hd <;> cases hd

theorem start_inv {m : Nat → Option Nat} {buf bs nb : Nat} {slab : MemSlab}
    (hs : kMemSlabInit cfg m buf bs nb = .ok slab) :
    (start slab).Inv cfg slab.blocks := by
  obtain ⟨hsz, hu, hq, hl⟩ := kMemSlabInit_ok hs
  refine ⟨hsz, hl, ?_, ?_, ?_, fun _ => hq, ?_, ?_, ?_⟩
  · simp [start]
  · simp [start, hu, blocks]
  · simp [start, hq]
  · simp [start, hq]
  · simp [start, hq]
  · simp [start]

section

variable (h : s.Inv cfg free)
include h

theorem Inv.parked : Parked (fun pc => ∃ timeout, pc = Pc.Pended timeout) s.slab.waitQ s.pc :=
  ⟨h.queue, h.pended⟩

theorem Inv.not_handed (hpc : s.pc thread ≠ .Woken 0) (block : Nat) : (thread, block) ∉ s.handed := by
  intro hm
  exact hpc ((h.handed thread block).mp hm).1

theorem Inv.handed_update {pc : Pc} (hb : ∀ block, (thread, block) ∉ s.handed)
    (ha : pc ≠ .Woken 0) (o : Tid) (block : Nat) :
    (o, block) ∈ s.handed ↔ update s.pc thread pc o = .Woken 0 ∧ s.swapData o = some block := by
  by_cases ho : o = thread
  · subst ho
    simp [hb, ha]
  · rw [update_of_ne ho, h.handed]

theorem Inv.alloc (hpc : s.pc thread = .Running) (timeout : Timeout) :
    ∃ free', (s.alloc cfg thread timeout).Inv cfg free' := by
  rcases kMemSlabAlloc_cases cfg h.linked h.used thread timeout with
    ⟨block, rest, maxUsed, rfl, hrest, halloc⟩ | ⟨hn, hmt, halloc⟩ | halloc
  · -- the first free block goes to the caller
    refine ⟨rest, ?_⟩
    have he : s.slab.waitQ = [] := by
      by_contra hne
      cases h.waiting hne
    have hu := h.used
    simp only [Callers.alloc, halloc, allocated, if_true, Option.toList_some, List.map_cons, List.map_nil]
    refine ⟨h.size, hrest, ?_, ?_, fun hne => absurd he hne, h.alone, h.queue, h.pended, h.handed⟩
    · refine List.Perm.trans ?_ h.places
      have hm := List.perm_append_singleton block (rest ++ (s.handed ++ s.held).map Prod.snd)
      simpa [List.append_assoc] using hm
    · simp only [List.length_cons] at hu ⊢
      omega
  · -- no free block, and the caller waits
    refine ⟨free, ?_⟩
    simp only [Callers.alloc, halloc]
    have hp := h.parked.enqueue thread (by simp [hpc]) ⟨timeout, rfl⟩
    refine ⟨h.size, h.linked, h.places, h.used, fun _ => hn, fun hf => ?_, hp.nodup, hp.waits, ?_⟩
    · cases hmt.symm.trans hf
    · exact h.handed_update (h.not_handed (by simp [hpc])) (by simp)
  · have hs : s.alloc cfg thread timeout = s := by
      simp [Callers.alloc, halloc, allocated, ENOMEM]
    rw [hs]
    exact ⟨free, h⟩

section

variable (hh : (holder, mem) ∈ s.held)
include hh

theorem Inv.freed_places : (mem :: (free ++ (s.handed ++ s.held.erase (holder, mem)).map Prod.snd)).Perm
      s.slab.blocks := by
  refine List.Perm.trans ?_ h.places
  have he := (List.perm_cons_erase hh).map Prod.snd
  simp only [List.map_append, ← List.append_assoc]
  exact List.perm_middle.symm.trans (he.symm.append_left _)

theorem Inv.freed_thread (hq : thread ∈ s.slab.waitQ) : (s.freed holder mem
      ({ s.slab with waitQ := s.slab.waitQ.erase thread }, some thread)).Inv cfg free := by
  obtain ⟨timeout, hpc⟩ := h.pended thread hq
  have hp := h.parked.dequeue thread (.Woken 0)
  refine ⟨h.size, h.linked, ?_, h.used, fun _ => h.waiting (List.ne_nil_of_mem hq),
    fun hmt => ?_, hp.nodup, hp.waits, fun o block => ?_⟩
  · refine List.Perm.trans ?_ (h.freed_places hh)
    simp only [Callers.freed, List.map_append, List.map_cons, List.append_assoc, List.singleton_append]
    rw [← List.append_assoc, ← List.append_assoc]
    exact List.perm_middle
  · rw [h.alone hmt] at hq
    cases hq
  · simp only [Callers.freed, List.mem_append, List.mem_singleton, h.handed]
    by_cases ho : o = thread
    · subst ho
      simp [hpc, eq_comm]
    · simp [ho]

theorem Inv.freed_none (hq : s.slab.freeList = none → cfg.multithreading → s.slab.waitQ = []) :
    (s.freed holder mem ({ s.slab with
        memory := update s.slab.memory mem s.slab.freeList
        freeList := some mem
        numUsed := s.slab.numUsed - 1 }, none)).Inv cfg (mem :: free) := by
  have hp := h.freed_places hh
  have hn := hp.nodup_iff.mpr h.nodup_blocks
  have hnt : mem ∉ free := fun hm =>
    (List.nodup_cons.mp hn).1 (List.mem_append_left _ hm)
  have hl := hp.length_eq
  have hu := h.used
  simp only [List.length_cons, List.length_append, blocks, List.length_map, List.length_range] at hl
  refine ⟨h.size, h.linked.push hnt, hp, ?_, fun hne => ?_, h.alone, h.queue, h.pended, h.handed⟩
  · simp only [Callers.freed, List.length_cons]
    omega
  · have hnn := h.linked.eq_none_iff.mpr (h.waiting hne)
    cases hmt : cfg.multithreading with
    | true => exact absurd (hq hnn hmt) hne
    | false => exact absurd (h.alone hmt) hne

theorem Inv.freed {result : MemSlab × Option Tid} (hr : s.slab.kMemSlabFree cfg policy mem = some result) :
    ∃ free', (s.freed holder mem result).Inv cfg free' := by
  rcases kMemSlabFree_cases cfg policy (h.slabPtrIsGood hh) with
    ⟨thread, hqueue, _, hfree⟩ | ⟨hqueue, hfree⟩
  · cases hfree.symm.trans hr
    exact ⟨free, h.freed_thread hh hqueue⟩
  · cases hfree.symm.trans hr
    exact ⟨mem :: free, h.freed_none hh hqueue⟩

end

theorem Inv.timeOut {timeout : Timeout} (hpc : s.pc thread = .Pended timeout) : (s.timeOut thread).Inv cfg free := by
  have hp := h.parked.dequeue thread (.Woken EAGAIN)
  refine ⟨h.size, h.linked, h.places, h.used, fun hne => h.waiting fun hn => ?_, fun hmt => ?_, hp.nodup, hp.waits, ?_⟩
  · simp [Callers.timeOut, hn] at hne
  · simp [Callers.timeOut, h.alone hmt]
  · exact h.handed_update (h.not_handed (by simp [hpc])) (by simp [EAGAIN])

theorem Inv.resume_given {block : Nat} (hpc : s.pc thread = .Woken 0) (hd : s.swapData thread = some block) :
    (s.resume thread 0).Inv cfg free := by
  have hm := (h.handed thread block).mpr ⟨hpc, hd⟩
  have hg : allocated thread 0 (s.swapData thread) = [(thread, block)] := by
    simp [allocated, hd]
  have hp := h.parked.update thread (h.parked.not_mem thread (by simp [hpc])) .Running
  refine ⟨h.size, h.linked, ?_, h.used, h.waiting, h.alone, h.queue, hp.waits, fun o b' => ?_⟩
  · refine List.Perm.trans ?_ h.places
    simp only [Callers.resume, hg, List.diff_cons, List.diff_nil]
    refine List.Perm.append_left _ (List.Perm.map _ ?_)
    rw [← List.append_assoc]
    refine (List.perm_append_singleton _ _).trans ?_
    exact (List.perm_cons_erase hm).symm.append_right _
  · simp only [Callers.resume, hg, List.diff_cons, List.diff_nil]
    rw [h.nodup_handed.mem_erase_iff, h.handed]
    by_cases ho : o = thread
    · subst ho
      simp [hpc, hd, eq_comm]
    · simp [ho]

theorem Inv.resume_nothing {ret : Int} (hpc : s.pc thread = .Woken ret)
    (hn : allocated thread ret (s.swapData thread) = [])
    (hnt : ∀ block, (thread, block) ∉ s.handed) : (s.resume thread ret).Inv cfg free := by
  have hp := h.parked.update thread (h.parked.not_mem thread (by simp [hpc])) .Running
  refine ⟨h.size, h.linked, ?_, h.used, h.waiting, h.alone, h.queue, hp.waits, ?_⟩
  · simp only [Callers.resume, hn, List.append_nil, List.diff_nil]
    exact h.places
  · simp only [Callers.resume, hn, List.diff_nil]
    exact h.handed_update hnt (by simp)

theorem Inv.resume {ret : Int} (hpc : s.pc thread = .Woken ret) : (s.resume thread ret).Inv cfg free := by
  by_cases hr : ret = 0
  · subst hr
    cases hd : s.swapData thread with
    | some block => exact h.resume_given hpc hd
    | none =>
      refine h.resume_nothing hpc (by simp [allocated, hd]) fun block hm => ?_
      cases hd.symm.trans ((h.handed thread block).mp hm).2
  · exact h.resume_nothing hpc (if_neg hr) (h.not_handed (by simp [hpc, hr]))

theorem Inv.write {off : Nat} (hheld : (holder, mem) ∈ s.held) (ho : off < s.slab.blockSize) (v : Option Nat) :
    (s.write (mem + off) v).Inv cfg free := by
  refine ⟨h.size, h.linked.update (fun hm => ?_) v, h.places, h.used, h.waiting, h.alone, h.queue, h.pended, h.handed⟩
  obtain ⟨i, _, rfl⟩ := h.mem_blocks hheld
  have hb := h.places.mem_iff.mp (List.mem_append_left _ hm)
  obtain ⟨j, _, hj⟩ := List.mem_map.mp hb
  have hij : j = i := s.slab.block_add_inj ho hj
  have hz : s.slab.block i + off = s.slab.block i := by rw [← hj, hij]
  rw [hz] at hm
  have hd := List.disjoint_of_nodup_append h.nodup
  exact hd hm (List.mem_map.mpr ⟨_, List.mem_append_right _ hheld, rfl⟩)

theorem Inv.step {next : Callers} {op : Op} (hs : s.step cfg policy op = some next) : ∃ free', next.Inv cfg free' := by
  rcases step_cases hs with ⟨thread, timeout, hpc, rfl⟩ | ⟨holder, mem, result, hheld, hr, rfl⟩ |
    ⟨thread, timeout, hpc, rfl⟩ | ⟨thread, ret, hpc, rfl⟩ |
    ⟨holder, mem, offset, value, hheld, hoffset, rfl⟩
  · exact h.alloc hpc timeout
  · exact h.freed hheld hr
  · exact ⟨free, h.timeOut hpc⟩
  · exact ⟨free, h.resume hpc⟩
  · exact ⟨free, h.write hheld hoffset value⟩

end

theorem each_block_one_place (policy : Policy Tid) (memory : Nat → Option Nat)
    (buffer blockSize numBlocks : Nat) {slab : MemSlab}
    (hslab : kMemSlabInit cfg memory buffer blockSize numBlocks = .ok slab) (ops : List Op) :
    Throughout (step cfg policy) (OnePlace cfg) (start slab) ops := by
  have hi : Throughout (step cfg policy) (fun s => ∃ free, s.Inv cfg free) (start slab) ops := by
    refine throughout_of_step (fun state op next hi hs => ?_) ⟨_, start_inv hslab⟩ ops
    obtain ⟨free, h⟩ := hi
    exact h.step hs
  refine hi.mono fun state hi => ?_
  obtain ⟨free, h⟩ := hi
  exact h.onePlace

theorem each_block_one_place_two_blocks :
    ∃ slab, kMemSlabInit ⟨4, true, true, true⟩ (fun _ => none) 0x20000000 8 2 = .ok slab ∧
      (run (step ⟨4, true, true, true⟩ (Policy.byPriority fun _ => 0)) (start slab)
        [.Alloc 1 K_NO_WAIT, .Alloc 2 K_NO_WAIT, .Alloc 3 K_FOREVER, .Free 1 0x20000000,
          .Resume 3]).isSome ∧
      Throughout (step ⟨4, true, true, true⟩ (Policy.byPriority fun _ => 0))
        (OnePlace ⟨4, true, true, true⟩) (start slab)
        [.Alloc 1 K_NO_WAIT, .Alloc 2 K_NO_WAIT, .Alloc 3 K_FOREVER, .Free 1 0x20000000, .Resume 3] :=
  ⟨_, rfl, rfl, each_block_one_place _ (fun _ => none) 0x20000000 8 2 rfl _⟩

end Callers

end Gale.MemSlab
