import Gale.Mempool.Invariant

namespace Gale.Mempool

open Lib Heap

variable {H : Type*} {m : Machine H} {site : Site m} {held : H → Nat → Option Nat}
  {s next : State H} {id : Nat} {block : Block H}

def Sane (site : Site m) (s : State H) : Prop := ∃ held, Inv site held s

def Obtains (m : Machine H) (align : Nat)
    (allocator : Heap.Config → ZHeap → Nat → Nat → ZHeap × Nat) : Prop :=
  ∀ layout s held total, layout.cfg = m.heap → Represents layout s held →
    Grants layout held total (fun mem => max align 1 ∣ mem + m.sizeofRef)
      (allocator layout.cfg s (align ||| m.sizeofRef) total)

theorem obtains_aligned {al : Nat} (hp : al &&& (al - 1) = 0) : Obtains m al sysHeapAlignedAlloc := by
  intro layout s held n hc hs
  exact hs.sysHeapAlignedAlloc_or hp (m.sizeofRef_dvd_header hc) n

theorem obtains_noalign : Obtains m 0 sysHeapNoalignAlloc := by
  intro layout s held n _ hs
  exact (hs.sysHeapAlloc n).grants fun _ _ => one_dvd _

def Within (cfg : Heap.Config) (z : ZHeap) (mem extent c n : Nat) : Prop :=
  z.UsedChunk c n ∧ z.chunkMem cfg c ≤ mem ∧
    mem + extent + CHUNK_UNIT * cfg.chunkTrailerSize ≤ z.base + CHUNK_UNIT * (c + n)

def GivesBack (cfg : Heap.Config) (z : ZHeap) (mem extent : Nat) : Prop :=
  ∃ c n, Within cfg z mem extent c n ∧
    ∀ d k, (z.sysHeapFree cfg mem).UsedChunk d k ↔ z.UsedChunk d k ∧ d ≠ c

theorem State.blocks_set (s : State H) (id : Nat) (new : Option (Block H)) :
    (s.set id new).blocks id = new := Function.update_self ..

namespace Inv

section

variable (h : Inv site held s) (hid : s.blocks id = some block)
include h hid

theorem storeRef (hs : s.storeRef m id block = some next) : Sane site next := by
  have hv := h.blocks id block hid
  unfold State.storeRef at hs
  split at hs
  · next zeroed _ =>
      cases hs
      refine ⟨held, h.write hid rfl rfl rfl ?_ rfl rfl ⟨hv.holds, hv.aligned, fun _ =>
        ⟨rfl, load_store_self s.memory block.mem (m.encode block.heap), fun _ _ => rfl⟩, ?_, ?_⟩⟩
      · intro a ha
        unfold Block.extent at ha
        exact store_of_outside s.memory _ (by unfold Machine.sizeofRef at ha; omega)
      · cases zeroed <;> exact nofun
      · cases zeroed <;> exact nofun
  · cases hs

theorem clear (hs : s.clear id block = some next) : Sane site next := by
  have hv := h.blocks id block hid
  unfold State.clear at hs
  split at hs
  · next hst =>
      cases hs
      obtain ⟨hp, hw, -⟩ := hv.returned (by rw [hst]; exact nofun)
      have ho : ∀ a, a < block.ptr ∨ block.ptr + block.bytes ≤ a →
          store s.memory block.ptr (fun _ : Fin block.bytes => 0) a = s.memory a :=
        fun a ha => store_of_outside s.memory _ ha
      have hz : ∀ i < block.bytes, store s.memory block.ptr (fun _ : Fin block.bytes => 0) (block.ptr + i) = 0 :=
        fun i hi => store_apply s.memory block.ptr _ hi
      have hk : load (store s.memory block.ptr fun _ : Fin block.bytes => 0) block.mem
          m.sizeofRef = m.encode block.heap :=
        (load_congr fun a _ hhi => ho a (by omega)).trans hw
      refine ⟨held, h.write hid rfl rfl rfl (fun a ha => ho a ?_) rfl rfl
        ⟨hv.holds, hv.aligned, fun _ => ⟨hp, hk, hz⟩, nofun, nofun⟩⟩
      unfold Block.extent at ha
      omega
  · cases hs

theorem write_byte {off : Nat} {byte : UInt8} (hs : s.write id block off byte = some next) : Sane site next := by
  have hv := h.blocks id block hid
  unfold State.write at hs
  split at hs
  · next hst =>
      obtain ⟨ho, hn⟩ := Option.ite_none_right_eq_some.mp hs
      cases hn
      obtain ⟨hp, hw, hd⟩ := hv.returned (by rw [hst]; exact nofun)
      have hk : load (Function.update s.memory (block.ptr + off) byte) block.mem
          m.sizeofRef = m.encode block.heap := by
        rw [← hw]
        exact load_congr fun a _ hhi => Function.update_of_ne (by omega) _ _
      have hwr : ∀ i < block.bytes, Function.update s.memory (block.ptr + off) byte
          (block.ptr + i) = Function.update block.data off byte i := by
        intro i hi
        by_cases heq : i = off
        · rw [heq, Function.update_self, Function.update_self]
        · rw [Function.update_of_ne heq, Function.update_of_ne (by omega)]
          exact hd i hi
      refine ⟨held, h.write hid rfl rfl rfl (fun a ha => Function.update_of_ne ?_ _ _) rfl rfl
        ⟨hv.holds, hv.aligned, fun _ => ⟨hp, hk, hwr⟩, hv.freeing, hv.reallocating⟩⟩
      unfold Block.extent at ha
      omega
  · cases hs

theorem restage {stage : Stage H} (hs : ∀ zeroed, block.stage ≠ .Taken zeroed)
    (hf : ∀ owner ref, stage = .Freeing owner ref → owner = block.heap ∧ ref = block.mem)
    (hr : ∀ owner ref size n, stage = .Reallocating owner ref size n →
      owner = block.heap ∧ ref = block.mem ∧ n = size + m.sizeofRef) :
    Inv site held (s.set id (some { block with stage := stage })) := by
  have hv := h.blocks id block hid
  exact h.write hid rfl rfl rfl (fun _ _ => rfl) rfl rfl ⟨hv.holds, hv.aligned, fun _ => hv.returned hs, hf, hr⟩

theorem kFree_eq (hl : block.stage = .Live) : s.kFree m id block =
      some (s.set id (some { block with stage := .Freeing block.heap block.mem })) := by
  have hs : ∀ zeroed, block.stage ≠ .Taken zeroed := by
    rw [hl]
    exact nofun
  have hv := h.blocks id block hid
  unfold State.kFree
  simp only [hl]
  rw [if_pos (hv.ptr_ne_zero hs), h.owner_eq hid hs, hv.ref_eq hs]

theorem kFree (hs : s.kFree m id block = some next) : Sane site next := by
  by_cases hl : block.stage = .Live
  · rw [h.kFree_eq hid hl] at hs
    cases hs
    refine ⟨held, h.restage hid (by rw [hl]; exact nofun) ?_ nofun⟩
    rintro _ _ ⟨⟩
    exact ⟨rfl, rfl⟩
  · unfold State.kFree at hs
    split at hs
    · next hst => exact absurd hst hl
    · cases hs

theorem within : ∃ n, held block.heap ((site.layouts block.heap).memToChunkid block.mem) = some n ∧
    Within m.heap (s.heaps block.heap) block.mem (block.extent m)
      ((site.layouts block.heap).memToChunkid block.mem) n := by
  obtain ⟨n, -, hh, hf⟩ := (h.blocks id block hid).holds
  have hhp := h.heaps block.heap
  refine ⟨n, hh, hhp.usedChunk_iff.mpr hh, ?_⟩
  obtain ⟨starts, hi⟩ := hhp
  rw [← site.cfg block.heap, hi.chunkMem_eq, hi.base]
  exact ⟨hf.start, hf.room⟩

theorem givesBack : GivesBack m.heap (s.heaps block.heap) block.mem (block.extent m) := by
  obtain ⟨n, hh, hw⟩ := h.within hid
  have hv := h.blocks id block hid
  have hf := (h.heaps block.heap).free_spares hv.holds s.memory s.memory
  rw [site.cfg] at hf
  refine ⟨_, n, hw, fun d k => ?_⟩
  rw [hf.1.usedChunk_iff, (h.heaps block.heap).usedChunk_iff]
  by_cases hd : d = (site.layouts block.heap).memToChunkid block.mem
  · simp [hd]
  · rw [Function.update_of_ne hd]
    simp [hd]

end

end Inv

-- The heaps are initialised, in memory of their own, and nothing is allocated.
structure Started (m : Machine H) (s : State H) : Prop where
  heaps : ∃ start bytes : H → Nat,
    (∀ heap, ∃ memory, sysHeapInit m.heap memory (start heap) (bytes heap) = some (s.heaps heap)) ∧
    ∀ heap other, heap ≠ other →
      start heap + bytes heap ≤ start other ∨ start other + bytes other ≤ start heap
  blocks : ∀ id, s.blocks id = none

theorem Started.sane (h : Started m s) : ∃ site : Site m, Sane site s := by
  obtain ⟨start, bs, hi, hap⟩ := h.heaps
  choose memory hi using hi
  choose layouts held hcfg hheaps using fun heap => sysHeapInit_represents (hi heap)
  have har : ∀ heap a, ¬ (layouts heap).Outside a → start heap ≤ a ∧ a < start heap + bs heap := by
    intro heap a ha
    obtain ⟨starts, hin⟩ := hheaps heap
    have hb := sysHeapInit_area (hi heap)
    rw [hin.base, hin.endChunk, ← hcfg heap] at hb
    unfold Layout.Outside Layout.header at ha
    omega
  refine ⟨⟨layouts, hcfg, fun heap o hne a => ?_⟩, held, hheaps, ?_, ?_⟩
  · by_contra hboth
    obtain ⟨hh, ho⟩ := not_or.mp hboth
    have hf := har heap a hh
    have hs := har o a ho
    have := hap heap o hne
    omega
  · intro id block hid
    cases (h.blocks id).symm.trans hid
  · intro id o block b' _ hid
    cases (h.blocks id).symm.trans hid

variable [DecidableEq H]

namespace Inv

variable {noise : Nat → Nat → UInt8}

section

variable (h : Inv site held s)
include h

theorem zAllocHelper {heap : H} {al size : Nat}
    {allocator : Heap.Config → ZHeap → Nat → Nat → ZHeap × Nat} {zeroed : Bool}
    (hob : Obtains m al allocator)
    (hs : s.zAllocHelper m id heap al size allocator zeroed noise = some next) :
    Sane site next := by
  obtain ⟨-, hs⟩ := Option.ite_none_right_eq_some.mp hs
  cases ht : checkedAdd m.sizeMax size m.sizeofRef with
  | none =>
    rw [ht] at hs
    cases hs
    exact ⟨held, h⟩
  | some total =>
    have htotal_eq := checkedAdd_eq_some ht
    have hcf := site.cfg heap
    have hgr := hob _ _ _ total hcf (h.heaps heap)
    rw [hcf] at hgr
    rw [ht] at hs
    dsimp only at hs
    generalize allocator m.heap (s.heaps heap) (al ||| m.sizeofRef) total = result at *
    obtain ⟨z, mem⟩ := result
    obtain ⟨heldNext, hz, hsp, hr⟩ :=
      (h.heaps heap).grants_spares hgr (noise 0) s.memory
    rw [hcf] at hsp
    have hot : ∀ o block, s.blocks o = some block → block.Valid m
        (site.layouts block.heap) (Function.update held heap heldNext block.heap)
        (ZHeap.settle m.heap (s.heaps heap) z (noise 0) s.memory) := by
      intro o block ho
      refine h.valid_of_spares ho hsp fun heq => ?_
      subst heq
      exact (h.blocks o block ho).holds.choose_spec.1
    rcases hr with rfl | ⟨c, hn, hh, hg⟩
    · cases hs
      exact ⟨_, h.represents_called hz, fun o block => hot o block, h.distinct⟩
    · have hm := hh.ptr_ne_zero
      have hc := hh.chunk
      simp only [hm, allocActionDecide, ne_eq, not_false_eq_true, decide_true, if_true] at hs
      cases hs
      refine ⟨_, h.update (h.represents_called hz) rfl (fun o block _ => hot o block) ?_⟩
      rintro _ ⟨⟩
      refine ⟨⟨?_, hg, fun hst => absurd rfl (hst zeroed), nofun, nofun⟩, ?_⟩
      · show (site.layouts heap).Holds _ mem (size + m.sizeofRef) _
        rw [Function.update_self, hc, htotal_eq]
        exact hh
      · intro o b' _ ho hhp heq
        subst hhp
        obtain ⟨n, -, hhl, -⟩ := (h.blocks o b' ho).holds
        rw [heq, hc] at hhl
        cases hhl.symm.trans hn

theorem alloc {request : Request H} (hs : s.alloc m id noise request = some next) : Sane site next := by
  have hm : ∀ {size : Nat} {zeroed : Bool}, s.kMalloc m id size zeroed noise = some next → Sane site next := by
    intro size zeroed hs
    obtain ⟨heap, -, hs⟩ := Option.bind_eq_some_iff.mp hs
    exact h.zAllocHelper obtains_noalign hs
  have ha : ∀ {heap : H} {al size : Nat},
      s.zAllocHelper m id heap al size sysHeapAlignedAlloc false noise = some next →
      Sane site next := by
    intro heap al size hs
    have hp := (Option.ite_none_right_eq_some.mp hs).1
    exact h.zAllocHelper (obtains_aligned hp) hs
  cases request with
  | KMalloc size => exact hm hs
  | KCalloc nmemb size =>
    change s.kCalloc m id nmemb size noise = some next at hs
    unfold State.kCalloc at hs
    split at hs
    · cases hs
      exact ⟨held, h⟩
    · exact hm hs
  | KAlignedAlloc al size =>
    obtain ⟨heap, -, hs⟩ := Option.bind_eq_some_iff.mp hs
    exact ha hs
  | ZThreadMalloc context size =>
    change s.zThreadAllocHelper m id context 0 size sysHeapNoalignAlloc noise = some next at hs
    unfold State.zThreadAllocHelper at hs
    split at hs
    · exact h.zAllocHelper obtains_noalign hs
    · cases hs
      exact ⟨held, h⟩
  | ZThreadAlignedAlloc context al size =>
    change s.zThreadAllocHelper m id context al size sysHeapAlignedAlloc noise = some next
      at hs
    unfold State.zThreadAllocHelper at hs
    split at hs
    · exact ha hs
    · cases hs
      exact ⟨held, h⟩
  | KReallocNull size =>
    change (if size = 0 then some s else s.kMalloc m id size false noise) = some next at hs
    split at hs
    · cases hs
      exact ⟨held, h⟩
    · exact hm hs

theorem kHeapFree (hid : s.blocks id = some block) (hs : s.kHeapFree m id block noise = some next) :
    Sane site next := by
  have hv := h.blocks id block hid
  unfold State.kHeapFree at hs
  split at hs
  · next owner ref hst =>
      obtain ⟨rfl, rfl⟩ := hv.freeing owner ref hst
      cases hs
      have hcf := site.cfg block.heap
      obtain ⟨hz, hsp⟩ := (h.heaps block.heap).free_spares hv.holds (noise 0) s.memory
      rw [hcf] at hz hsp
      refine ⟨_, h.update (h.represents_called hz) rfl (fun o b' hne ho => ?_) nofun⟩
      refine h.valid_of_spares ho hsp fun heq hc => ?_
      refine h.distinct o id b' block hne ho hid heq ?_
      rw [heq]
      exact hc
  · cases hs

theorem kRealloc (hid : s.blocks id = some block) {size : Nat} (hs : s.kRealloc m id block size noise = some next) :
    Sane site next := by
  have hv := h.blocks id block hid
  unfold State.kRealloc at hs
  split at hs
  · next hl =>
      have hst : ∀ zeroed, block.stage ≠ .Taken zeroed := by
        rw [hl]
        exact nofun
      by_cases hsz : size = 0
      · rw [if_pos hsz] at hs
        exact h.kFree hid hs
      · rw [if_neg hsz, if_neg (hv.ptr_ne_zero hst)] at hs
        dsimp only at hs
        rw [h.owner_eq hid hst, hv.ref_eq hst] at hs
        split at hs
        · cases hs
          exact ⟨held, h⟩
        · next n ht =>
            cases hs
            refine ⟨held, h.restage hid hst nofun ?_⟩
            rintro _ _ _ _ ⟨⟩
            exact ⟨rfl, rfl, (checkedAdd_eq_some ht).symm⟩
  · cases hs

theorem sysHeapRealloc (hid : s.blocks id = some block) (hs : s.sysHeapRealloc m id block noise = some next) :
    Sane site next := by
  have hv := h.blocks id block hid
  unfold State.sysHeapRealloc at hs
  split at hs
  · next owner ref size total hst =>
      obtain ⟨rfl, rfl, rfl⟩ := hv.reallocating owner ref size total hst
      have hrt : ∀ zeroed, block.stage ≠ .Taken zeroed := by
        rw [hst]
        exact nofun
      have hps : 0 < m.sizeofRef := Nat.two_pow_pos _
      have hcf := site.cfg block.heap
      have hr := (h.heaps block.heap).reallocBytes_resizes hv.holds
        (show size + m.sizeofRef ≠ 0 by omega) s.memory noise
      rw [hcf] at hr
      generalize (s.heaps block.heap).sysHeapReallocBytes m.heap s.memory noise block.mem
        (size + m.sizeofRef) = result at hs hr
      cases hr with
      | @Failed z memory heldNext hz hspares =>
        cases hs
        have hot : ∀ o b', s.blocks o = some b' → b'.Valid m
            (site.layouts b'.heap) (Function.update held block.heap heldNext b'.heap)
            memory := fun o b' ho => h.valid_of_spares ho hspares fun heq =>
          heq ▸ (h.blocks o b' ho).holds.choose_spec.1
        have hsm : Inv site (Function.update held block.heap heldNext)
            (s.called block.heap z memory) :=
          ⟨h.represents_called hz, hot, h.distinct⟩
        exact ⟨_, hsm.restage hid hrt nofun nofun⟩
      | @Resized z memory heldNext ret c hc hz hspares hholds hbytes =>
        simp only [ne_eq, hholds.ptr_ne_zero, not_false_eq_true, if_true] at hs
        cases hs
        have hch := hholds.chunk
        obtain ⟨hp, hw, hd⟩ := hv.returned hrt
        refine ⟨_, h.update (h.represents_called hz) rfl (fun o b' hne ho => ?_) ?_⟩
        · refine h.valid_of_spares ho hspares fun heq hsm => ?_
          exact h.distinct o id b' block hne ho hid heq (heq ▸ hsm)
        · rintro _ ⟨⟩
          refine ⟨⟨?_, one_dvd _, fun _ => ⟨rfl, ?_, fun i hi => ?_⟩, nofun, nofun⟩, ?_⟩
          · show (site.layouts block.heap).Holds _ ret (size + m.sizeofRef) _
            rw [Function.update_self, hch]
            exact hholds
          · refine Eq.trans (funext fun i => ?_) hw
            exact hbytes i (by have := i.isLt; unfold Block.extent; omega)
          · show memory (ret + m.sizeofRef + i) =
              if i < min block.bytes size then block.data i else memory (ret + m.sizeofRef + i)
            split
            · rw [Nat.add_assoc, hbytes _ (by unfold Block.extent; omega), ← Nat.add_assoc, ← hp]
              exact hd i (by omega)
            · rfl
          · intro o b' hne ho hh heq
            have hsm : (site.layouts b'.heap).memToChunkid b'.mem = c :=
              heq.trans hch
            rcases hc with rfl | hnn
            · exact h.distinct o id b' block hne ho hid hh hsm
            · obtain ⟨n, -, hn, -⟩ := (h.blocks o b' ho).holds
              rw [hsm, hh] at hn
              cases hn.symm.trans hnn
  · cases hs

theorem step {turn : Turn H} (hs : step m s turn = some next) : Sane site next := by
  obtain ⟨a, noise⟩ := turn
  cases a with
  | Alloc id request => exact h.alloc (Option.ite_none_right_eq_some.mp hs).2
  | StoreRef id =>
    obtain ⟨block, hid, hs⟩ := Option.bind_eq_some_iff.mp hs
    exact h.storeRef hid hs
  | Clear id =>
    obtain ⟨block, hid, hs⟩ := Option.bind_eq_some_iff.mp hs
    exact h.clear hid hs
  | KFree id =>
    obtain ⟨block, hid, hs⟩ := Option.bind_eq_some_iff.mp hs
    exact h.kFree hid hs
  | KHeapFree id =>
    obtain ⟨block, hid, hs⟩ := Option.bind_eq_some_iff.mp hs
    exact h.kHeapFree hid hs
  | KRealloc id size =>
    obtain ⟨block, hid, hs⟩ := Option.bind_eq_some_iff.mp hs
    exact h.kRealloc hid hs
  | SysHeapRealloc id =>
    obtain ⟨block, hid, hs⟩ := Option.bind_eq_some_iff.mp hs
    exact h.sysHeapRealloc hid hs
  | Write id off byte =>
    obtain ⟨block, hid, hs⟩ := Option.bind_eq_some_iff.mp hs
    exact h.write_byte hid hs

end

end Inv

structure Block.Owned (m : Machine H) (s : State H) (block : Block H) : Prop where
  names : m.sizeofRef ≤ block.ptr ∧ s.owner m (block.ptr - m.sizeofRef) = block.heap
  aligned : block.align ∣ block.ptr
  usable : ∃ c n, Within m.heap (s.heaps block.heap) (block.ptr - m.sizeofRef) (block.extent m) c n
  contents : ∀ i < block.bytes, s.memory (block.ptr + i) = block.data i

structure Owned (m : Machine H) (s : State H) : Prop where
  returned : ∀ id block, s.blocks id = some block → (∀ zeroed, block.stage ≠ .Taken zeroed) →
    block.Owned m s
  apart : ∀ id other block block', id ≠ other → s.blocks id = some block →
    s.blocks other = some block' → block'.mem + block'.extent m ≤ block.mem ∨
      block.mem + block.extent m ≤ block'.mem
  frees : ∀ id block, s.blocks id = some block → block.stage = .Live → s.kFree m id block =
    some (s.set id (some { block with stage := .Freeing block.heap block.mem }))
  givesBack : ∀ id block owner ref, s.blocks id = some block → block.stage = .Freeing owner ref →
    owner = block.heap ∧ ref = block.mem ∧ GivesBack m.heap (s.heaps owner) ref (block.extent m)
  survives : ∀ id block noise next block', s.blocks id = some block →
    s.sysHeapRealloc m id block noise = some next → next.blocks id = some block' →
    block'.heap = block.heap ∧ ∀ i < min block.bytes block'.bytes,
      next.memory (block'.ptr + i) = s.memory (block.ptr + i)

namespace Inv

theorem survives (h : Inv site held s) (hid : s.blocks id = some block) {noise : Nat → Nat → UInt8} {b' : Block H}
    (hs : s.sysHeapRealloc m id block noise = some next) (ha : next.blocks id = some b') :
    b'.heap = block.heap ∧ ∀ i < min block.bytes b'.bytes,
      next.memory (b'.ptr + i) = s.memory (block.ptr + i) := by
  obtain ⟨_, hn⟩ := h.sysHeapRealloc hid hs
  have hd := (hn.blocks id b' ha).returned
  have hdt := (h.blocks id block hid).returned
  unfold State.sysHeapRealloc at hs
  split at hs
  · next owner ref size n hst =>
      have hb := (hdt (by rw [hst]; exact nofun)).2.2
      dsimp only at hs
      split at hs
      · cases hs
        obtain rfl := Option.some.inj ((State.blocks_set ..).symm.trans ha)
        refine ⟨rfl, fun i hi => ?_⟩
        rw [(hd nofun).2.2 i (by omega), hb i (by omega)]
        exact if_pos hi
      · cases hs
        obtain rfl := Option.some.inj ((State.blocks_set ..).symm.trans ha)
        refine ⟨rfl, fun i hi => ?_⟩
        rw [(hd nofun).2.2 i (by omega), hb i (by omega)]
  · cases hs

theorem owned (h : Inv site held s) : Owned m s where
  returned := by
    intro id block hid hs
    have hv := h.blocks id block hid
    obtain ⟨hp, -, hd⟩ := hv.returned hs
    obtain ⟨n, -, hw⟩ := h.within hid
    rw [← hv.ref_eq hs] at hw
    exact ⟨⟨by omega, h.owner_eq hid hs⟩, hp ▸ hv.aligned, ⟨_, n, hw⟩, hd⟩
  apart := fun id o block b' hne hid ho => h.extents_disjoint (Ne.symm hne) hid ho
  frees := fun id block hid hl => h.kFree_eq hid hl
  givesBack := by
    intro id block owner ref hid hs
    obtain ⟨rfl, rfl⟩ := (h.blocks id block hid).freeing owner ref hs
    exact ⟨rfl, rfl, h.givesBack hid⟩
  survives := fun id block noise next b' hid hst ha => h.survives hid hst ha

end Inv

def twoPools : Machine Bool where
  heap := smallHeap
  wordLog := 2
  width := .inl rfl
  encode heap _ := if heap then 1 else 0
  decode bytes := bytes 0 = 1
  decode_encode := by decide
  system := some false

def twoPoolsStart (first second : ZHeap) : State Bool :=
  ⟨fun pool => if pool then second else first, fun _ => 0, fun _ => none⟩

-- A block of the system heap moves while another is taken from a thread's pool.
def twoPoolsTurns : List (Turn Bool) :=
  [.Alloc 0 (.KMalloc 20), .StoreRef 0, .Write 0 3 7, .Alloc 1 (.KCalloc 2 4), .KRealloc 0 60,
    .StoreRef 1, .Alloc 2 (.ZThreadAlignedAlloc ⟨false, some true⟩ 16 8), .Clear 1,
    .SysHeapRealloc 0, .StoreRef 2, .KFree 0, .KFree 2, .KHeapFree 2, .KHeapFree 0].map
      fun input => ⟨input, fun _ _ => 5⟩

end Gale.Mempool
