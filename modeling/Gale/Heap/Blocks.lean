import Gale.Heap.Calls

namespace Gale.Heap

open Function Lib

structure Block where
  ptr : Nat
  bytes : Nat
  align : Nat
  deriving DecidableEq, Repr

structure Session where
  heap : ZHeap
  live : List Block

namespace Session

variable (cfg : Config)

def grant (live : List Block) (ptr bytes align : Nat) : List Block :=
  if ptr = 0 then live else ⟨ptr, bytes, align⟩ :: live

def drop (live : List Block) (ptr : Nat) : List Block := live.filter (·.ptr ≠ ptr)

def resize (live : List Block) (ptr bytes : Nat) : List Block :=
  live.map fun block => if block.ptr = ptr then { block with bytes := bytes } else block

def alloc (m : Session) (bytes : Nat) : Session × Nat :=
  let (heap, ptr) := m.heap.sysHeapAlloc cfg bytes
  (⟨heap, grant m.live ptr bytes 1⟩, ptr)

def alignedAlloc (m : Session) (align bytes : Nat) : Session × Nat :=
  let (heap, ptr) := m.heap.sysHeapAlignedAlloc cfg align bytes
  (⟨heap, grant m.live ptr bytes (max align 1)⟩, ptr)

def free (m : Session) (ptr : Nat) : Session :=
  ⟨m.heap.sysHeapFree cfg ptr, drop m.live ptr⟩

def realloc (m : Session) (ptr bytes : Nat) : Session × Nat :=
  let (heap, ret) := m.heap.sysHeapRealloc cfg ptr bytes
  let live :=
    if ptr = 0 then grant m.live ret bytes 1
    else if bytes = 0 then drop m.live ptr
    else if ret = 0 then m.live
    else if ret = ptr then resize m.live ptr bytes
    else grant (drop m.live ptr) ret bytes 1
  (⟨heap, live⟩, ret)

end Session

structure Blocks (layout : Layout) (held : Nat → Option Nat) (live : List Block) : Prop where
  placed : ∀ block ∈ live, ∃ c n, c ≠ 0 ∧ held c = some n ∧
    layout.Fits block.ptr block.bytes c n ∧ block.align ∣ block.ptr
  distinct : (live.map fun block => layout.memToChunkid block.ptr).Nodup

namespace Blocks

variable {lo : Layout} {held : Nat → Option Nat} {live : List Block} {ptr bytes align c n : Nat}

theorem nil (lo : Layout) (held : Nat → Option Nat) : Blocks lo held [] :=
  ⟨by simp, List.nodup_nil⟩

theorem place (h : Blocks lo held live) (hhl : held c = none) (hc : c ≠ 0)
    (hf : lo.Fits ptr bytes c n) (ha : align ∣ ptr) :
    Blocks lo (update held c (some n)) (⟨ptr, bytes, align⟩ :: live) := by
  have hne : ∀ d m, held d = some m → d ≠ c := by
    rintro d m hd rfl
    cases hd.symm.trans hhl
  constructor
  · intro block hb
    rcases List.mem_cons.mp hb with rfl | hol
    · exact ⟨c, n, hc, update_self .., hf, ha⟩
    · obtain ⟨d, m, hd, hh, hr⟩ := h.placed block hol
      exact ⟨d, m, hd, by rw [update_of_ne (hne d m hh), hh], hr⟩
  · refine List.nodup_cons.mpr ⟨fun hm => ?_, h.distinct⟩
    obtain ⟨o, ho, heq⟩ := List.mem_map.mp hm
    obtain ⟨d, m, -, hh, hft, -⟩ := h.placed o ho
    exact hne d m hh (hft.chunk.symm.trans (heq.trans hf.chunk))

theorem ne_of_ptr_ne (h : Blocks lo held live) {block o : Block} (hb : block ∈ live)
    (ho : o ∈ live) (hne : o.ptr ≠ block.ptr) :
    lo.memToChunkid o.ptr ≠ lo.memToChunkid block.ptr := by
  intro heq
  exact hne (congrArg Block.ptr (List.inj_on_of_nodup_map h.distinct ho hb heq))

theorem drop (h : Blocks lo held live) {block : Block} (hb : block ∈ live) (hc : lo.memToChunkid block.ptr = c) :
    Blocks lo (update held c none) (Session.drop live block.ptr) := by
  constructor
  · intro o ho
    obtain ⟨ho, hne⟩ := List.mem_filter.mp ho
    obtain ⟨d, m, hd, hh, hf, ha⟩ := h.placed o ho
    have hn := h.ne_of_ptr_ne hb ho (by simpa using hne)
    rw [hf.chunk, hc] at hn
    exact ⟨d, m, hd, by rw [update_of_ne hn, hh], hf, ha⟩
  · exact h.distinct.sublist (List.filter_sublist.map _)

theorem resize (h : Blocks lo held live) {block : Block} (hb : block ∈ live)
    (hc : c ≠ 0) (hft : lo.Fits block.ptr bytes c n) :
    Blocks lo (update held c (some n)) (Session.resize live block.ptr bytes) := by
  constructor
  · intro o ho
    obtain ⟨old, hol, rfl⟩ := List.mem_map.mp ho
    obtain ⟨d, m, hd, hh, hf, ha⟩ := h.placed old hol
    by_cases heq : old.ptr = block.ptr
    · rw [if_pos heq]
      exact ⟨c, n, hc, update_self .., heq ▸ hft, ha⟩
    · have hne := h.ne_of_ptr_ne hb hol heq
      rw [hf.chunk, hft.chunk] at hne
      rw [if_neg heq]
      exact ⟨d, m, hd, by rw [update_of_ne hne, hh], hf, ha⟩
  · have hm : (Session.resize live block.ptr bytes).map
        (fun block => lo.memToChunkid block.ptr) =
        live.map fun block => lo.memToChunkid block.ptr := by
      unfold Session.resize
      rw [List.map_map]
      refine List.map_congr_left fun old _ => ?_
      by_cases heq : old.ptr = block.ptr <;> simp [heq]
    rw [hm]
    exact h.distinct

end Blocks

def Session.Sane (layout : Layout) (m : Session) : Prop :=
  ∃ held, Represents layout m.heap held ∧ Blocks layout held m.live

namespace Session

variable {layout : Layout} {m : Session}

theorem sane_of_allocates {heap : ZHeap} {live : List Block} {held : Nat → Option Nat}
    {ptr bytes align : Nat} (hb : Blocks layout held live)
    (ha : Allocates layout held bytes align (heap, ptr)) :
    (Session.mk heap (grant live ptr bytes align)).Sane layout := by
  cases ha with
  | Failed hh => exact ⟨held, hh, hb⟩
  | Placed hhl hc hf hal hh =>
    refine ⟨_, hh, ?_⟩
    simp only [grant, hf.ne_zero, if_false]
    exact hb.place hhl hc hf hal

section

variable (h : m.Sane layout)
include h

theorem Sane.alloc (bytes : Nat) : (m.alloc layout.cfg bytes).1.Sane layout := by
  obtain ⟨held, hh, hb⟩ := h
  exact sane_of_allocates hb ((hh.sysHeapAlloc bytes).mono (one_dvd _))

theorem Sane.alignedAlloc {align : Nat} (hp : align &&& (align - 1) = 0) (bytes : Nat) :
    (m.alignedAlloc layout.cfg align bytes).1.Sane layout := by
  obtain ⟨held, hh, hb⟩ := h
  exact sane_of_allocates hb (hh.sysHeapAlignedAlloc hp bytes)

theorem Sane.free {block : Block} (hbl : block ∈ m.live) : (m.free layout.cfg block.ptr).Sane layout := by
  obtain ⟨held, hhp, hb⟩ := h
  obtain ⟨c, n, hc, hh, hf, -⟩ := hb.placed block hbl
  exact ⟨_, hhp.sysHeapFree hh hc hf, hb.drop hbl hf.chunk⟩

theorem Sane.free_null : (m.free layout.cfg 0).Sane layout := by
  obtain ⟨held, hh, hb⟩ := h
  have hl : drop m.live 0 = m.live := by
    refine List.filter_eq_self.mpr fun block hbl => ?_
    obtain ⟨c, n, -, -, hf, -⟩ := hb.placed block hbl
    simpa using hf.ne_zero
  refine ⟨held, hh, ?_⟩
  show Blocks layout held (drop m.live 0)
  rw [hl]
  exact hb

theorem Sane.realloc_null (bytes : Nat) : (m.realloc layout.cfg 0 bytes).1.Sane layout := by
  obtain ⟨held, hh, hb⟩ := h
  exact sane_of_allocates hb ((hh.sysHeapAlloc bytes).mono (one_dvd _))

theorem Sane.realloc {block : Block} (hbc : block ∈ m.live) (bytes : Nat) :
    (m.realloc layout.cfg block.ptr bytes).1.Sane layout := by
  obtain ⟨held, hhp, hbl⟩ := h
  obtain ⟨c, n, hc, hhl, hft, -⟩ := hbl.placed block hbc
  have hr := hhp.sysHeapRealloc hhl hc hft bytes
  unfold Session.realloc
  generalize m.heap.sysHeapRealloc layout.cfg block.ptr bytes = result at hr ⊢
  generalize m.heap.reallocFrees layout.cfg block.ptr bytes = frees at hr
  simp only [hft.ne_zero, if_false]
  cases hr with
  | Released hb hh =>
    simp only [hb, if_true]
    exact ⟨_, hh, hbl.drop hbc hft.chunk⟩
  | InPlace hb _ hf hh =>
    simp only [hb, hft.ne_zero, if_false, if_true]
    exact ⟨_, hh, hbl.resize hbc hc hf⟩
  | @Moved heap ptr' c' n' hb _ hheld' hc' hf hh =>
    have hne : c' ≠ c := by
      rintro rfl
      cases hheld'.symm.trans hhl
    have hp : ptr' ≠ block.ptr := by
      rintro rfl
      exact hne (hf.chunk.symm.trans hft.chunk)
    have hd := hbl.drop hbc hft.chunk
    have hfr : update held c none c' = none := by
      rw [update_of_ne hne, hheld']
    simp only [hb, hf.ne_zero, hp, grant, if_false]
    rw [update_comm hne] at hh
    exact ⟨_, hh, hd.place hfr hc' hf (one_dvd _)⟩
  | Failed hb _ hh =>
    simp only [hb, if_false, if_true]
    exact ⟨_, hh, hbl⟩

end

end Session

end Gale.Heap
