import Gale.Heap.Integrity
import Gale.Lib.Memory

namespace Gale.Heap

open Function Lib

-- The bytes of memory under a heap. Which values sys_heap writes to its headers, its free
-- chunks and its trailers does not matter: only where it may write.

namespace ZHeap

variable (cfg : Config) {β : Type*}

-- A byte of a used chunk between its header and its trailer; chunk 0 is struct z_heap.
def payload (s : ZHeap) (a : Nat) : Bool :=
  s.chunks.any fun c => c ≠ 0 && s.used c && s.chunkMem cfg c ≤ a &&
    a + CHUNK_UNIT * cfg.chunkTrailerSize < s.base + CHUNK_UNIT * s.rightChunk c

def area (s : ZHeap) (a : Nat) : Bool :=
  s.base ≤ a && a < s.base + CHUNK_UNIT * s.endChunk + cfg.chunkHeaderBytes s.endChunk

-- The memory after a call: whatever the call wrote, but not to what a used chunk holds before
-- it and after it.
def settle (before after : ZHeap) (noise memory : Nat → β) : Nat → β :=
  fun a => if before.area cfg a && !(before.payload cfg a && after.payload cfg a) then noise a
    else memory a

def UsedChunk (s : ZHeap) (c n : Nat) : Prop := c ∈ s.chunks ∧ s.used c = true ∧ s.size c = n

def sysHeapUsableSize (s : ZHeap) (mem : Nat) : Nat :=
  let c := s.memToChunkid cfg mem
  s.size c * CHUNK_UNIT - (mem - (s.base + CHUNK_UNIT * c))

end ZHeap

def memcpy {β : Type*} (memory : Nat → β) (dst src n : Nat) : Nat → β :=
  store memory dst (load memory src n)

namespace ZHeap

variable (cfg : Config) {β : Type*}

-- sys_heap_realloc with the bytes it copies; noise has what each call on the way writes.
def sysHeapReallocBytes (s : ZHeap) (memory : Nat → β) (noise : Nat → Nat → β) (ptr bytes : Nat) :
    ZHeap × (Nat → β) × Nat :=
  if ptr = 0 then
    let (next, ret) := s.sysHeapAlloc cfg bytes
    (next, settle cfg s next (noise 0) memory, ret)
  else if bytes = 0 then
    let next := s.sysHeapFree cfg ptr
    (next, settle cfg s next (noise 0) memory, 0)
  else
    let (next, inplace) := s.inplaceRealloc cfg ptr bytes
    let memory := settle cfg s next (noise 0) memory
    if inplace then (next, memory, ptr)
    else
      let (grown, ptr2) := next.sysHeapAlloc cfg bytes
      let memory := settle cfg next grown (noise 1) memory
      if ptr2 ≠ 0 then
        let prevSize := grown.sysHeapUsableSize cfg ptr
        let memory := memcpy memory ptr2 ptr (min prevSize bytes)
        let freed := grown.sysHeapFree cfg ptr
        (freed, settle cfg grown freed (noise 2) memory, ptr2)
      else (grown, memory, ptr2)

theorem sysHeapReallocBytes_heap (s : ZHeap) (mem : Nat → β) (n : Nat → Nat → β) (ptr bytes : Nat) :
    ((s.sysHeapReallocBytes cfg mem n ptr bytes).1,
      (s.sysHeapReallocBytes cfg mem n ptr bytes).2.2) = s.sysHeapRealloc cfg ptr bytes := by
  unfold sysHeapReallocBytes sysHeapRealloc
  by_cases hp : ptr = 0
  · simp [hp]
  by_cases hb : bytes = 0
  · simp [hp, hb]
  simp only [hp, hb, if_false]
  by_cases hi : (s.inplaceRealloc cfg ptr bytes).2 = true
  · simp [hi]
  by_cases hr : ((s.inplaceRealloc cfg ptr bytes).1.sysHeapAlloc cfg bytes).2 = 0
  · simp [hi, hr]
  · simp [hi, hr]

variable {cfg}

theorem settle_of_payload {before after : ZHeap} {a : Nat} (hb : before.payload cfg a = true)
    (ha : after.payload cfg a = true) (n mem : Nat → β) :
    settle cfg before after n mem a = mem a := by
  unfold settle
  rw [hb, ha]
  simp

theorem settle_of_outside {before : ZHeap} {a : Nat} (h : before.area cfg a = false)
    (after : ZHeap) (n mem : Nat → β) :
    settle cfg before after n mem a = mem a := by
  unfold settle
  rw [h]
  simp

end ZHeap

def Layout.Holds (layout : Layout) (held : Nat → Option Nat) (ptr bytes c : Nat) : Prop :=
  ∃ n, c ≠ 0 ∧ held c = some n ∧ layout.Fits ptr bytes c n

namespace Layout.Holds

variable {lo : Layout} {held h' : Nat → Option Nat} {ptr bytes c : Nat}

section

variable (h : lo.Holds held ptr bytes c)
include h

theorem of_held (hh : h' c = held c) : lo.Holds h' ptr bytes c := by
  obtain ⟨n, hc, hn, hf⟩ := h
  exact ⟨n, hc, hh.trans hn, hf⟩

theorem chunk : lo.memToChunkid ptr = c := by
  obtain ⟨n, -, -, hf⟩ := h
  exact hf.chunk

theorem ptr_ne_zero : ptr ≠ 0 := by
  obtain ⟨n, -, -, hf⟩ := h
  exact hf.ne_zero

theorem shorten {bs' : Nat} (hle : bs' ≤ bytes) : lo.Holds held ptr bs' c := by
  obtain ⟨n, hc, hn, hf⟩ := h
  refine ⟨n, hc, hn, hf.chunk, hf.start, ?_, hf.inside⟩
  have hr := hf.room
  omega

theorem bounds : lo.base ≤ ptr ∧ ptr + bytes ≤ lo.base + CHUNK_UNIT * lo.endChunk := by
  obtain ⟨n, -, -, hf⟩ := h
  have hs := hf.start
  have hr := hf.room
  have hi := hf.inside
  unfold Layout.chunkMem CHUNK_UNIT at *
  omega

end

end Layout.Holds

namespace Represents

variable {lo : Layout} {s next : ZHeap} {held h' : Nat → Option Nat} {ptr bytes c : Nat}

section

variable (h : Represents lo s held)
include h

theorem payload_of_holds (hh : lo.Holds held ptr bytes c) {a : Nat} (hlo : ptr ≤ a)
    (hhi : a < ptr + bytes) : s.payload lo.cfg a = true := by
  obtain ⟨starts, h⟩ := h
  obtain ⟨n, hc, hhl, hf⟩ := hh
  obtain ⟨hm, hu, hs⟩ := h.of_held hhl
  have hst := hf.start
  have hrm := hf.room
  refine List.any_eq_true.mpr ⟨c, (mem_chunks_of_tiling h.tiling c).mpr hm, ?_⟩
  have hr : s.rightChunk c = c + n := by
    unfold ZHeap.rightChunk
    rw [hs]
  have hl : lo.chunkMem c ≤ a := Nat.le_trans hst hlo
  have hhi' : a + CHUNK_UNIT * lo.cfg.chunkTrailerSize < lo.base + CHUNK_UNIT * (c + n) := by omega
  simp [hc, hu, h.chunkMem_eq, h.base, hr, hl, hhi']

theorem settle_of_holds {β : Type*} (hn : Represents lo next h')
    (hhl : lo.Holds held ptr bytes c) (hh : lo.Holds h' ptr bytes c)
    (n mem : Nat → β) {a : Nat} (hlo : ptr ≤ a) (hhi : a < ptr + bytes) :
    ZHeap.settle lo.cfg s next n mem a = mem a :=
  ZHeap.settle_of_payload (h.payload_of_holds hhl hlo hhi) (hn.payload_of_holds hh hlo hhi)
    n mem

theorem holds_disjoint {ptr' bs' c' : Nat} (hhd : lo.Holds held ptr bytes c)
    (hh : lo.Holds held ptr' bs' c') (hne : c ≠ c') :
    ptr + bytes ≤ ptr' ∨ ptr' + bs' ≤ ptr := by
  obtain ⟨starts, h⟩ := h
  obtain ⟨n, -, hhe, hft⟩ := hhd
  obtain ⟨n', -, hhl, hf⟩ := hh
  exact h.fits_disjoint hhe hft hhl hf hne

theorem usedChunk_iff {n : Nat} : s.UsedChunk c n ↔ held c = some n := by
  obtain ⟨starts, h⟩ := h
  unfold ZHeap.UsedChunk
  rw [mem_chunks_of_tiling h.tiling]
  constructor
  · rintro ⟨hc, hu, rfl⟩
    exact h.held_eq_some hc hu
  · exact h.of_held

theorem le_usableSize (hh : lo.Holds held ptr bytes c) :
    bytes + CHUNK_UNIT * lo.cfg.chunkTrailerSize ≤ s.sysHeapUsableSize lo.cfg ptr := by
  obtain ⟨starts, h⟩ := h
  obtain ⟨n, -, hhl, hf⟩ := hh
  obtain ⟨-, -, hs⟩ := h.of_held hhl
  have hst := hf.start
  have hr := hf.room
  unfold ZHeap.sysHeapUsableSize
  simp only [h.memToChunkid_eq, hf.chunk, hs, h.base]
  unfold Layout.chunkMem CHUNK_UNIT at *
  omega

end

end Represents

def Layout.Outside (layout : Layout) (a : Nat) : Prop :=
  a < layout.base ∨ layout.base + CHUNK_UNIT * layout.endChunk + layout.header ≤ a

-- What a call leaves alone: all that lies outside the heap, and the used chunks but for c with
-- the bytes in them. No bytes are held by chunk 0.
structure Spares {β : Type*} (layout : Layout) (held held' : Nat → Option Nat)
    (memory memory' : Nat → β) (c : Nat) : Prop where
  holds : ∀ d ptr bytes, d ≠ c → layout.Holds held ptr bytes d → layout.Holds held' ptr bytes d
  bytes : ∀ d ptr bytes a, d ≠ c → layout.Holds held ptr bytes d → ptr ≤ a → a < ptr + bytes →
    memory' a = memory a
  outside : ∀ a, layout.Outside a → memory' a = memory a

variable {β : Type*}

theorem Spares.trans {layout : Layout} {held held' held'' : Nat → Option Nat}
    {mem m' memory'' : Nat → β} {c : Nat} (h : Spares layout held held' mem m' c)
    (h' : Spares layout held' held'' m' memory'' c) :
    Spares layout held held'' mem memory'' c := by
  refine ⟨fun d ptr bytes hd ho => ?_, fun d ptr bytes a hd ho hlo hhi => ?_, fun a ha => ?_⟩
  · exact h'.holds d ptr bytes hd (h.holds d ptr bytes hd ho)
  · rw [h'.bytes d ptr bytes a hd (h.holds d ptr bytes hd ho) hlo hhi, h.bytes d ptr bytes a hd ho hlo hhi]
  · rw [h'.outside a ha, h.outside a ha]

namespace Represents

variable {β : Type*} {lo : Layout} {s next : ZHeap} {held h' : Nat → Option Nat}
  {ptr bytes c : Nat}

theorem settle_outside (h : Represents lo s held) {a : Nat} (ha : lo.Outside a)
    (n mem : Nat → β) : ZHeap.settle lo.cfg s next n mem a = mem a := by
  refine ZHeap.settle_of_outside ?_ next n mem
  obtain ⟨starts, h⟩ := h
  unfold Layout.Outside Layout.header at ha
  unfold ZHeap.area
  rw [h.base, h.endChunk]
  simp only [Bool.and_eq_false_iff, decide_eq_false_iff_not]
  omega

theorem spares_settle (h : Represents lo s held) (hnx : Represents lo next h')
    (hh : ∀ d, d ≠ 0 → d ≠ c → held d ≠ none → h' d = held d) (noise mem : Nat → β) :
    Spares lo held h' mem (ZHeap.settle lo.cfg s next noise mem) c := by
  have hhl : ∀ d ptr bytes, d ≠ c → lo.Holds held ptr bytes d → lo.Holds h' ptr bytes d := by
    intro d ptr bytes hd ho
    obtain ⟨n, hz, hn, -⟩ := id ho
    exact ho.of_held (hh d hz hd (by rw [hn]; exact nofun))
  refine ⟨hhl, ?_, fun a ha => h.settle_outside ha noise mem⟩
  intro d ptr bytes a hd ho hlo hhi
  exact h.settle_of_holds hnx ho (hhl d ptr bytes hd ho) noise mem hlo hhi

theorem grants_spares {good : Nat → Prop} {ret : Nat} (h : Represents lo s held)
    (hg : Grants lo held bytes good (next, ret)) (noise mem : Nat → β) :
    ∃ h', Represents lo next h' ∧ Spares lo held h' mem (ZHeap.settle lo.cfg s next noise mem) 0 ∧
      (ret = 0 ∨ ∃ c, held c = none ∧ lo.Holds h' ret bytes c ∧ good ret) := by
  cases hg with
  | Failed hn => exact ⟨held, hn, h.spares_settle hn (fun _ _ _ _ => rfl) noise mem, .inl rfl⟩
  | @Placed _ _ c n hnone hc hfits hgood hn =>
    refine ⟨_, hn, h.spares_settle hn ?_ noise mem, .inr ⟨c, hnone, ⟨n, hc, update_self .., hfits⟩, hgood⟩⟩
    intro d _ _ hd
    refine update_of_ne ?_ _ _
    rintro rfl
    exact hd hnone

theorem free_spares (h : Represents lo s held) (hh : lo.Holds held ptr bytes c) (noise mem : Nat → β) :
    Represents lo (s.sysHeapFree lo.cfg ptr) (update held c none) ∧ Spares lo held (update held c none) mem
        (ZHeap.settle lo.cfg s (s.sysHeapFree lo.cfg ptr) noise mem) c := by
  obtain ⟨n, hc, hhl, hf⟩ := hh
  have hn := h.sysHeapFree hhl hc hf
  exact ⟨hn, h.spares_settle hn (fun d _ hd _ => update_of_ne hd _ _) noise mem⟩

end Represents

-- What sys_heap_realloc can do with the bytes at ptr, in the chunk c.
inductive Resizes {β : Type*} (layout : Layout) (held : Nat → Option Nat) (memory : Nat → β)
    (ptr old bytes c : Nat) : ZHeap × (Nat → β) × Nat → Prop where
  | Failed {s : ZHeap} {memory' : Nat → β} {held' : Nat → Option Nat} : Represents layout s held' →
      Spares layout held held' memory memory' 0 →
      Resizes layout held memory ptr old bytes c (s, memory', 0)
  | Resized {s : ZHeap} {memory' : Nat → β} {held' : Nat → Option Nat} {ret c' : Nat} :
      (c' = c ∨ held c' = none) → Represents layout s held' →
      Spares layout held held' memory memory' c → layout.Holds held' ret bytes c' →
      (∀ i, i < min old bytes → memory' (ret + i) = memory (ptr + i)) →
      Resizes layout held memory ptr old bytes c (s, memory', ret)

theorem memcpy_of_outside (mem : Nat → β) {dst src n a : Nat} (h : a < dst ∨ dst + n ≤ a) :
    memcpy mem dst src n a = mem a :=
  store_of_outside mem _ h

theorem memcpy_apply (mem : Nat → β) (dst src : Nat) {n i : Nat} (h : i < n) :
    memcpy mem dst src n (dst + i) = mem (src + i) :=
  store_apply mem dst _ h

namespace Represents

variable {β : Type*} {lo : Layout} {s next : ZHeap} {held h' : Nat → Option Nat}
  {ptr old bytes c : Nat}

theorem moved_resizes (hn : Represents lo next h') (hh : lo.Holds held ptr old c) {ptr2 c' : Nat}
    {mem m' : Nat → β} (hsp : Spares lo held h' mem m' 0)
    (hnn : held c' = none) (hnew : lo.Holds h' ptr2 bytes c') (noise : Nat → β) :
    Resizes lo held mem ptr old bytes c (next.sysHeapFree lo.cfg ptr,
      ZHeap.settle lo.cfg next (next.sysHeapFree lo.cfg ptr) noise
        (memcpy m' ptr2 ptr (min (next.sysHeapUsableSize lo.cfg ptr) bytes)), ptr2) := by
  have hc : c ≠ 0 := hh.choose_spec.1
  have hne : ∀ d ptr bytes, lo.Holds held ptr bytes d → d ≠ c' := by
    rintro d ptr bytes ⟨n, -, hd, -⟩ rfl
    cases hd.symm.trans hnn
  have ho := hsp.holds c ptr old hc hh
  obtain ⟨hf, hs⟩ := hn.free_spares ho noise
    (memcpy m' ptr2 ptr (min (next.sysHeapUsableSize lo.cfg ptr) bytes))
  have hcc : c' ≠ c := Ne.symm (hne c ptr old hh)
  have hu := hn.le_usableSize ho
  have hnw := hs.holds c' ptr2 bytes hcc hnew
  refine .Resized (.inr hnn) hf ⟨?_, ?_, ?_⟩ hnw ?_
  · intro d ptr bytes hd hdh
    have hz : d ≠ 0 := hdh.choose_spec.1
    exact hs.holds d ptr bytes hd (hsp.holds d ptr bytes hz hdh)
  · intro d ptr3 bytes3 a hd hdh hlo hhi
    have hz : d ≠ 0 := hdh.choose_spec.1
    have hm := hsp.holds d ptr3 bytes3 hz hdh
    have hap := hn.holds_disjoint hm hnew (hne d ptr3 bytes3 hdh)
    rw [hs.bytes d ptr3 bytes3 a hd hm hlo hhi, memcpy_of_outside _ (by omega),
      hsp.bytes d ptr3 bytes3 a hz hdh hlo hhi]
  · intro a ha
    have hb := hnew.bounds
    rw [hs.outside a ha, memcpy_of_outside _ (by unfold Layout.Outside at ha; omega), hsp.outside a ha]
  · intro i hi
    rw [hs.bytes c' ptr2 bytes (ptr2 + i) hcc hnew (by omega) (by omega), memcpy_apply _ _ _ (by omega),
      hsp.bytes c ptr old (ptr + i) hc hh (by omega) (by omega)]

theorem reallocBytes_resizes (h : Represents lo s held) (hh : lo.Holds held ptr old c)
    (hb : bytes ≠ 0) (mem : Nat → β) (noise : Nat → Nat → β) :
    Resizes lo held mem ptr old bytes c
      (s.sysHeapReallocBytes lo.cfg mem noise ptr bytes) := by
  obtain ⟨n, hc, hhl, hf⟩ := id hh
  unfold ZHeap.sysHeapReallocBytes
  rw [if_neg hf.ne_zero, if_neg hb]
  obtain ⟨next, inplace, heq, ⟨rfl, hft, hn⟩ | ⟨rfl, rfl, -⟩⟩ :=
    h.inplaceRealloc hhl hc hf bytes rfl
  · simp only [heq, if_true]
    generalize lo.cfg.bytesToChunksz lo.endChunk bytes (ptr - lo.chunkMem c) = need at *
    have hnw : lo.Holds (update held c (some need)) ptr bytes c :=
      ⟨need, hc, update_self .., hft⟩
    refine .Resized (.inl rfl) hn
      (h.spares_settle hn (fun d _ hd _ => update_of_ne hd _ _) _ _) hnw ?_
    intro i hi
    exact h.settle_of_holds hn (hh.shorten (Nat.min_le_left old bytes))
      (hnw.shorten (Nat.min_le_right old bytes)) _ _ (by omega) (by omega)
  · simp only [heq, Bool.false_eq_true, if_false]
    have hfr := h.spares_settle h (c := 0) (fun _ _ _ _ => rfl) (noise 0) mem
    generalize ZHeap.settle lo.cfg next next (noise 0) mem = memory1 at hfr
    have hgr : Grants lo held bytes (fun _ => True)
        (next.sysHeapAlloc lo.cfg bytes) := (h.sysHeapAlloc bytes).grants fun _ _ => trivial
    generalize next.sysHeapAlloc lo.cfg bytes = result at hgr
    obtain ⟨grown, ptr2⟩ := result
    obtain ⟨h', hg, hs, hr⟩ := h.grants_spares hgr (noise 1) memory1
    have hsp : Spares lo held h' mem
        (ZHeap.settle lo.cfg next grown (noise 1) memory1) 0 := hfr.trans hs
    rcases hr with rfl | ⟨c', hnn, hnw, -⟩
    · simp only [ne_eq, not_true_eq_false, if_false]
      exact .Failed hg hsp
    · simp only [ne_eq, hnw.ptr_ne_zero, not_false_eq_true, if_true]
      exact hg.moved_resizes hh hsp hnn hnw (noise 2)

end Represents

theorem Config.chunkHeaderBytes_le_footer (cfg : Config) {chunks bytes : Nat}
    (h : chunks ≤ bytes / CHUNK_UNIT) : cfg.chunkHeaderBytes chunks ≤ cfg.heapFooterBytes bytes := by
  unfold chunkHeaderBytes heapFooterBytes bigHeapChunks
  cases cfg.sizing with
  | SmallOnly | BigOnly => simp
  | BySize =>
    by_cases hbg : chunks > 0x7fff
    · have hb : bytes / CHUNK_UNIT > 0x7fff := by omega
      simp [hbg, hb]
    · by_cases hb : bytes / CHUNK_UNIT > 0x7fff <;> simp [hbg, hb]

theorem freeListAdd_place (cfg : Config) (s : ZHeap) (c : Nat) :
    (s.freeListAdd cfg c).base = s.base ∧ (s.freeListAdd cfg c).endChunk = s.endChunk := by
  have hc : ∀ (s : ZHeap) (ok : Bool), (s.check ok).base = s.base ∧ (s.check ok).endChunk = s.endChunk := by
    intro s ok
    cases ok <;> exact ⟨rfl, rfl⟩
  unfold ZHeap.freeListAdd
  split
  · exact ⟨rfl, rfl⟩
  · unfold ZHeap.freeListAddBidx
    split
    · exact ⟨rfl, rfl⟩
    · exact hc s _

theorem sysHeapInit_area {cfg : Config} {m s : ZHeap} {mem bytes : Nat} (h : sysHeapInit cfg m mem bytes = some s) :
    mem ≤ s.base ∧ s.base + CHUNK_UNIT * s.endChunk + cfg.chunkHeaderBytes s.endChunk ≤ mem + bytes := by
  unfold sysHeapInit at h
  obtain ⟨⟨-, hf, he, -⟩, hs⟩ := Option.ite_none_right_eq_some.mp h
  cases hs
  obtain ⟨hb, hc⟩ := freeListAdd_place cfg
    (layOut m (roundUp mem CHUNK_UNIT) ((roundDown (mem + (bytes - cfg.heapFooterBytes bytes))
      CHUNK_UNIT - roundUp mem CHUNK_UNIT) / CHUNK_UNIT) _ _) _
  rw [hb, hc]
  show mem ≤ roundUp mem CHUNK_UNIT ∧ roundUp mem CHUNK_UNIT + CHUNK_UNIT * ((roundDown (mem +
    (bytes - cfg.heapFooterBytes bytes)) CHUNK_UNIT - roundUp mem CHUNK_UNIT) / CHUNK_UNIT) +
    cfg.chunkHeaderBytes ((roundDown (mem + (bytes - cfg.heapFooterBytes bytes)) CHUNK_UNIT -
      roundUp mem CHUNK_UNIT) / CHUNK_UNIT) ≤ mem + bytes
  have hup := le_roundUp mem (show 0 < CHUNK_UNIT by decide)
  have hd : roundDown (mem + (bytes - cfg.heapFooterBytes bytes)) CHUNK_UNIT ≤
      mem + (bytes - cfg.heapFooterBytes bytes) := Nat.div_mul_le_self _ _
  generalize roundUp mem CHUNK_UNIT = addr at *
  generalize roundDown _ CHUNK_UNIT = heapEnd at *
  have hh := cfg.chunkHeaderBytes_le_footer
    (show (heapEnd - addr) / CHUNK_UNIT ≤ bytes / CHUNK_UNIT from Nat.div_le_div_right (by omega))
  have hm := Nat.mul_div_le (heapEnd - addr) CHUNK_UNIT
  omega

end Gale.Heap
