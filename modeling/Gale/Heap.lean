import Gale.Kernel

namespace Gale.Heap

open Function

-- From ffi/src/lib.rs.

inductive AllocAction where
  | UseWhole
  | SplitAndUse
  | AllocFailed

def galeSysHeapAllocDecide (foundChunk : Bool) (foundChunkSz neededChunkSz : Nat) : AllocAction :=
  if foundChunk = false then .AllocFailed
  else if neededChunkSz = 0 then .AllocFailed
  else if foundChunkSz < neededChunkSz then .AllocFailed
  else if foundChunkSz > neededChunkSz then .SplitAndUse
  else .UseWhole

inductive FreeAction where
  | FreeAndCoalesce
  | FreeRejected

def galeSysHeapFreeDecide (chunkIsUsed boundsCheckPassed : Bool) : FreeAction :=
  if chunkIsUsed = false then .FreeRejected
  else if boundsCheckPassed = false then .FreeRejected
  else .FreeAndCoalesce

inductive ReallocAction where
  | Shrink
  | Grow
  | Copy
  | Reject

def galeSysHeapReallocDecide (currentChunkSz neededChunkSz : Nat) (rightNeighborFree : Bool)
    (rightNeighborSz : Nat) : ReallocAction :=
  if neededChunkSz = 0 then .Reject
  else if currentChunkSz ≥ neededChunkSz then .Shrink
  else if rightNeighborFree ∧ currentChunkSz + rightNeighborSz ≥ neededChunkSz ∧
      currentChunkSz + rightNeighborSz ≤ 2 ^ 32 - 1 then .Grow
  else .Copy

def galeSysHeapInitValidate (totalBytes minOverhead : Nat) : Int :=
  if totalBytes = 0 ∨ minOverhead = 0 ∨ minOverhead ≥ totalBytes then EINVAL else OK

def galeSysHeapSplitValidate (originalSz leftSz : Nat) : Nat :=
  if leftSz = 0 ∨ leftSz ≥ originalSz then 0 else originalSz - leftSz

-- The build: which header a heap has, and the sizes of its structures. Pointers
-- wider than four bytes are BigOnly.
inductive Sizing where
  | SmallOnly
  | BigOnly
  | BySize
  deriving DecidableEq, Repr

structure Config where
  sizing : Sizing
  canaries : Bool
  sizeofZHeap : Nat
  sizeofBucket : Nat
  allocLoops : Nat
  hardening : Nat

-- struct z_heap at the address base, with the header fields of the chunks by chunk
-- id and avail_buckets by bit. A failed assertion or hardening check is remembered.
structure ZHeap where
  base : Nat
  endChunk : Nat
  availBuckets : Nat → Bool
  buckets : Nat → Nat
  leftSize : Nat → Nat
  size : Nat → Nat
  used : Nat → Bool
  prevFree : Nat → Nat
  nextFree : Nat → Nat
  failed : Bool

-- What gale_heap.c uses of Zephyr's heap.h.

def CHUNK_UNIT : Nat := 8

namespace Config

def bigHeapChunks (cfg : Config) (chunks : Nat) : Bool :=
  match cfg.sizing with
  | .SmallOnly => false
  | .BigOnly => true
  | .BySize => chunks > 0x7fff

def heapFooterBytes (cfg : Config) (bytes : Nat) : Nat :=
  if cfg.bigHeapChunks (bytes / CHUNK_UNIT) then 8 else 4

-- CHUNK_TRAILER_SIZE
def chunkTrailerSize (cfg : Config) : Nat := if cfg.canaries then 1 else 0

def chunkHeaderBytes (cfg : Config) (endChunk : Nat) : Nat :=
  if cfg.bigHeapChunks endChunk then 8 else 4

def bytesToChunksz (cfg : Config) (endChunk bytes extra : Nat) : Nat :=
  let chunks := bytes / CHUNK_UNIT + extra / CHUNK_UNIT + cfg.chunkTrailerSize
  let oddments := (bytes % CHUNK_UNIT + extra % CHUNK_UNIT + cfg.chunkHeaderBytes endChunk +
    CHUNK_UNIT - 1) / CHUNK_UNIT
  min (chunks + oddments) endChunk

def minChunkSize (cfg : Config) (endChunk : Nat) : Nat := cfg.bytesToChunksz endChunk 1 0

def bucketIdx (cfg : Config) (endChunk sz : Nat) : Nat :=
  (sz - cfg.minChunkSize endChunk + 1).log2

-- nb_buckets of sys_heap_init
def nbBuckets (cfg : Config) (endChunk : Nat) : Nat := cfg.bucketIdx endChunk endChunk + 1

end Config

def chunksz (bytes : Nat) : Nat := (bytes + CHUNK_UNIT - 1) / CHUNK_UNIT

def roundUp (x align : Nat) : Nat := (x + (align - 1)) / align * align

def roundDown (x align : Nat) : Nat := x / align * align

-- align & -align; the bits above the highest of align do not matter.
def lowestBit (align : Nat) : Nat := align &&& (2 ^ (align.log2 + 1) - align)

namespace ZHeap

def rightChunk (s : ZHeap) (c : Nat) : Nat := c + s.size c

def leftChunk (s : ZHeap) (c : Nat) : Nat := c - s.leftSize c

-- The size and the used bit are one field: writing the size clears the bit.
def setChunkSize (s : ZHeap) (c size : Nat) : ZHeap :=
  { s with
    size := update s.size c size
    used := update s.used c false }

def setChunkUsed (s : ZHeap) (c : Nat) (used : Bool) : ZHeap :=
  { s with used := update s.used c used }

def setLeftChunkSize (s : ZHeap) (c size : Nat) : ZHeap :=
  { s with leftSize := update s.leftSize c size }

def setNextFreeChunk (s : ZHeap) (c next : Nat) : ZHeap :=
  { s with nextFree := update s.nextFree c next }

def setPrevFreeChunk (s : ZHeap) (c prev : Nat) : ZHeap :=
  { s with prevFree := update s.prevFree c prev }

def check (s : ZHeap) (ok : Bool) : ZHeap := if ok then s else { s with failed := true }

variable (cfg : Config)

def undersizedChunk (s : ZHeap) (c : Nat) : Bool := s.size c < cfg.minChunkSize s.endChunk

-- From zephyr/gale_heap.c.

def chunkMem (s : ZHeap) (c : Nat) : Nat :=
  s.base + CHUNK_UNIT * c + cfg.chunkHeaderBytes s.endChunk

def memToChunkid (s : ZHeap) (mem : Nat) : Nat :=
  (mem - cfg.chunkHeaderBytes s.endChunk - s.base) / CHUNK_UNIT

def freeListRemoveBidx (s : ZHeap) (c bidx : Nat) : ZHeap :=
  if s.nextFree c = c then
    { s with
      availBuckets := update s.availBuckets bidx false
      buckets := update s.buckets bidx 0 }
  else
    let first := s.prevFree c
    let second := s.nextFree c
    let s := s.check (cfg.hardening < 2 || (s.nextFree first = c && s.prevFree second = c))
    let s := { s with buckets := update s.buckets bidx second }
    (s.setNextFreeChunk first second).setPrevFreeChunk second first

def freeListRemove (s : ZHeap) (c : Nat) : ZHeap :=
  if s.undersizedChunk cfg c then s
  else s.freeListRemoveBidx cfg c (cfg.bucketIdx s.endChunk (s.size c))

def freeListAddBidx (s : ZHeap) (c bidx : Nat) : ZHeap :=
  if s.buckets bidx = 0 then
    let s := { s with
      availBuckets := update s.availBuckets bidx true
      buckets := update s.buckets bidx c }
    (s.setPrevFreeChunk c c).setNextFreeChunk c c
  else
    let second := s.buckets bidx
    let first := s.prevFree second
    let s := s.check (cfg.hardening < 2 || s.nextFree first = second)
    (((s.setPrevFreeChunk c first).setNextFreeChunk c second).setNextFreeChunk first
      c).setPrevFreeChunk second c

def freeListAdd (s : ZHeap) (c : Nat) : ZHeap :=
  if s.undersizedChunk cfg c then s
  else s.freeListAddBidx cfg c (cfg.bucketIdx s.endChunk (s.size c))

def freeChunkCheck (s : ZHeap) (c : Nat) : ZHeap :=
  s.check (cfg.hardening < 2 ||
    (!s.used c && s.leftChunk (s.rightChunk c) = c && s.rightChunk (s.leftChunk c) = c))

def splitChunks (s : ZHeap) (lc rc : Nat) : ZHeap :=
  let sz0 := s.size lc
  let lsz := rc - lc
  let rsz := sz0 - lsz
  let s := s.check (galeSysHeapSplitValidate sz0 lsz = rsz)
  let s := (s.setChunkSize lc lsz).setChunkSize rc rsz
  (s.setLeftChunkSize rc lsz).setLeftChunkSize (s.rightChunk rc) rsz

def mergeChunks (s : ZHeap) (lc rc : Nat) : ZHeap :=
  let newsz := s.size lc + s.size rc
  let s := s.setChunkSize lc newsz
  s.setLeftChunkSize (s.rightChunk rc) newsz

def freeChunk (s : ZHeap) (c : Nat) : ZHeap :=
  let rc := s.rightChunk c
  let s := if s.used rc then s
    else ((s.freeChunkCheck cfg rc).freeListRemove cfg rc).mergeChunks c rc
  let lc := s.leftChunk c
  if s.used lc then s.freeListAdd cfg c
  else (((s.freeChunkCheck cfg lc).freeListRemove cfg lc).mergeChunks lc c).freeListAdd cfg lc

-- The checks of the chunk that sys_heap_free and inplace_realloc begin with.
def usedChunkCheck (s : ZHeap) (c : Nat) : ZHeap :=
  let s := s.check (cfg.hardening < 1 || s.used c)
  let s := s.check (cfg.hardening < 1 || s.leftChunk (s.rightChunk c) = c)
  s.check (cfg.hardening < 2 || s.rightChunk (s.leftChunk c) = c)

def sysHeapFree (s : ZHeap) (mem : Nat) : ZHeap :=
  if mem = 0 then s
  else
    let c := s.memToChunkid cfg mem
    let s := s.usedChunkCheck cfg c
    match galeSysHeapFreeDecide (s.used c) (s.leftChunk (s.rightChunk c) = c) with
    | .FreeRejected => s.check false
    | .FreeAndCoalesce => (s.setChunkUsed c false).freeChunk cfg c

-- The loop over the bucket bi, from its head on: the chunk taken out of it, if one
-- of those looked at is large enough.
def allocLoop (sz bi first : Nat) : Nat → ZHeap → ZHeap × Option Nat
  | 0, s => (s, none)
  | i + 1, s =>
    let c := s.buckets bi
    if s.size c ≥ sz then ((s.freeChunkCheck cfg c).freeListRemoveBidx cfg c bi, some c)
    else
      let s := { s with buckets := update s.buckets bi (s.nextFree c) }
      if i ≠ 0 ∧ s.buckets bi ≠ first then allocLoop sz bi first i s else (s, none)

def minBucket (s : ZHeap) (bi : Nat) : Option Nat :=
  (List.range 32).find? fun i => decide (bi < i) && s.availBuckets i

def allocChunk (s : ZHeap) (sz : Nat) : ZHeap × Nat :=
  let bi := cfg.bucketIdx s.endChunk sz
  let (s, found) :=
    -- from zero on the counter only falls: the loop ends at the first chunk again
    if s.buckets bi ≠ 0 then
      allocLoop cfg sz bi (s.buckets bi)
        (if cfg.allocLoops = 0 then s.endChunk else cfg.allocLoops) s
    else (s, none)
  match found with
  | some c => (s, c)
  | none =>
    match s.minBucket bi with
    | some minbucket =>
      let c := s.buckets minbucket
      ((s.freeChunkCheck cfg c).freeListRemoveBidx cfg c minbucket, c)
    | none => (s, 0)

def sysHeapAlloc (s : ZHeap) (bytes : Nat) : ZHeap × Nat :=
  if bytes = 0 then (s, 0)
  else
    let chunkSz := cfg.bytesToChunksz s.endChunk bytes 0
    let (s, c) := s.allocChunk cfg chunkSz
    match galeSysHeapAllocDecide (c ≠ 0) (if c ≠ 0 then s.size c else 0) chunkSz with
    | .AllocFailed => (s, 0)
    | .SplitAndUse =>
      let s := (s.splitChunks c (c + chunkSz)).freeListAdd cfg (c + chunkSz)
      (s.setChunkUsed c true, s.chunkMem cfg c)
    | .UseWhole => (s.setChunkUsed c true, s.chunkMem cfg c)

-- From the assertion on align on, with align, gap and rew as they are there.
def alignedAlloc (s : ZHeap) (align gap rew bytes : Nat) : ZHeap × Nat :=
  let s := s.check (align &&& (align - 1) = 0)
  if bytes = 0 then (s, 0)
  else
    let paddedSz := cfg.bytesToChunksz s.endChunk bytes (align - gap)
    let (s, c0) := s.allocChunk cfg paddedSz
    if c0 = 0 then (s, 0)
    else
      let mem := roundUp (s.chunkMem cfg c0 + rew) align - rew
      let endMem := roundUp (mem + bytes) CHUNK_UNIT
      let c := s.memToChunkid cfg mem
      let cEnd := (endMem - s.base) / CHUNK_UNIT + cfg.chunkTrailerSize
      let s := if c > c0 then (s.splitChunks c0 c).freeListAdd cfg c0 else s
      let s := if s.rightChunk c > cEnd then (s.splitChunks c cEnd).freeListAdd cfg cEnd else s
      (s.setChunkUsed c true, mem)

def sysHeapAlignedAlloc (s : ZHeap) (align bytes : Nat) : ZHeap × Nat :=
  let rew := lowestBit align
  if align ≠ rew then
    s.alignedAlloc cfg (align - rew) (min rew (cfg.chunkHeaderBytes s.endChunk)) rew bytes
  else if align ≤ cfg.chunkHeaderBytes s.endChunk then s.sysHeapAlloc cfg bytes
  else s.alignedAlloc cfg align (cfg.chunkHeaderBytes s.endChunk) 0 bytes

def inplaceRealloc (s : ZHeap) (ptr bytes : Nat) : ZHeap × Bool :=
  let c := s.memToChunkid cfg ptr
  let alignGap := ptr - s.chunkMem cfg c
  let chunksNeed := cfg.bytesToChunksz s.endChunk bytes alignGap
  let s := s.usedChunkCheck cfg c
  let rc := s.rightChunk c
  let rf := !s.used rc
  let rsz := if rf then s.size rc else 0
  match galeSysHeapReallocDecide (s.size c) chunksNeed rf rsz with
  | .Shrink =>
    if s.size c = chunksNeed then (s, true)
    else
      let s := (s.splitChunks c (c + chunksNeed)).setChunkUsed c true
      (s.freeChunk cfg (c + chunksNeed), true)
  | .Grow =>
    let splitSize := chunksNeed - s.size c
    let s := (s.freeChunkCheck cfg rc).freeListRemove cfg rc
    let s := if splitSize < s.size rc then
        (s.splitChunks rc (rc + splitSize)).freeListAdd cfg (rc + splitSize)
      else s
    ((s.mergeChunks c rc).setChunkUsed c true, true)
  | .Copy => (s, false)
  | .Reject => (s, false)

-- The bytes copied are left out.
def sysHeapRealloc (s : ZHeap) (ptr bytes : Nat) : ZHeap × Nat :=
  if ptr = 0 then s.sysHeapAlloc cfg bytes
  else if bytes = 0 then (s.sysHeapFree cfg ptr, 0)
  else
    let (s, inplace) := s.inplaceRealloc cfg ptr bytes
    if inplace then (s, ptr)
    else
      let (s, ptr2) := s.sysHeapAlloc cfg bytes
      if ptr2 ≠ 0 then (s.sysHeapFree cfg ptr, ptr2) else (s, ptr2)

-- How often that calls sys_heap_free on ptr.
def reallocFrees (s : ZHeap) (ptr bytes : Nat) : Nat :=
  if ptr = 0 then 0
  else if bytes = 0 then 1
  else
    let (s, inplace) := s.inplaceRealloc cfg ptr bytes
    if inplace then 0 else if (s.sysHeapAlloc cfg bytes).2 ≠ 0 then 1 else 0

end ZHeap

-- What sys_heap_init writes before its last line. The memory holds anything before.
def layOut (memory : ZHeap) (addr heapSz nbBuckets chunk0Size : Nat) : ZHeap :=
  let s : ZHeap :=
    { memory with
      base := addr
      endChunk := heapSz
      availBuckets := fun _ => false
      buckets := fun i => if i < nbBuckets then 0 else memory.buckets i
      failed := false }
  let s := ((s.setChunkSize 0 chunk0Size).setLeftChunkSize 0 0).setChunkUsed 0 true
  let s := (s.setChunkSize chunk0Size (heapSz - chunk0Size)).setLeftChunkSize chunk0Size chunk0Size
  ((s.setChunkSize heapSz 0).setLeftChunkSize heapSz (heapSz - chunk0Size)).setChunkUsed heapSz true

-- none is a failed assertion, or the failed check that the memory has an end.
def sysHeapInit (cfg : Config) (memory : ZHeap) (mem bytes : Nat) : Option ZHeap :=
  let limit := if cfg.sizing = .SmallOnly then 0x7fff else 0x7fffffff
  let footer := cfg.heapFooterBytes bytes
  let addr := roundUp mem CHUNK_UNIT
  let heapEnd := roundDown (mem + (bytes - footer)) CHUNK_UNIT
  let heapSz := (heapEnd - addr) / CHUNK_UNIT
  let nbBuckets := cfg.nbBuckets heapSz
  let chunk0Size := chunksz (cfg.sizeofZHeap + nbBuckets * cfg.sizeofBucket) + cfg.chunkTrailerSize
  if bytes / CHUNK_UNIT ≤ limit ∧ bytes > footer ∧ heapEnd > addr ∧
      heapSz > chunksz cfg.sizeofZHeap ∧ chunk0Size + cfg.minChunkSize heapSz ≤ heapSz ∧
      galeSysHeapInitValidate (heapSz * CHUNK_UNIT % 2 ^ 32) (chunk0Size * CHUNK_UNIT % 2 ^ 32) = OK
  then some ((layOut memory addr heapSz nbBuckets chunk0Size).freeListAdd cfg chunk0Size)
  else none

end Gale.Heap
