/-
# The guest heap allocator

`arm_malloc`, `arm_free`, `arm_realloc` and `arm_memalign` over the byte arena.
An allocation carries an 8-byte header in front of its payload: the payload size
and a magic word that says whether the block is live or free. Freed blocks sit in
a best-fit free list ordered by size; everything else is a bump pointer.

All addresses and sizes are `uint32_t` in the source. They are natural numbers
here, with `u32` where the source truncates. The call counters and the
diagnostics they feed are not modelled: no allocator decision reads them.
-/

import Lunaria.Layout
import Lunaria.Lib.ByteMemory
import Lunaria.Lib.Multimap

namespace Lunaria

open Lib

def heapHdr : Nat := 8
def allocMagic : Nat := 0xA110C8ED
def freeMagic : Nat := 0xF2EEB10C

theorem heapConsts : heapHdr = 8 ∧ allocMagic = 0xA110C8ED ∧ freeMagic = 0xF2EEB10C :=
  ⟨rfl, rfl, rfl⟩

/-- The allocator state: the arena bytes, `ctx.heap_ptr` and `g_free_list`, which
maps payload sizes to payload addresses. -/
structure Heap where
  mem : ByteMemory
  heapPtr : Nat
  freeList : Multimap Nat Nat

namespace Heap

/-- The state in which a context starts: nothing bumped, whatever the arena holds. -/
def initial (mem : ByteMemory) : Heap := ⟨mem, heapBase, ∅⟩

end Heap

def armAlign8 (n : Nat) : Nat := roundDown (u32 (n + 7)) 8

/-- The payload size a request is served with: at least one byte, rounded to 8. -/
def requestSize (request : Nat) : Nat := armAlign8 (if request = 0 then 1 else request)

variable (L : Layout) (h : Heap)

/-- A free-list entry whose in-memory header no longer reads back as a free block
of the recorded size. -/
def Heap.staleEntry (entry : Nat × Nat) : Bool :=
  entry.2 < heapBase + heapHdr || h.heapPtr ≤ entry.2 ||
    h.mem.read32 (entry.2 - 4) != freeMagic || h.mem.read32 (entry.2 - heapHdr) != entry.1

/-- Split a reused block when the leftover can hold a header and a minimal payload; it goes back to
the free list. -/
def Heap.splitBlock (blk va size : Nat) : Heap :=
  if u32 (size + heapHdr + 8) ≤ blk then
    let remHdr := u32 (va + size)
    let remPayload := u32 (remHdr + heapHdr)
    let remSize := blk - size - heapHdr
    { h with
      mem := ((h.mem.write32 remHdr remSize).write32 (u32 (remHdr + 4)) freeMagic).write32
        (va - heapHdr) size
      freeList := h.freeList.insert remSize remPayload }
  else h

/-- Bump a fresh block of `size` payload bytes at `payload`: header words in front
of it, and the bump pointer behind it. -/
def Heap.bumpBlock (payload size : Nat) : Heap :=
  { h with
    mem := (h.mem.write32 (sub32 payload heapHdr) size).write32 (sub32 payload 4) allocMagic
    heapPtr := u32 (payload + size) }

/-- Hand out the free block `(blk, va)`, already erased from the list. -/
def Heap.reuse (blk va size : Nat) : Nat × Heap :=
  let split := h.splitBlock blk va size
  (va, { split with mem := split.mem.write32 (va - 4) allocMagic })

/-- Hand out fresh memory behind the bump pointer, or fail. -/
def Heap.bump (size : Nat) : Nat × Heap :=
  if L.heapLimit < h.heapPtr + heapHdr + size then (0, h)
  else
    let va := u32 (h.heapPtr + heapHdr)
    let bumped := h.bumpBlock va size
    -- fresh payloads are poisoned, so that nothing relies on zeroed fields
    (va, { bumped with mem := bumped.mem.fill va size 0xFF })

/-- `arm_malloc`: best-fit reuse, discarding stale entries on the way, and a bump allocation when no
entry is usable. -/
def armMalloc (request : Nat) : Nat × Heap :=
  let size := requestSize request
  match h.freeList.reapFrom size h.staleEntry with
  | (some (blk, va), freeList) => ({ h with freeList := freeList } : Heap).reuse blk va size
  | (none, freeList) => ({ h with freeList := freeList } : Heap).bump L size

def armHeapOwns (va : Nat) : Bool :=
  heapBase + heapHdr ≤ va && va < h.heapPtr && h.mem.read32 (va - 4) == allocMagic

/-- `arm_free`: foreign, double and corrupt frees are ignored. -/
def armFree (va : Nat) : Heap :=
  if va = 0 || !armHeapOwns h va then h
  else
    let size := h.mem.read32 (va - heapHdr)
    if size = 0 || h.heapPtr < va + size then h
    else
      { h with
        mem := h.mem.write32 (va - 4) freeMagic
        freeList := h.freeList.insert size va }

def armRealloc (va newsize : Nat) : Nat × Heap :=
  if va = 0 then armMalloc L h newsize
  else if newsize = 0 then (0, armFree h va)
  else if !armHeapOwns h va then
    -- unknown origin: allocate fresh and copy the requested amount
    let (n, h') := armMalloc L h newsize
    if n = 0 then (n, h') else (n, { h' with mem := h'.mem.move n va newsize })
  else
    let oldsize := h.mem.read32 (va - heapHdr)
    if armAlign8 newsize ≤ oldsize then (va, h)
    else
      let (n, h') := armMalloc L h newsize
      if n = 0 then (n, h')
      else (n, armFree { h' with mem := h'.mem.move n va oldsize } va)

/-- `arm_memalign`: bump an aligned payload. The mask `& ~(align - 1)` is a `roundDown`, since
`align` is a power of two. -/
def armMemalign (align request : Nat) : Nat × Heap :=
  if align ≤ heapHdr || align &&& (align - 1) ≠ 0 then armMalloc L h request
  else
    let size := requestSize request
    let payload := roundDown (u32 (h.heapPtr + heapHdr + align - 1)) align
    if L.heapLimit < payload + size then (0, h)
    else (payload, h.bumpBlock payload size)

end Lunaria
