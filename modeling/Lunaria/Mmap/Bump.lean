/-
# The mmap arenas and their bump allocator

Guest mappings come out of two bump arenas, a primary one below the heap and a
secondary one behind it, and, once both are exhausted, out of the upper half of
the heap itself, which a small mapping may take from the top down. A bump skips
the recorded `PT_LOAD` ranges of the guest libraries.

The address ranges an arena can still hand out are its free space. Every result
about mappings rests on one fact: a bump hands out free space and takes it away.
-/

import Lunaria.Layout

namespace Lunaria

open Lib

/-- A recorded `PT_LOAD` range of a guest library, with its ELF `p_flags`. -/
structure LoadedRegion where
  lo : Nat
  hi : Nat
  flags : Nat
  deriving DecidableEq, Repr

def LoadedRegion.span (r : LoadedRegion) : Interval := ⟨r.lo, r.hi⟩

/-- The bump pointers, the low-water mark `g_small_mmap_top` of the heap fallback, and the slabs
handed out. -/
structure Arenas where
  mmapNext : Nat
  mmap2Next : Nat
  mmap2Active : Bool
  smallMmapTop : Nat
  slabs : List Interval

variable (L : Layout) (loaded : List LoadedRegion) (a : Arenas)

/-- The arenas after `guest_layout_init`. -/
def Arenas.initial : Arenas := ⟨mmapBase, 0, false, L.heapEnd, []⟩

/-- `(len + 4095u) & ~4095u` in 32 bits. -/
def pageRound32 (len : Nat) : Nat := roundDown (u32 (len + 4095)) 4096

/-- `bump_in`: at most `spins` attempts to place `len` bytes at `next`, skipping libraries. The
address or `mapFailed`, and the new pointer. -/
def bumpIn (loaded : List LoadedRegion) (len arenaEnd : Nat) : Nat → Nat → Nat × Nat
  | 0, next => (mapFailed, next)
  | spins + 1, next =>
    if arenaEnd < next + len then (mapFailed, next)
    else
      match loaded.find? fun r => next < r.hi && r.lo < next + len with
      | some r =>
        let skip := roundDown (u32 (r.hi + mmapAlign - 1)) mmapAlign
        if skip ≤ next then (mapFailed, next) else bumpIn loaded len arenaEnd spins skip
      | none =>
        let n64 := roundUp (next + len) mmapAlign
        (next, if arenaEnd ≤ n64 ∨ 0xffffffff < n64 then 0xffffffff else n64)

/-- The small mapping fallback: take `len` bytes from the top of what is left of
the upper half of the heap. -/
def smallFallback (len : Nat) : Nat × Arenas :=
  let next := roundDown (sub32 a.smallMmapTop len) mmapAlign
  if L.smallFloor ≤ next ∧ next < a.smallMmapTop then (next, { a with smallMmapTop := next })
  else (mapFailed, a)

/-- The secondary arena and, for at most 16 MiB, the heap fallback. -/
def secondaryBump (len : Nat) : Nat × Arenas :=
  let (addr, next) := bumpIn loaded len L.mmap2EndExcl 64 a.mmap2Next
  let a := { a with mmap2Next := next }
  if addr = mapFailed ∧ len ≤ 0x01000000 ∧ a.smallMmapTop ≠ 0 then smallFallback L a len
  else (addr, a)

def mmapBump (rawLen : Nat) : Nat × Arenas :=
  let len := pageRound32 rawLen
  if len = 0 ∨ mmapMaxSingle < len then (mapFailed, a)
  else
    let (addr, next) := bumpIn loaded len L.mmapEnd 64 a.mmapNext
    let a := { a with mmapNext := next }
    if addr ≠ mapFailed then (addr, a)
    else if !a.mmap2Active then
      secondaryBump L loaded { a with mmap2Active := true, mmap2Next := L.mmap2Base } len
    else if a.mmap2Next = 0 then (mapFailed, a)
    else secondaryBump L loaded a len

/-- Record a slab `[addr, addr + len)`, with its end truncated as the source does. -/
def Arenas.pushSlab (addr len : Nat) : Arenas :=
  { a with slabs := a.slabs ++ [⟨addr, u32 (addr + len)⟩] }

/-- The halving loop of `mmap_bump_exact`: at most `rounds` further attempts, each
for half of the previous length. -/
def splitBump (L : Layout) (loaded : List LoadedRegion) : Nat → Nat → Arenas → Nat × Arenas
  | 0, _, a => (mapFailed, a)
  | rounds + 1, tryLen, a =>
    if tryLen < 0x10000 then (mapFailed, a)
    else
      let half := roundDown (tryLen / 2) 4096
      if half = 0 then (mapFailed, a)
      else
        let (addr, a) := mmapBump L loaded a half
        if addr ≠ mapFailed then (addr, a.pushSlab addr half)
        else splitBump L loaded rounds half a

/-- `mmap_bump_exact`: `*out_len` is the page-rounded request, also when the halving loop produced
the result. -/
def mmapBumpExact (rawLen : Nat) (allowSplit : Bool) : Nat × Arenas :=
  let want := pageRound32 rawLen
  if want = 0 ∨ mmapMaxSingle < want then (mapFailed, a)
  else
    let (addr, a) := mmapBump L loaded a want
    if addr ≠ mapFailed then (addr, a.pushSlab addr want)
    else if !allowSplit ∨ 0x10000000 < want then (mapFailed, a)
    else splitBump L loaded 16 want a

end Lunaria
