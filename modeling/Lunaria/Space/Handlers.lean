/-
# The memory handlers of the guest

The libc and raw-syscall `mmap`, `munmap`, `mprotect`, the part of the library
loader that records and fills `PT_LOAD` ranges, and the memory callbacks of both
guests. The A64 guest enters the same handlers with its argument registers packed
to 32 bits, next to the unpacked ones. Logging and its counters are left out.
-/

import Lunaria.Space.AddressSpace

namespace Lunaria

open Lib

/-- The mmap flag bits the handlers look at. -/
def mapFixed : Nat := 4
def mapAnonymous : Nat := 5

/-- The arguments of `mmap` in the guest's registers; `pageOffset` says that `off` counts pages
(`SVC_LIBC_MMAP2`, `__NR_mmap2`). -/
structure MmapCall where
  addr : Nat
  len : Nat
  prot : Nat
  flags : Nat
  fd : Nat
  off : Nat
  pageOffset : Bool := false
  deriving DecidableEq, Repr

/-- What the host answers during a call: whether an anonymous host mapping can be
made, and the contents of the open files. -/
structure HostEnv where
  hostMmapOk : Bool
  file : Nat → Option (List UInt8)

/-- `pread`: the bytes of the file from `off` on, at most `count` of them. -/
def HostEnv.pread (env : HostEnv) (fd count off : Nat) : Option (List UInt8) :=
  (env.file fd).map fun bytes => (bytes.drop off).take count

variable (L : Layout) (loaded : List LoadedRegion) (s : AddressSpace)

def guestRangeHitsLoaded (va n : Nat) : Bool :=
  n ≠ 0 && loaded.any fun r => va < r.hi && r.lo < min (va + n) (2 ^ 32)

/-- `guest_range_hits_rx`: executable and not writable. -/
def guestRangeHitsRx (va n : Nat) : Bool :=
  n ≠ 0 && loaded.any fun r =>
    r.flags.testBit 0 && !r.flags.testBit 1 && va < r.hi && r.lo < min (va + n) (2 ^ 32)

/-- `mmap_prot_none_budget_ok`, with its unsigned 64-bit arithmetic. -/
def mmapProtNoneBudgetOk (len : Nat) : Bool :=
  let budget := ((L.mmapEnd - mmapBase) + (L.mmap2EndExcl + 2 ^ 64 - L.mmap2Base)) % 2 ^ 64
  s.protNoneBytes + len ≤ budget

/-! ## mmap -/

/-- The preferred address: the hint, or the next free slot below `slotLimit`. -/
def AddressSpace.preferred (hint slotLimit : Nat) : Nat × AddressSpace :=
  if hint ≠ 0 then (hint, s)
  else if s.mmapSlot < slotLimit then
    (s.mmapSlot * 2 ^ 40, { s with mmapSlot := s.mmapSlot + 1 })
  else (0, s)

/-- `va & ~0xfff`. -/
def pageDown (va : Nat) : Nat := roundDown va 4096

/-- `a64_record_pref_alias`; `none` is the refusal `0`. -/
def a64RecordPrefAlias (preferred backing rawLen : Nat) : Option Nat × AddressSpace :=
  let hi := hiWord preferred
  if hi = 0 ∨ 0xffff < hi then (none, s)
  else
    (some (pageDown preferred), s.setAlias hi { base := backing, size := pageRound32 rawLen })

/-- The value an address-returning handler leaves in the guest's result register.
`none` is `MAP_FAILED`. -/
def retAddr (addr : Nat) : Option Nat :=
  if L.isArm64 then some (if addr ≠ 0 then a64GuestVa addr else 0)
  else if addr = mapFailed then none
  else some addr

/-- The A64 reservation of address space without backing. -/
def reserveLazy (hint len : Nat) : Option Nat × AddressSpace :=
  let (preferred, s) := s.preferred hint 0x40
  let hi := hiWord preferred
  let size := pageRound32 len
  if preferred = 0 ∨ hi = 0 ∨ 0xffff < hi ∨ size = 0 then (none, s)
  else
    (some (pageDown preferred), { s.setAlias hi { size := size, lazy := true } with
        protNoneBytes := s.protNoneBytes + size })

/-- The A64 window on a host mapping of its own, for when the arenas are exhausted. The
host refuses to map zero bytes. -/
def overflowMmap (env : HostEnv) (hint len : Nat) : Option Nat × AddressSpace :=
  if env.hostMmapOk ∧ pageRound32 len ≠ 0 then
    let (preferred, s) := s.preferred hint 0xff
    let hi := hiWord preferred
    if preferred ≠ 0 ∧ hi ≠ 0 ∧ hi ≤ 0xffff then
      (some (pageDown preferred),
        { s.setAlias hi { size := pageRound32 len, overflowBase := some s.hostMaps } with
          hostMaps := s.hostMaps + 1 })
    else (none, s)
  else (none, s)

/-- The common end of both handlers: an A64 window for a large anonymous mapping, and the file's
bytes for a file mapping. -/
def finishMmap (env : HostEnv) (hint addr len flags fd off : Nat) : Option Nat × AddressSpace :=
  if L.isArm64 ∧ addr ≠ mapFailed ∧ 0x01000000 ≤ len ∧ flags.testBit mapAnonymous then
    let (preferred, s) := s.preferred hint 0x40
    if preferred ≠ 0 then
      match a64RecordPrefAlias s preferred addr len with
      | (some guest, s) => (some guest, s)
      | (none, s) => (retAddr L addr, s)
    else (retAddr L addr, s)
  else if fd < 2 ^ 31 ∧ !flags.testBit mapAnonymous then
    match env.pread fd len off with
    | some bytes => (retAddr L addr, { s with mem := s.mem.copyIn addr bytes })
    | none => (retAddr L addr, s)
  else (retAddr L addr, s)

/-- A slot of the anonymous inaccessible kind: a reservation of address space. -/
def isReservation (prot flags : Nat) : Bool := flags.testBit mapAnonymous && prot == 0

/-- The body of both `mmap` handlers. The raw call's budget applies to both guests, and it has no
lazy reservation and no host mapping. -/
def mmapHandler (raw : Bool) (L : Layout) (s : AddressSpace) (env : HostEnv) (c : MmapCall) :
    Option Nat × AddressSpace :=
  let r0 := svcArg L s c.addr
  let r1 := svcArg L s c.len
  let r2 := svcArg L s c.prot
  let r3 := svcArg L s c.flags
  let fd := svcArg L s c.fd
  let off := if c.pageOffset then u32 (svcArg L s c.off * 4096) else svcArg L s c.off
  if r0 ≠ 0 ∧ r3.testBit mapFixed then
    if guestRangeHitsLoaded s.loaded r0 r1 then (none, s)
    else finishMmap L s env c.addr r0 r1 r3 fd off
  else if (raw ∨ !L.isArm64) ∧ isReservation r2 r3 ∧ !mmapProtNoneBudgetOk L s r1 then (none, s)
  else if !raw ∧ L.isArm64 ∧ isReservation r2 r3 ∧ 0x01000000 ≤ r1 then
    reserveLazy s c.addr r1
  else
    let a64LargeAnon := !raw && L.isArm64 && r3.testBit mapAnonymous && 0x01000000 ≤ r1
    let (addr, arenas) := mmapBumpExact L s.loaded s.arenas r1 (!a64LargeAnon)
    let s := { s with arenas := arenas }
    if addr = mapFailed then
      if a64LargeAnon then overflowMmap s env c.addr r1 else (none, s)
    else
      let got := pageRound32 r1
      let s := if isReservation r2 r3 then { s with protNoneBytes := s.protNoneBytes + got } else s
      finishMmap L s env c.addr addr got r3 fd off

/-- `SVC_LIBC_MMAP` and `SVC_LIBC_MMAP2`. -/
def svcLibcMmap := mmapHandler false

/-- `__NR_mmap` and `__NR_mmap2` behind `SVC #0`. -/
def svcRawMmap := mmapHandler true

/-- `SVC_MONO_FILE_MAP`: arena memory filled from a file. The slab is not recorded. -/
def svcMonoFileMap (env : HostEnv) (len fd off : Nat) : Option Nat × AddressSpace :=
  if len = 0 then (none, s)
  else
    let (addr, arenas) := mmapBump L s.loaded s.arenas len
    let s := { s with arenas := arenas }
    if addr = mapFailed then (none, s)
    else
      match if fd < 2 ^ 31 then env.pread fd len off else none with
      | some bytes => (some addr, { s with mem := s.mem.copyIn addr bytes })
      | none => (some addr, s)

/-! ## munmap -/

/-- Which bump pointer may be reset: `some true` is the primary one, `some false` the secondary one.
-/
def reclaimable (a : Arenas) (r0 unmapEnd : Nat) (slab : Interval) : Option Bool :=
  if r0 < slab.lo ∨ slab.hi < r0 ∨ unmapEnd < slab.hi then none
  else
    let bumpEnd := roundUp slab.hi mmapAlign
    if mmapBase ≤ slab.lo ∧ slab.lo < L.mmapEnd ∧
        (a.mmapNext = u32 bumpEnd ∨ (L.mmapEnd ≤ bumpEnd ∧ a.mmapNext = 0xffffffff)) then
      some true
    else if L.mmap2Base ≤ slab.lo ∧
        (a.mmap2Next = u32 bumpEnd ∨ (L.mmap2EndExcl ≤ bumpEnd ∧ a.mmap2Next = 0xffffffff)) then
      some false
    else none

/-- The latest slab whose tail can be reclaimed, with its index and its pointer. -/
def findReclaim (a : Arenas) (r0 unmapEnd : Nat) : Option (Nat × Interval × Bool) :=
  (List.range a.slabs.length).reverse.findSome? fun i =>
    (a.slabs[i]?).bind fun slab =>
      (reclaimable L a r0 unmapEnd slab).map fun primary => (i, slab, primary)

/-- Reset the bump pointer to `r0` and shorten the slab. -/
def Arenas.reclaim (a : Arenas) (i : Nat) (slab : Interval) (primary : Bool) (r0 : Nat) : Arenas :=
  { a with
    mmapNext := if primary then r0 else a.mmapNext
    mmap2Next := if primary then a.mmap2Next else r0
    slabs := a.slabs.set i ⟨slab.lo, r0⟩ }

/-- The arena part of `munmap`: reclaim a tail if some slab allows it, and shorten
the windows that showed the whole slab. -/
def munmapArena (r0 r1 : Nat) : AddressSpace :=
  match findReclaim L s.arenas r0 (r0 + r1) with
  | none => s
  | some (i, slab, primary) =>
    { s with
      arenas := s.arenas.reclaim i slab primary r0
      aliases := fun k => (s.aliases k).map fun window =>
        if !window.lazy ∧ window.base = slab.lo ∧ window.size = slab.hi - slab.lo then
          { window with size := r0 - slab.lo }
        else window
      protNoneBytes := s.protNoneBytes - (slab.hi - r0) }

/-- `SVC_LIBC_MUNMAP`. A lazy A64 reservation only gives up a tail of its window. -/
def svcLibcMunmap (addr len : Nat) : AddressSpace :=
  match if L.isArm64 then s.aliases (hiWord addr) else none with
  | some window =>
    if window.lazy then
      let off := loWord addr
      if off ≤ window.size ∧ window.size ≤ (off + len) % 2 ^ 64 then
        s.setAlias (hiWord addr) { window with size := off }
      else s
    else munmapArena L s (svcArg L s addr) (svcArg L s len)
  | none => munmapArena L s (svcArg L s addr) (svcArg L s len)

/-! ## mprotect -/

/-- `SVC_MPROTECT`: on a lazy reservation, commit the page-rounded range unless one segment covers
it. -/
def svcMprotect (env : HostEnv) (addr len : Nat) : Bool × AddressSpace :=
  let hi := hiWord addr
  let off := loWord addr
  let size := pageRound32 (u32 len)
  match if L.isArm64 then s.aliases hi else none with
  | none => (true, s)
  | some window =>
    if !window.lazy ∨ size = 0 then (true, s)
    else if window.size < off + size then (false, s)
    else if window.committed.any fun seg =>
        seg.guestOff ≤ off && off + size ≤ seg.guestOff + seg.size then (true, s)
    else
      let (backing, arenas) := mmapBumpExact L s.loaded s.arenas size false
      let s := { s with arenas := arenas }
      if backing = mapFailed then
        if env.hostMmapOk then
          (true, { s.setAlias hi { window with
              committed := window.committed ++ [⟨off, backing, size, some s.hostMaps⟩] } with
            hostMaps := s.hostMaps + 1 })
        else (false, s)
      else
        (true, s.setAlias hi { window with
          committed := window.committed ++ [⟨off, backing, size, none⟩] })

/-! ## Library loading -/

/-- A program header: `PT_LOAD`, or on A32 the unwind table, which is filled but not recorded.
`data` holds the file's bytes. -/
structure Segment where
  vaddr : Nat
  memsz : Nat
  flags : Nat
  data : List UInt8
  isLoad : Bool := true

/-- The body of the segment loop of `load_elf` and `load_elf64`, behind the check for an empty
segment. -/
def mapSegment (base : Nat) (s : AddressSpace) (seg : Segment) : AddressSpace :=
  let va := u32 (base + seg.vaddr)
  let segEnd := roundDown (u32 (va + seg.memsz + 0xffff)) 0x10000
  { s with
    mem := s.mem.copyIn va seg.data
    libLoadEnd := max s.libLoadEnd segEnd
    loaded :=
      if seg.isLoad then
        s.loaded ++
          [⟨roundDown va 4096, roundDown (u32 (va + seg.memsz + 0xfff)) 4096, seg.flags⟩]
      else s.loaded }

/-- One round of the segment loop. -/
def loadSegment (base : Nat) (s : AddressSpace) (seg : Segment) : AddressSpace :=
  if seg.memsz = 0 then s else mapSegment base s seg

def loadSegments (base : Nat) (s : AddressSpace) (segs : List Segment) : AddressSpace :=
  segs.foldl (loadSegment base) s

/-! ## Memory callbacks -/

/-- `runtime_ro`: the trampolines, the JNI table and the JVM slots. -/
def runtimeRo (va n : Nat) : Bool :=
  (va < L.jniTbl64Base + jniVtableCount * 8 + 64 && L.trampBase < va + n) ||
    (va < L.envSlot64Base + 32 && L.jvmTbl64Base < va + n)

/-- The guard of every A64 store, which drops what lies in read-only code or in the runtime's
tables. -/
def writeBlocked (va n : Nat) : Bool :=
  guestRangeHitsRx s.loaded (a64CanonVa L s va) n || runtimeRo L (a64CanonVa L s va) n

/-- `p + n`. -/
def HostPtr.add : HostPtr → Nat → HostPtr
  | .arena off, n => .arena (off + n)
  | .overflow host off, n => .overflow host (off + n)

def HostMemory.readBytes (m : HostMemory) (p : HostPtr) (n : Nat) : List UInt8 :=
  (List.range n).map fun i => m.read (p.add i)

def HostMemory.writeBytes (m : HostMemory) (p : HostPtr) (bytes : List UInt8) : HostMemory :=
  match p with
  | .arena off => { m with arena := m.arena.writeBytes off bytes }
  | .overflow host off =>
    { m with overflow := fun h => if h = host then (m.overflow h).writeBytes off bytes
                                  else m.overflow h }

/-- `MemoryRead8` to `MemoryRead128`: the bytes of the value, lowest first. -/
def memoryRead (va width : Nat) : List UInt8 × AddressSpace :=
  let (p, s) := s.ptr L va
  (s.mem.readBytes p width, s)

/-- `MemoryWrite8` to `MemoryWrite128`, with the bytes of the value, lowest first. -/
def memoryWrite (va : Nat) (bytes : List UInt8) : AddressSpace :=
  if writeBlocked L s va bytes.length then s
  else
    let (p, s) := s.ptr L va
    { s with mem := s.mem.writeBytes p bytes }

/-- A one-byte guest load. The A32 callbacks read the arena at the address. -/
def guestLoad (va : Nat) : UInt8 × AddressSpace :=
  if L.isArm64 then
    let (p, s) := s.ptr L va
    (s.mem.read p, s)
  else (s.mem.arena va, s)

/-- A one-byte guest store. The A32 callbacks write the arena unguarded. -/
def guestStore (va : Nat) (v : UInt8) : AddressSpace :=
  if L.isArm64 then
    if writeBlocked L s va 1 then s
    else
      let (p, s) := s.ptr L va
      { s with mem := s.mem.write p v }
  else { s with mem := { s.mem with arena := s.mem.arena.writeByte va v } }

/-! ## Memory functions of libc -/

/-- The region loop of `guest_clamp_write_n`: a write that starts in read-only code is
dropped, one that runs into it is cut. -/
def clampAtRx (dst : Nat) : List LoadedRegion → Nat → Option Nat
  | [], n => some n
  | r :: regions, n =>
    if !r.flags.testBit 0 || r.flags.testBit 1 then clampAtRx dst regions n
    else if r.lo ≤ dst ∧ dst < r.hi then none
    else if dst < r.lo ∧ r.lo < dst + n then clampAtRx dst regions (r.lo - dst)
    else clampAtRx dst regions n

/-- `guest_clamp_write_n`: how much of a libc write is carried out. -/
def guestClampWriteN (dst n : Nat) : Nat :=
  if n = 0 then 0
  else
    let n := if 2 ^ 32 < dst + n then 2 ^ 32 - dst else n
    if n = 0 then 0
    else
      match clampAtRx dst loaded n with
      | none => 0
      | some n =>
        let n := if dst < L.trampBase ∧ L.trampBase < dst + n then L.trampBase - dst else n
        if L.trampBase ≤ dst ∧ dst < L.stackBase then 0 else n

section Clamp

variable {L loaded} {dst m n : Nat}

/-- A region does not stop the first `m` bytes of a write. -/
def LoadedRegion.Admits (dst m : Nat) (r : LoadedRegion) : Prop :=
  (!r.flags.testBit 0 || r.flags.testBit 1) ∨
    ¬ (r.lo ≤ dst ∧ dst < r.hi) ∧ (dst < r.lo → dst + m ≤ r.lo)

theorem le_clampAtRx :
    (∃ n' ∈ clampAtRx dst loaded n, m ≤ n') ↔ m ≤ n ∧ ∀ r ∈ loaded, r.Admits dst m := by
  induction loaded generalizing n with
  | nil => simp [clampAtRx]
  | cons r loaded ih =>
    rw [clampAtRx, List.forall_mem_cons, LoadedRegion.Admits]
    by_cases hskip : !r.flags.testBit 0 || r.flags.testBit 1
    · rw [if_pos hskip, ih]
      simp only [hskip, true_or, true_and]
    · rw [if_neg hskip, or_iff_right hskip]
      split
      · simp [*]
      split
      · rw [ih, ← and_assoc]
        exact and_congr_left fun _ => by omega
      · rw [ih, ← and_assoc]
        exact and_congr_left fun _ => by omega

/-- **The clamp, by what it lets through.** -/
theorem le_guestClampWriteN (hm : 0 < m) :
    m ≤ guestClampWriteN L loaded dst n ↔
      (m ≤ n ∧ dst + m ≤ 2 ^ 32) ∧ (∀ r ∈ loaded, r.Admits dst m) ∧
        ¬ (L.trampBase ≤ dst ∧ dst < L.stackBase) ∧
          (dst < L.trampBase → dst + m ≤ L.trampBase) := by
  have hcut : m ≤ (if 2 ^ 32 < dst + n then 2 ^ 32 - dst else n) ↔ m ≤ n ∧ dst + m ≤ 2 ^ 32 := by
    split <;> omega
  rw [guestClampWriteN, ← hcut, ← and_assoc]
  simp only
  generalize (if 2 ^ 32 < dst + n then 2 ^ 32 - dst else n) = cut at *
  split
  · omega
  split
  · omega
  rw [← le_clampAtRx]
  cases clampAtRx dst loaded cut with
  | none => simp [hm.ne']
  | some n' =>
    simp only [Option.mem_some_iff, exists_eq_left']
    split
    · omega
    · split <;> omega

end Clamp

/-- The bytes a libc handler reads through `ctx.mem.ptr(r)` for an argument register. -/
def svcRead (va n : Nat) : List UInt8 :=
  (List.range n).map fun i => s.mem.arena (svcArg L s va + i)

/-- `SVC_MEMCPY` and `SVC_MEMMOVE`. -/
def svcMemcpy (dst src n : Nat) : AddressSpace :=
  let r0 := svcArg L s dst
  let r1 := svcArg L s src
  let r2 := svcArg L s n
  if r2 = 0 ∨ 2 ^ 32 < r1 + r2 then s
  else
    let count := guestClampWriteN L s.loaded r0 r2
    { s with mem := { s.mem with arena := s.mem.arena.move r0 r1 count } }

def svcMemset (dst c n : Nat) : AddressSpace :=
  let r0 := svcArg L s dst
  let count := guestClampWriteN L s.loaded r0 (svcArg L s n)
  { s with mem := { s.mem with arena := s.mem.arena.fill r0 count (UInt8.ofNat (svcArg L s c)) } }

/-- The order `memcmp` reports by the sign of its result. -/
def memcmpOrder : List UInt8 → List UInt8 → Ordering
  | x :: xs, y :: ys => if x < y then .lt else if y < x then .gt else memcmpOrder xs ys
  | _, _ => .eq

/-- `SVC_MEMCMP`; a null argument compares equal. -/
def svcMemcmp (a b n : Nat) : Ordering :=
  if svcArg L s a ≠ 0 ∧ svcArg L s b ≠ 0 then
    memcmpOrder (svcRead L s a (svcArg L s n)) (svcRead L s b (svcArg L s n))
  else .eq

/-- `SVC_STRLEN`: `strnlen` with a limit of 64 KiB. -/
def svcStrlen (a : Nat) : Nat :=
  if svcArg L s a ≠ 0 then (svcRead L s a 65536).findIdx (· == 0) else 0

/-! ## Steps -/

/-- What a guest does to its address space. A raw `munmap` is accepted and ignored. -/
inductive SpaceOp
  | mmap (raw : Bool) (env : HostEnv) (c : MmapCall)
  | munmap (raw : Bool) (addr len : Nat)
  | mprotect (env : HostEnv) (addr len : Nat)
  | load (base : Nat) (segs : List Segment)
  | store (va : Nat) (value : UInt8)

def AddressSpace.step : SpaceOp → AddressSpace
  | .mmap raw env c => (mmapHandler raw L s env c).2
  | .munmap raw addr len => if raw then s else svcLibcMunmap L s addr len
  | .mprotect env addr len => (svcMprotect L s env addr len).2
  | .load base segs => loadSegments base s segs
  | .store va value => guestStore L s va value

/-- A host that grants every mapping and has no open file. -/
def plainHost : HostEnv := ⟨true, fun _ => none⟩

/-- A private anonymous mapping, readable and writable. -/
def anonymousCall (hint len : Nat) : MmapCall := ⟨hint, len, 3, 0x22, 0xffffffff, 0, false⟩

def fixedAnonymousCall (addr len : Nat) : MmapCall := ⟨addr, len, 3, 0x32, 0xffffffff, 0, false⟩

end Lunaria
