/-
# One guest process

Stacks, mappings, the break and the libraries of a guest process are placed by four
allocators that know little of each other: thread stacks are bumped towards the heap, mappings
come out of the arenas, `sbrk` moves a break between two fixed addresses, and a library is put
behind the highest library loaded so far. This module puts them into one machine, so that what
one of them hands out can be compared with everything the others did.

Next to what the program keeps, the machine records what was handed out: every thread stack
ever, the answer of every `pthread_create`, and the `PT_LOAD` ranges of each library.
-/

import Lunaria.Space.Disjoint
import Lunaria.Threads.Ids
import Lunaria.Threads.CurrentTid

namespace Lunaria

open Lib List

/-! ## Where things are placed -/

def brkBase : Nat := 0x04000000

namespace Layout

variable (L : Layout)

/-- `BRK_END`; the A64 layout ends it at its trampolines. -/
def brkEnd : Nat := if L.isArm64 then 0x0A000000 else 0x10000000

/-- `[STACK_BASE, STACK_BASE + STACK_SIZE)`. -/
def mainStack : Interval := ⟨L.stackBase, L.stackBase + L.stackSize⟩

/-- The stack of each nesting level of `call_guest_cb` and `call_guest_cb64`. -/
def callbackStacks : List Interval :=
  (List.range cbMaxDepth).map fun depth =>
    ⟨L.cbStackBase + depth * cbStackSize, L.cbStackBase + depth * cbStackSize + cbStackSize⟩

/-- Trampolines, their stubs and the JNI tables. -/
def runtimeTables : Interval := ⟨L.trampBase, L.stackBase⟩

/-- The first address behind the thread stacks that belongs to somebody else: the mmap arena
on A64, the heap on A32. -/
def threadLimit : Nat := if L.isArm64 then mmapBase else heapBase

/-- Everything from the trampolines to the end of the room for thread stacks. -/
def runtimeArea : Interval := ⟨L.trampBase, L.threadLimit⟩

/-- The order of the tables and stacks inside the runtime area, and that no mmap arena
reaches into it. -/
structure StacksOrdered (L : Layout) : Prop where
  tables : L.trampBase ≤ L.stackBase
  main : L.stackBase + L.stackSize ≤ L.cbStackBase
  callback : L.cbStackBase + cbMaxDepth * cbStackSize ≤ L.threadStackBase
  threads : L.threadStackBase ≤ L.threadLimit
  tls : L.isArm64 = true → L.trampBase ≤ libcDataA64 + 0x10000 ∧
    libcDataA64 + 0x10000 + 0xDC * 0x1000 ≤ L.stackBase ∧
      L.threadLimit ≤ L.threadStackBase + 0xDA * threadStackSize
  arenas : L.mmapEnd ≤ L.trampBase ∨ L.threadLimit ≤ mmapBase

end Layout

theorem stacksOrdered_guestLayoutInit (isArm64 : Bool) (heapMb mmap2Base mmap2End : Int) :
    (guestLayoutInit isArm64 heapMb mmap2Base mmap2End).StacksOrdered := by
  cases isArm64 with
  | false =>
    constructor <;> simp [guestLayoutInit, cbMaxDepth, cbStackSize, Layout.threadLimit, heapBase]
  | true =>
    constructor <;> simp [guestLayoutInit, cbMaxDepth, cbStackSize, Layout.threadLimit,
      mmapBase, libcDataA64, threadStackSize]

/-- The thread-local storage `arm64_tls_for_tid` hands out on first use. -/
def tlsBlock (tid : Nat) : Interval :=
  ⟨(arm64TlsForTid [] tid).2, (arm64TlsForTid [] tid).2 + 0x1000⟩

variable (base : Nat) (L : Layout) (s : AddressSpace)

/-- `SVC_PTHREAD_CREATE` with its result register: both branches end in `ret32(0)`. -/
def pthreadCreate (table : ThreadTable) (call : CreateCall) : Nat × ThreadTable :=
  (0, table.svcPthreadCreate L call)

/-- `SVC_SBRK`: the old break or `~0u`, and the new break. -/
def svcSbrk (brk r0 : Nat) : Nat × Nat :=
  if r0 = 0 then (brk, brk)
  else if r0 < 2 ^ 31 then
    if L.brkEnd < brk + r0 then (mapFailed, brk) else (brk, u32 (brk + r0))
  else
    let dec := 2 ^ 32 - r0
    (brk, if u32 (brkBase + dec) < brk then brk - dec else brkBase)

def svcBrk (brk r0 : Nat) : Nat × Nat :=
  if r0 = 0 ∨ r0 < brkBase ∨ L.brkEnd < r0 then (brk, brk) else (r0, r0)

/-- Where `arm_exec_load_library`, `arm64_exec_load_library` and the two `jni_onload`
functions put a library that is not given an address. -/
def autoBase : Nat :=
  if 0 < s.libLoadEnd then roundDown (u32 (s.libLoadEnd + 0xffff)) 0x10000
  else if L.isArm64 then 0x10000 else 0

/-- The entry of `g_loaded_regions` for a segment. -/
def Segment.region (seg : Segment) : LoadedRegion :=
  ⟨roundDown (u32 (base + seg.vaddr)) 4096,
    roundDown (u32 (u32 (base + seg.vaddr) + seg.memsz + 0xfff)) 4096, seg.flags⟩

/-- A header that gets an entry. -/
def Segment.recorded (seg : Segment) : Bool := seg.memsz ≠ 0 && seg.isLoad

def loadedRegions (segs : List Segment) : List LoadedRegion :=
  (segs.filter Segment.recorded).map (Segment.region base)

theorem loadSegment_loaded (seg : Segment) :
    (loadSegment base s seg).loaded = s.loaded ++ loadedRegions base [seg] := by
  simp only [loadSegment, mapSegment, loadedRegions, filter_cons, Segment.recorded]
  by_cases hsize : seg.memsz = 0
  · simp [hsize]
  · by_cases hload : seg.isLoad
    · simp [hsize, hload, Segment.region]
    · simp [hsize, hload]

theorem loadSegments_loaded (segs : List Segment) :
    (loadSegments base s segs).loaded = s.loaded ++ loadedRegions base segs := by
  induction segs generalizing s with
  | nil => simp [loadSegments, loadedRegions]
  | cons seg segs ih =>
    have hrest := ih (loadSegment base s seg)
    simp only [loadSegments, foldl_cons] at hrest ⊢
    rw [hrest, loadSegment_loaded, append_assoc, loadedRegions, loadedRegions,
      loadedRegions, ← map_append, ← filter_append, singleton_append]

/-! ## The machine -/

/-- A guest process: its threads, its mappings, its break, and what was handed out. -/
structure Process where
  table : ThreadTable
  map : MapRun
  brk : Nat
  stacksGiven : List Interval
  answers : List (Nat × Bool)
  libraries : List (List LoadedRegion)

/-- A call of the guest. The arguments of `mmap` are those its handler reads: on A64 a scheduler
pass in front of it may have put a worker's into `g_svc_args64`. -/
inductive ProcessOp
  | thread (op : ThreadOp)
  | mmap (raw : Bool) (env : HostEnv) (c : MmapCall)
  | munmap (raw : Bool) (addr len : Nat)
  | mprotect (env : HostEnv) (addr len : Nat)
  | store (va : Nat) (value : UInt8)
  | load (segs : List Segment)
  | sbrk (r0 : Nat)
  | brk (r0 : Nat)

namespace Process

/-- The process when its context has been initialised. -/
def initial (L : Layout) : Process :=
  ⟨ThreadTable.initial L, MapRun.initial L, brkBase, [], [], []⟩

/-- `pthread_create`: the new stack, the result register, and whether a record was appended. -/
def create (L : Layout) (p : Process) (call : CreateCall) : Process :=
  let outcome := pthreadCreate L p.table call
  { p with
    table := outcome.2
    stacksGiven :=
      if p.table.Creates call then
        ⟨p.table.stackNext, p.table.stackNext + threadStackSize⟩ :: p.stacksGiven
      else p.stacksGiven
    answers := (outcome.1, decide (p.table.Creates call)) :: p.answers }

def step (L : Layout) (p : Process) : ProcessOp → Process
  | .thread (.create call) => p.create L call
  | .thread op => { p with table := p.table.step L op }
  | .mmap raw env c => { p with map := p.map.step L (.mmap raw env c) }
  | .munmap raw addr len => { p with map := p.map.step L (.munmap raw addr len) }
  | .mprotect env addr len => { p with map := p.map.step L (.mprotect env addr len) }
  | .store va value => { p with map := p.map.step L (.store va value) }
  | .load segs =>
    { p with
      map := p.map.step L (.load (autoBase L p.map.space) segs)
      libraries := loadedRegions (autoBase L p.map.space) segs :: p.libraries }
  | .sbrk r0 => { p with brk := (svcSbrk L p.brk r0).2 }
  | .brk r0 => { p with brk := (svcBrk L p.brk r0).2 }

end Process

end Lunaria
