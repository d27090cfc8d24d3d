/-
# The heap and the mapping arenas

Guest heap blocks and guest mappings come from different allocators over one arena.
They meet in the upper half of the heap, which the small mapping fallback takes from
the top down while the heap pointer comes from below. On A64 the heap stops at the
middle and the two never meet. On A32 the heap may use all of its arena, and nothing
compares the heap pointer with the low-water mark of the fallback.
-/

import Lunaria.Heap.Confinement
import Lunaria.Space.Resolve
import Lunaria.Lib.Run

namespace Lunaria

open Lib List

/-- The address space and the heap over its arena, with every block and every `mmap_bump` range
handed out so far. -/
structure Guest where
  space : AddressSpace
  heapPtr : Nat
  freeList : Multimap Nat Nat
  blocks : List Interval
  ranges : List Interval

/-- Allocator calls, mapping calls and guest stores, in any order. -/
inductive GuestOp
  | malloc (request : Nat)
  | memalign (align request : Nat)
  | free (va : Nat)
  | store (va : Nat) (value : UInt8)
  | mmap (raw : Bool) (env : HostEnv) (c : MmapCall)
  | mprotect (env : HostEnv) (addr len : Nat)
  | fileMap (env : HostEnv) (len fd off : Nat)

namespace Guest

variable (L : Layout) (g : Guest)

def initial : Guest := ⟨AddressSpace.initial L, heapBase, ∅, [], []⟩

def heap : Heap := ⟨g.space.mem.arena, g.heapPtr, g.freeList⟩

def setHeap (h : Heap) : Guest :=
  { g with
    space := { g.space with mem := { g.space.mem with arena := h.mem } }
    heapPtr := h.heapPtr
    freeList := h.freeList }

/-- Record a block; `0` is failure. -/
def handOut (outcome : Nat × Heap) : Guest :=
  { g.setHeap outcome.2 with
    blocks := if outcome.1 = 0 then g.blocks else handedSpan outcome :: g.blocks }

/-- The slabs a call recorded; the end is a 32-bit number, so the length is recovered modulo 4 GiB.
-/
def newRanges (before after : Arenas) : List Interval :=
  (after.slabs.drop before.slabs.length).map fun slab =>
    ⟨slab.lo, slab.lo + sub32 slab.hi slab.lo⟩

/-- Move on to an address space, recording what was taken from the arenas. -/
def moveTo (s : AddressSpace) : Guest :=
  { g with space := s, ranges := newRanges g.space.arenas s.arenas ++ g.ranges }

def step : GuestOp → Guest
  | .malloc request => g.handOut (armMalloc L g.heap request)
  | .memalign align request => g.handOut (armMemalign L g.heap align request)
  | .free va => g.setHeap (armFree g.heap va)
  | .store va value => { g with space := guestStore L g.space va value }
  | .mmap raw env c => g.moveTo (mmapHandler raw L g.space env c).2
  | .mprotect env addr len => g.moveTo (svcMprotect L g.space env addr len).2
  | .fileMap env len fd off =>
    match svcMonoFileMap L g.space env len fd off with
    | (some addr, s) => { g with space := s, ranges := ⟨addr, addr + pageRound32 len⟩ :: g.ranges }
    | (none, s) => { g with space := s }

/-- No heap block shares a byte with a mapped range. -/
def Separate : Prop := ∀ b ∈ g.blocks, ∀ r ∈ g.ranges, b.Misses r

/-! ## Steps that keep them apart -/

/-- Fresh heap memory stays below what the small mapping fallback has taken. -/
def MallocSafe (request : Nat) : Prop :=
  BumpsHeap L g.heap request →
    g.heapPtr + heapHdr + requestSize request ≤ g.space.arenas.smallMmapTop
  deriving Decidable

/-- The same for an aligned block, whose address must also be computed without wrapping
at 4 GiB. -/
def MemalignSafe (align request : Nat) : Prop :=
  if alignedBump align then
    g.heapPtr + heapHdr + align - 1 < 2 ^ 32 ∧
      (alignedPayload g.heap align + requestSize request ≤ L.heapLimit →
        alignedPayload g.heap align + requestSize request ≤ g.space.arenas.smallMmapTop)
  else MallocSafe L g request

/-- The small mapping fallback is not taken, or the heap is still in its lower half. -/
def FallbackSafe (arenas : Arenas) : Prop :=
  arenas.smallMmapTop = g.space.arenas.smallMmapTop ∨ g.heapPtr ≤ L.smallFloor
  deriving Decidable

/-- The steps that keep blocks and mappings apart. On A64 every step does; the
alignments are 32-bit values. -/
def Safe : GuestOp → Prop
  | .malloc request => L.isArm64 = false → MallocSafe L g request
  | .memalign align request => align < 2 ^ 32 ∧ (L.isArm64 = false → MemalignSafe L g align request)
  | .mmap raw env c => L.isArm64 = false → FallbackSafe L g
    (mmapHandler raw L g.space env c).2.arenas
  | .fileMap env len fd off =>
    L.isArm64 = false → FallbackSafe L g (svcMonoFileMap L g.space env len fd off).2.arenas
  | .mprotect _ _ _ => True
  | .free _ => True
  | .store _ _ => True

instance (L : Layout) (g : Guest) (align request : Nat) :
    Decidable (MemalignSafe L g align request) :=
  inferInstanceAs (Decidable (if alignedBump align then g.heapPtr + heapHdr + align - 1 < 2 ^ 32 ∧
      (alignedPayload g.heap align + requestSize request ≤ L.heapLimit →
        alignedPayload g.heap align + requestSize request ≤ g.space.arenas.smallMmapTop)
    else MallocSafe L g request))

instance (L : Layout) (g : Guest) : ∀ op, Decidable (Safe L g op)
  | .malloc request => inferInstanceAs (Decidable (L.isArm64 = false → MallocSafe L g request))
  | .memalign align request =>
    inferInstanceAs (Decidable
      (align < 2 ^ 32 ∧ (L.isArm64 = false → MemalignSafe L g align request)))
  | .mmap raw env c =>
    inferInstanceAs (Decidable
      (L.isArm64 = false → FallbackSafe L g (mmapHandler raw L g.space env c).2.arenas))
  | .fileMap env len fd off =>
    inferInstanceAs (Decidable
      (L.isArm64 = false → FallbackSafe L g (svcMonoFileMap L g.space env len fd off).2.arenas))
  | .mprotect _ _ _ => isTrue trivial
  | .free _ => isTrue trivial
  | .store _ _ => isTrue trivial

/-! ## The invariant -/

/-- Blocks lie below the heap pointer, the heap pointer below the low-water mark of the
fallback, and every mapped range outside the heap below that mark. -/
structure Apart (L : Layout) (g : Guest) : Prop where
  wellFormed : g.space.arenas.WellFormed L
  confined : Confined L g.heap
  below_mark : g.heapPtr ≤ g.space.arenas.smallMmapTop
  blocks : ∀ b ∈ g.blocks, heapBase ≤ b.lo ∧ b.hi ≤ g.heapPtr
  ranges : ∀ r ∈ g.ranges, ∀ x ∈ r.addresses, x < heapBase ∨ g.space.arenas.smallMmapTop ≤ x

theorem apart_initial : Apart L (initial L) where
  wellFormed := Arenas.wellFormed_initial L
  confined := confined_initial L _
  below_mark := by
    simp only [initial, AddressSpace.initial, Arenas.initial, Layout.heapEnd]
    omega
  blocks := by simp [initial]
  ranges := by simp [initial]

theorem Apart.separate {L : Layout} {g : Guest} (h : Apart L g) : g.Separate := by
  intro b hb r hr
  rw [Interval.misses_iff_forall]
  intro x hblo hbhi hrlo hrhi
  have hblock := h.blocks b hb
  have hmark := h.below_mark
  rcases h.ranges r hr x ⟨hrlo, hrhi⟩ with hlow | hhigh <;> omega

section Steps

variable {L : Layout} {g : Guest}

/-- On A64 a confined heap pointer is below the low-water mark of any arena state. -/
theorem ptr_le_mark_of_arm64 (harm : L.isArm64) {h : Heap} (hc : Confined L h)
    {a : Arenas} (hwf : a.WellFormed L) : h.heapPtr ≤ a.smallMmapTop := by
  have hptr := hc.ptr_le
  rw [Layout.heapLimit, if_pos harm] at hptr
  exact hptr.trans hwf.floor

theorem Apart.handOut (h : Apart L g) {outcome : Nat × Heap} (hout : HandsOut L g.heap outcome)
    (hmark : outcome.2.heapPtr ≤ g.space.arenas.smallMmapTop) : Apart L (g.handOut outcome) where
  wellFormed := h.wellFormed
  confined := hout.confined
  below_mark := hmark
  blocks b hb := by
    simp only [Guest.handOut] at hb
    have hold : ∀ b ∈ g.blocks, heapBase ≤ b.lo ∧ b.hi ≤ outcome.2.heapPtr := fun b hb =>
      ⟨(h.blocks b hb).1, (h.blocks b hb).2.trans hout.ptr_mono⟩
    split at hb
    · exact hold b hb
    · rename_i hne
      rcases mem_cons.mp hb with rfl | hb
      · exact hout.inside hne
      · exact hold b hb
  ranges := h.ranges

theorem Apart.malloc (h : Apart L g) {request : Nat}
    (hsafe : L.isArm64 = false → MallocSafe L g request) :
    Apart L (g.handOut (armMalloc L g.heap request)) := by
  obtain ⟨hout, hptr⟩ := armMalloc_handsOut h.confined request
  refine h.handOut hout ?_
  cases harm : L.isArm64 with
  | true => exact ptr_le_mark_of_arm64 harm hout.confined h.wellFormed
  | false =>
    rcases hptr with hsame | ⟨hbumps, hnew⟩
    · rw [hsame]
      exact h.below_mark
    · rw [hnew]
      exact hsafe harm hbumps

theorem alignedBump_no_wrap (harm : L.isArm64) {h : Heap} (hc : Confined L h)
    {align : Nat} (haligned : alignedBump align) (halign : align < 2 ^ 32) :
    h.heapPtr + heapHdr + align - 1 < 2 ^ 32 := by
  have hptr := hc.ptr_le
  have hsize := L.heapSize_le
  have hl := layoutConsts
  have hk := heapConsts
  have hpow : align ≤ 2 ^ 31 := by
    simp only [alignedBump, Bool.not_or, Bool.and_eq_true, Bool.not_eq_true',
      decide_eq_false_iff_not, not_not] at haligned
    exact le_of_and_pred_eq_zero halign haligned.2
  rw [Layout.heapLimit, if_pos harm] at hptr
  omega

theorem Apart.memalign (h : Apart L g) {align request : Nat} (halign : align < 2 ^ 32)
    (hsafe : L.isArm64 = false → MemalignSafe L g align request) :
    Apart L (g.handOut (armMemalign L g.heap align request)) := by
  rw [armMemalign_eq]
  split
  · rename_i haligned
    split
    · exact h.handOut (HandsOut.fail h.confined) h.below_mark
    rename_i hfits
    have hwrap : g.heap.heapPtr + heapHdr + align - 1 < 2 ^ 32 := by
      cases harm : L.isArm64 with
      | true => exact alignedBump_no_wrap harm h.confined haligned halign
      | false =>
        have hcond := hsafe harm
        rw [MemalignSafe, if_pos haligned] at hcond
        exact hcond.1
    obtain ⟨hout, hptr⟩ := alignedBump_handsOut h.confined haligned hwrap (not_lt.mp hfits)
    refine h.handOut hout ?_
    cases harm : L.isArm64 with
    | true => exact ptr_le_mark_of_arm64 harm hout.confined h.wellFormed
    | false =>
      have hcond := hsafe harm
      rw [MemalignSafe, if_pos haligned] at hcond
      rw [hptr]
      exact hcond.2 (not_lt.mp hfits)
  · rename_i haligned
    refine h.malloc fun harm => ?_
    have hcond := hsafe harm
    rw [MemalignSafe, if_neg haligned] at hcond
    exact hcond

theorem Apart.below_newMark (h : Apart L g) {a : Arenas} (hwf : a.WellFormed L)
    (hsafe : L.isArm64 = false → FallbackSafe L g a) : g.heapPtr ≤ a.smallMmapTop := by
  cases harm : L.isArm64 with
  | true => exact ptr_le_mark_of_arm64 harm h.confined hwf
  | false =>
    rcases hsafe harm with hsame | hlow
    · rw [hsame]
      exact h.below_mark
    · exact hlow.trans hwf.floor

theorem Apart.move (h : Apart L g) {s : AddressSpace} (ranges : List Interval)
    (hcons : g.space.arenas.Consumes L s.arenas)
    (hsafe : L.isArm64 = false → FallbackSafe L g s.arenas)
    (hranges : ∀ r ∈ ranges, ∀ x ∈ r.addresses, x < heapBase ∨ s.arenas.smallMmapTop ≤ x) :
    Apart L { g with space := s, ranges := ranges ++ g.ranges } where
  wellFormed := hcons.wellFormed
  confined := ⟨h.confined.base_le, h.confined.ptr_le, h.confined.entries⟩
  below_mark := h.below_newMark hcons.wellFormed hsafe
  blocks := h.blocks
  ranges r hr x hx := by
    rcases mem_append.mp hr with hnew | hold
    · exact hranges r hnew x hx
    · exact (h.ranges r hold x hx).imp_right (hcons.mark_le h.wellFormed).trans

/-- What the exact-length wrapper records is what it took. -/
theorem newRanges_exact {a : Arenas} (hwf : a.WellFormed L) (loaded : List LoadedRegion)
    (len : Nat) (allowSplit : Bool) : a.Consumes L (mmapBumpExact L loaded a len allowSplit).2 ∧
      ∀ r ∈ newRanges a (mmapBumpExact L loaded a len allowSplit).2, ∀ x ∈ r.addresses,
        x < heapBase ∨ (mmapBumpExact L loaded a len allowSplit).2.smallMmapTop ≤ x := by
  obtain ⟨taken, hspec, -, hslabs⟩ := mmapBumpExact_spec hwf loaded len allowSplit
  refine ⟨hspec.consumes, ?_⟩
  generalize mmapBumpExact L loaded a len allowSplit = outcome at hspec hslabs ⊢
  rw [RecordsSlab] at hslabs
  split at hslabs
  · simp [newRanges, hslabs]
  rename_i hne
  rcases hspec with ⟨hfail, -⟩ | ⟨htakes, hbelow, hbase, -⟩
  · exact absurd hfail hne
  have hl := layoutConsts
  have hlen : sub32 (u32 (outcome.1 + taken)) outcome.1 = taken := by
    simp only [sub32, u32]
    omega
  simp only [newRanges, hslabs, drop_left, map_cons, map_nil, mem_singleton, forall_eq, hlen]
  intro x hx
  exact htakes.outside_heap hwf hx.1 hx.2

theorem newRanges_self (a : Arenas) : newRanges a a = [] := by simp [newRanges]

/-- A mapping call that went through the exact-length wrapper or left the arenas alone. -/
theorem Apart.moveTo (h : Apart L g) {s : AddressSpace}
    (hsafe : L.isArm64 = false → FallbackSafe L g s.arenas)
    (harenas : s.arenas = g.space.arenas ∨ ∃ len allowSplit,
      s.arenas = (mmapBumpExact L g.space.loaded g.space.arenas len allowSplit).2) :
    Apart L (g.moveTo s) := by
  rcases harenas with hsame | ⟨len, allowSplit, hexact⟩
  · refine h.move _ (by rw [hsame]; exact .refl h.wellFormed) hsafe ?_
    rw [hsame, newRanges_self]
    simp
  · obtain ⟨hcons, hranges⟩ := newRanges_exact h.wellFormed g.space.loaded len allowSplit
    rw [← hexact] at hcons hranges
    exact h.move _ hcons hsafe hranges

theorem Apart.fileMap (h : Apart L g) {env : HostEnv} {len fd off : Nat}
    (hsafe : Safe L g (.fileMap env len fd off)) :
    Apart L (step L g (.fileMap env len fd off)) := by
  have hspec := mmapBump_spec h.wellFormed g.space.loaded len
  simp only [step]
  simp only [Safe] at hsafe
  -- the outcome is a refusal, or what the bump allocator took
  have hcases : ((svcMonoFileMap L g.space env len fd off).1 = none ∧
        g.space.arenas.Consumes L (svcMonoFileMap L g.space env len fd off).2.arenas) ∨
      ∃ addr, (svcMonoFileMap L g.space env len fd off).1 = some addr ∧
        g.space.arenas.Takes L (svcMonoFileMap L g.space env len fd off).2.arenas addr
          (pageRound32 len) := by
    rw [svcMonoFileMap]
    split
    · exact .inl ⟨rfl, .refl h.wellFormed⟩
    simp only
    split
    · exact .inl ⟨rfl, hspec.consumes⟩
    rename_i hne
    rcases hspec with ⟨hfail, -⟩ | ⟨htakes, -⟩
    · exact absurd hfail hne
    · refine .inr ⟨(mmapBump L g.space.loaded g.space.arenas len).1, ?_⟩
      generalize (if fd < 2 ^ 31 then env.pread fd len off else none) = file
      cases file <;> exact ⟨rfl, htakes⟩
  generalize svcMonoFileMap L g.space env len fd off = outcome at hsafe hcases ⊢
  obtain ⟨result, s⟩ := outcome
  rcases hcases with ⟨rfl, hcons⟩ | ⟨addr, rfl, htakes⟩
  · exact h.move [] hcons hsafe (by simp)
  · refine h.move [⟨addr, addr + pageRound32 len⟩] htakes.toConsumes hsafe ?_
    simp only [mem_singleton, forall_eq]
    intro x hx
    exact htakes.outside_heap h.wellFormed hx.1 hx.2

theorem Apart.step (h : Apart L g) (op : GuestOp) (hsafe : Safe L g op) :
    Apart L (Guest.step L g op) := by
  cases op with
  | malloc request => exact h.malloc hsafe
  | memalign align request => exact h.memalign hsafe.1 hsafe.2
  | free va =>
    have hconf := armFree_confined h.confined va
    have hptr : (armFree g.heap va).heapPtr = g.heapPtr := armFree_heapPtr g.heap va
    exact ⟨h.wellFormed, hconf, hptr.le.trans h.below_mark,
      fun b hb => ⟨(h.blocks b hb).1, (h.blocks b hb).2.trans hptr.ge⟩, h.ranges⟩
  | store va value =>
    obtain ⟨harenas, -⟩ := guestStore_frame L g.space va value
    exact ⟨harenas ▸ h.wellFormed, ⟨h.confined.base_le, h.confined.ptr_le, h.confined.entries⟩,
      harenas ▸ h.below_mark, h.blocks, harenas ▸ h.ranges⟩
  | mmap raw env c => exact h.moveTo hsafe (mmapHandler_arenas raw L g.space env c)
  | mprotect env addr len =>
    rcases svcMprotect_arenas_cases L g.space env addr len with hsame | ⟨harm, size, hexact⟩
    · exact h.moveTo (fun _ => .inl (congrArg _ hsame)) (.inl hsame)
    · refine h.moveTo (fun hnot => ?_) (.inr ⟨size, false, hexact⟩)
      rw [harm] at hnot
      simp at hnot
  | fileMap env len fd off => exact h.fileMap hsafe

end Steps

end Guest

/-- **Heap and mmap separation.** In every layout, along every run whose steps are safe, no block of
the heap overlaps a range of `mmap_bump`. On A64 a step only needs a 32-bit alignment. -/
theorem separate_of_run (isArm64 : Bool) (heapMb mmap2Base mmap2End : Int) (ops : List GuestOp)
    (hops : StepsMeet (Guest.Safe (guestLayoutInit isArm64 heapMb mmap2Base mmap2End))
      (Guest.step (guestLayoutInit isArm64 heapMb mmap2Base mmap2End))
      (Guest.initial (guestLayoutInit isArm64 heapMb mmap2Base mmap2End)) ops) :
    Guest.Separate (run (Guest.step (guestLayoutInit isArm64 heapMb mmap2Base mmap2End))
      (Guest.initial (guestLayoutInit isArm64 heapMb mmap2Base mmap2End)) ops) := by
  generalize guestLayoutInit isArm64 heapMb mmap2Base mmap2End = L at hops
  exact (run_invariant (fun _ op h hsafe => h.step op hsafe) (Guest.apart_initial L) hops).separate

/-- A private anonymous mapping of the given length anywhere. -/
def anywhere (len : Nat) : GuestOp :=
  .mmap false plainHost (anonymousCall 0 len)

/-- An A32 run with mappings and heap calls interleaved. -/
def mixedRun : List GuestOp :=
  [.malloc 100, anywhere 0x3000, .memalign 64 10, .free 0x50000008, anywhere 0x1000,
    .store 0x50000004 7, .malloc 24]

theorem separate_mixedRun : StepsMeet (Guest.Safe (guestLayoutInit false 256 0 0))
        (Guest.step (guestLayoutInit false 256 0 0)) (Guest.initial (guestLayoutInit false 256 0 0))
        mixedRun ∧
      Guest.Separate (run (Guest.step (guestLayoutInit false 256 0 0))
        (Guest.initial (guestLayoutInit false 256 0 0)) mixedRun) :=
  (and_iff_left_of_imp (separate_of_run false 256 0 0 mixedRun)).mpr (by decide)

/-- Both A32 arenas are used up, a page comes from the top of the heap, and the heap hands out all
of itself. -/
def exhaustingRun : List GuestOp :=
  [anywhere 0x20000000, anywhere 0x11000000, anywhere 0x20000000, anywhere 0x20000000,
    anywhere 0x20000000, anywhere 0x20000000, anywhere 0x20000000, anywhere 0x1000,
    .malloc 0x0FFFFFF8]

theorem not_separate_exhaustingRun : ¬ Guest.Separate (run (Guest.step (defaultLayout false))
      (Guest.initial (defaultLayout false)) exhaustingRun) := by
  intro h
  have hblock : (⟨0x50000000, 0x60000000⟩ : Interval) ∈ (run (Guest.step (defaultLayout false))
      (Guest.initial (defaultLayout false)) exhaustingRun).blocks := by decide
  have hrange : (⟨0x5FFF0000, 0x5FFF1000⟩ : Interval) ∈ (run (Guest.step (defaultLayout false))
      (Guest.initial (defaultLayout false)) exhaustingRun).ranges := by decide
  exact absurd (h _ hblock _ hrange) (by decide)

end Lunaria
