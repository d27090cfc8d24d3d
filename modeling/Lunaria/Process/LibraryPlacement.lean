/-
# Automatic placement of libraries

A library that is not given an address is put at the next 64 KiB boundary behind everything
loaded so far. That keeps it clear of the other libraries as long as no address wraps around.
Nothing keeps it clear of the rest: placement does not look at the break, at the mappings or at
the runtime's own area, and `sbrk` does not look at the libraries. Only the mapping calls do.

The invariant says that the mark behind the libraries bounds every recorded range, and that the
ranges miss whatever else the process was given.
-/

import Lunaria.Process.ThreadSeparation

namespace Lunaria

open Lib List Bool MapRun

/-! ## The mark behind the libraries -/

/-- The mark is a 64 KiB boundary at or behind the page-aligned library ranges. -/
structure AddressSpace.Marked (s : AddressSpace) : Prop where
  aligned : s.libLoadEnd % 0x10000 = 0
  lt : s.libLoadEnd < 2 ^ 32
  below : ∀ r ∈ s.loaded, r.hi ≤ s.libLoadEnd
  paged : ∀ r ∈ s.loaded, r.lo % 4096 = 0 ∧ r.hi % 4096 = 0

/-- The segment does not wrap around when it is put at the base. -/
def Segment.Fits (base : Nat) (seg : Segment) : Prop :=
  base + seg.vaddr + seg.memsz + 0xffff < 2 ^ 32
  deriving Decidable

/-- The mark a segment asks for. -/
def Segment.mark (base : Nat) (seg : Segment) : Nat :=
  roundDown (u32 (u32 (base + seg.vaddr) + seg.memsz + 0xffff)) 0x10000

theorem loadSegment_libLoadEnd (base : Nat) (s : AddressSpace) (seg : Segment) :
    (loadSegment base s seg).libLoadEnd =
      if seg.memsz = 0 then s.libLoadEnd else max s.libLoadEnd (seg.mark base) := by
  rw [loadSegment]
  split <;> rfl

variable {base : Nat} {seg : Segment}

theorem Segment.region_of_fits (h : seg.Fits base) :
    seg.region base = ⟨roundDown (base + seg.vaddr) 4096,
      roundDown (base + seg.vaddr + seg.memsz + 0xfff) 4096, seg.flags⟩ := by
  rw [Fits] at h
  rw [region, u32_of_lt (by omega), u32_of_lt (by omega)]

theorem Segment.region_paged (base : Nat) (seg : Segment) :
    (seg.region base).lo % 4096 = 0 ∧ (seg.region base).hi % 4096 = 0 :=
  ⟨Nat.mul_mod_left .., Nat.mul_mod_left ..⟩

theorem Segment.region_hi_le_mark (h : seg.Fits base) : (seg.region base).hi ≤ seg.mark base := by
  rw [region_of_fits h]
  rw [Fits] at h
  rw [mark, u32_of_lt (show base + seg.vaddr < 2 ^ 32 by omega), u32_of_lt h]
  simp only [roundDown]
  omega

variable {s : AddressSpace}

theorem AddressSpace.Marked.loadSegment (h : s.Marked) (hfits : seg.recorded → seg.Fits base) :
    (loadSegment base s seg).Marked := by
  have hmem : ∀ r ∈ (Lunaria.loadSegment base s seg).loaded,
      r ∈ s.loaded ∨ (seg.memsz ≠ 0 ∧ seg.recorded ∧ r = seg.region base) := by
    intro r hr
    rw [loadSegment_loaded, mem_append, loadedRegions, mem_map] at hr
    rcases hr with hold | ⟨seg', hseg', rfl⟩
    · exact .inl hold
    obtain ⟨heq, hrec⟩ := mem_filter.mp hseg'
    cases mem_singleton.mp heq
    have hparts := hrec
    simp only [Segment.recorded, and_eq_true, decide_eq_true_eq] at hparts
    exact .inr ⟨hparts.1, hrec, rfl⟩
  have hmark : seg.mark base % 0x10000 = 0 ∧ seg.mark base < 2 ^ 32 := by
    have hlt := u32_lt (u32 (base + seg.vaddr) + seg.memsz + 0xffff)
    have hle := roundDown_le (u32 (u32 (base + seg.vaddr) + seg.memsz + 0xffff)) 0x10000
    exact ⟨Nat.mul_mod_left .., lt_of_le_of_lt hle hlt⟩
  have haligned := h.aligned
  have hlt := h.lt
  constructor
  case aligned =>
    rw [loadSegment_libLoadEnd]
    split
    · exact haligned
    · rcases max_choice s.libLoadEnd (seg.mark base) with hmax | hmax <;> rw [hmax]
      · exact haligned
      · exact hmark.1
  case lt =>
    rw [loadSegment_libLoadEnd]
    split
    · exact hlt
    · exact max_lt hlt hmark.2
  case below =>
    intro r hr
    rw [loadSegment_libLoadEnd]
    rcases hmem r hr with hold | ⟨hsize, hrec, rfl⟩
    · split
      · exact h.below r hold
      · exact (h.below r hold).trans (le_max_left ..)
    · rw [if_neg hsize]
      exact (Segment.region_hi_le_mark (hfits hrec)).trans (le_max_right ..)
  case paged =>
    intro r hr
    rcases hmem r hr with hold | ⟨-, -, rfl⟩
    · exact h.paged r hold
    · exact seg.region_paged base

theorem AddressSpace.Marked.loadSegments (h : s.Marked)
    {segs : List Segment} (hfits : ∀ seg ∈ segs, seg.recorded → seg.Fits base) :
    (loadSegments base s segs).Marked := by
  induction segs generalizing s with
  | nil => exact h
  | cons seg segs ih =>
    apply ih (h.loadSegment (hfits seg mem_cons_self))
    intro seg' hseg'
    exact hfits seg' (mem_cons_of_mem _ hseg')

theorem AddressSpace.Marked.le_autoBase (h : s.Marked) (L : Layout) :
    s.libLoadEnd ≤ autoBase L s ∧ autoBase L s % 4096 = 0 := by
  have haligned := h.aligned
  have hlt := h.lt
  rw [autoBase]
  split
  · rw [u32_of_lt (by omega), roundDown]
    omega
  · split <;> omega

theorem Segment.base_le_region (hbase : base % 4096 = 0)
    (h : seg.Fits base) : base ≤ (seg.region base).lo := by
  rw [region_of_fits h]
  simp only [roundDown]
  omega

/-! ## Steps that leave the libraries alone -/

/-- The recorded ranges and the mark are as before. -/
def AddressSpace.SameLibraries (s s' : AddressSpace) : Prop :=
  s'.loaded = s.loaded ∧ s'.libLoadEnd = s.libLoadEnd

section Frame

variable {L : Layout} {s s' : AddressSpace}

theorem AddressSpace.SameLibraries.marked (h : s.SameLibraries s') (hmarked : s.Marked) :
    s'.Marked := by
  obtain ⟨hloaded, hend⟩ := h
  constructor
  case aligned => exact hend ▸ hmarked.aligned
  case lt => exact hend ▸ hmarked.lt
  case below => exact hend ▸ hloaded ▸ hmarked.below
  case paged => exact hloaded ▸ hmarked.paged

variable {c : MmapCall} {env : HostEnv} {raw : Bool} {addr : Nat} {r : LoadedRegion}

theorem MmapOutcome.sameLibraries
    {result : Option Nat} (h : MmapOutcome raw L s env c result s') : s.SameLibraries s' := by
  refine ⟨h.loaded, ?_⟩
  cases h with
  | refused _ hkeep | fixed _ _ _ _ hkeep => exact hkeep.libLoadEnd
  | fixedWindow _ _ _ _ hset => exact hset.libLoadEnd
  | lazyWindow _ _ _ _ _ _ _ hset => exact hset.libLoadEnd
  | overflowWindow _ _ _ _ _ _ _ hset => exact hset.libLoadEnd
  | arenaWindow _ _ _ _ _ _ hset => exact hset.libLoadEnd
  | direct _ _ _ hkeep => exact hkeep.libLoadEnd

theorem MprotectOutcome.sameLibraries {len : Nat} {ok : Bool}
    (h : MprotectOutcome L s addr len ok s') : s.SameLibraries s' := by
  cases h <;> exact ⟨rfl, rfl⟩

theorem guestStore_sameLibraries (L : Layout) (s : AddressSpace) (va : Nat) (v : UInt8) :
    s.SameLibraries (guestStore L s va v) := by
  obtain ⟨s₁, ⟨aliases, rfl, -⟩, hstore⟩ := guestStore_spec L s va v
  rw [hstore]
  exact ⟨rfl, rfl⟩

end Frame

/-! ## Fixed mappings and libraries -/

/-- A fixed mapping starts at a page boundary and, on A64, in the image window or wholly
outside of it. -/
def FixedPlaced (L : Layout) (s : AddressSpace) (c : MmapCall) : Prop :=
  fixedCall L s c = true → c.addr % 4096 = 0 ∧ (L.isArm64 = true →
    a64IsGuestVa c.addr = true ∨ (c.rangeAt c.addr).Misses (windowSpan a64GuestBase))

instance fixedPlacedDecidable (L : Layout) (s : AddressSpace) (c : MmapCall) :
    Decidable (FixedPlaced L s c) :=
  inferInstanceAs (Decidable (_ = true → _ ∧ (_ = true → _ ∨ _)))

theorem mmapHandler_fixed_clear {L : Layout} (hfixed : fixedCall L s c)
    (haddr : (mmapHandler raw L s env c).1 = some addr) :
    guestRangeHitsLoaded s.loaded (svcArg L s c.addr) (svcArg L s c.len) = false := by
  simp only [fixedCall, and_eq_true, decide_eq_true_eq] at hfixed
  by_contra hhits
  rw [not_eq_false] at hhits
  simp only [mmapHandler, if_pos hfixed, hhits] at haddr
  cases haddr

/-- What passes the check misses the page-aligned library ranges, also after rounding. -/
theorem misses_of_not_hits {loaded : List LoadedRegion} {va n : Nat}
    (hclear : guestRangeHitsLoaded loaded va n = false) (hva : va % 4096 = 0)
    (hr : r ∈ loaded) (hpaged : r.lo % 4096 = 0) (hbelow : r.hi ≤ 2 ^ 32) :
    Interval.Misses ⟨va, va + roundUp n 4096⟩ r.span := by
  rw [Interval.misses_iff]
  simp only [LoadedRegion.span]
  by_cases hn : n = 0
  · subst hn
    simp [roundUp, roundDown]
  have hnot : ¬ (va < r.hi ∧ r.lo < min (va + n) (2 ^ 32)) := by
    intro hhit
    have hany : guestRangeHitsLoaded loaded va n := by
      simp only [guestRangeHitsLoaded, and_eq_true, decide_eq_true_eq, any_eq_true]
      exact ⟨hn, r, hr, hhit⟩
    rw [hclear] at hany
    cases hany
  simp only [roundUp, roundDown]
  omega

theorem fixed_misses_loaded {L : Layout} (hlen : c.len < 2 ^ 32) (hplaced : FixedPlaced L s c)
    (hfixed : fixedCall L s c)
    (haddr : (mmapHandler raw L s env c).1 = some addr) (hr : r ∈ s.loaded)
    (hpaged : r.lo % 4096 = 0) (hbelow : r.hi ≤ 2 ^ 32) :
    (c.rangeAt c.addr).Misses (guestSpan L r.span) := by
  obtain ⟨haligned, hwhere⟩ := hplaced hfixed
  have hclear := mmapHandler_fixed_clear hfixed haddr
  rw [svcArg_of_lt hlen] at hclear
  cases harm : L.isArm64 with
  | false =>
    have harg : svcArg L s c.addr = c.addr := by rw [svcArg, harm, if_neg Bool.false_ne_true]
    have hspan : guestSpan L r.span = r.span := by
      simp [guestSpan, guestAddr, harm]
    rw [harg] at hclear
    rw [hspan]
    exact misses_of_not_hits hclear haligned hr hpaged hbelow
  | true =>
    rcases hwhere harm with himage | houtside
    · -- an image address is an arena offset, so the check saw the same range
      have hva := himage
      simp only [a64IsGuestVa, and_eq_true, decide_eq_true_eq] at hva
      have harg : svcArg L s c.addr = c.addr - a64GuestBase := by
        simp [svcArg, harm, pack, a64CanonVa, himage]
      have hoff : c.addr = guestAddr L (c.addr - a64GuestBase) := by
        rw [guestAddr, if_pos harm, a64GuestVa, Nat.add_sub_of_le hva.1]
      have hpage : (c.addr - a64GuestBase) % 4096 = 0 := by
        have hbase : a64GuestBase = 0x700000000000 := rfl
        omega
      rw [harg] at hclear
      rw [hoff, rangeAt_guestAddr]
      exact misses_guestSpan (misses_of_not_hits hclear hpage hr hpaged hbelow)
    · exact (houtside.symm.of_within (guestSpan_within_image harm hbelow)).symm

/-! ## Placement -/

namespace Process

/-- The ranges of a library miss those of every other, the live mappings, the used break arena, the
runtime's tables and every stack. -/
structure Placed (L : Layout) (p : Process) : Prop where
  libraries : p.libraries.Pairwise fun lib lib' =>
    ∀ r ∈ lib, ∀ r' ∈ lib', r.span.Misses r'.span
  mappings : ∀ lib ∈ p.libraries, ∀ r ∈ lib, ∀ m ∈ p.map.live,
    m.range.Misses (guestSpan L r.span)
  brk : ∀ lib ∈ p.libraries, ∀ r ∈ lib, r.span.Misses ⟨brkBase, p.brk⟩
  tables : ∀ lib ∈ p.libraries, ∀ r ∈ lib, r.span.Misses L.runtimeTables
  stackSpans : ∀ lib ∈ p.libraries, ∀ r ∈ lib,
    ∀ stack ∈ L.mainStack :: (L.callbackStacks ++ p.stacksGiven), r.span.Misses stack

variable (L : Layout) (p : Process) (segs : List Segment)

/-- The segments do not wrap around, and each of them misses what placement does not look at:
the break, the runtime area and the mappings. -/
def LoadSafe : Prop :=
  ∀ seg ∈ segs, seg.recorded = true →
    seg.Fits (autoBase L p.map.space) ∧
      (seg.region (autoBase L p.map.space)).span.Misses ⟨brkBase, p.brk⟩ ∧
      (seg.region (autoBase L p.map.space)).span.Misses L.runtimeArea ∧
      ∀ m ∈ p.map.live, m.range.Misses (guestSpan L (seg.region (autoBase L p.map.space)).span)

/-- The new break does not run into a library. -/
def BrkSafe (brk : Nat) : Prop :=
  ∀ r ∈ p.map.space.loaded, r.span.Misses ⟨brkBase, brk⟩
  deriving Decidable

/-- The steps that keep the libraries clear. -/
def PlacementSafe : ProcessOp → Prop
  | .thread (.create call) =>
    p.table.Creates call → p.table.stackNext + threadStackSize ≤ L.threadLimit
  | .mmap raw env c => MapRun.Safe L p.map (.mmap raw env c) ∧ FixedPlaced L p.map.space c
  | .munmap raw addr len => MapRun.Safe L p.map (.munmap raw addr len)
  | .load segs => p.LoadSafe L segs
  | .sbrk r0 => p.BrkSafe (svcSbrk L p.brk r0).2
  | .brk r0 => p.BrkSafe (svcBrk L p.brk r0).2
  | _ => True

instance loadSafeDecidable :
    Decidable (p.LoadSafe L segs) :=
  inferInstanceAs (Decidable (∀ seg ∈ segs, _ = true → _ ∧ _ ∧ _ ∧ ∀ m ∈ p.map.live, _))

instance placementSafeDecidable : ∀ op, Decidable (p.PlacementSafe L op)
  | .thread (.create call) => inferInstanceAs (Decidable
      (p.table.Creates call → p.table.stackNext + threadStackSize ≤ L.threadLimit))
  | .mmap raw env c => inferInstanceAs
      (Decidable (MapRun.Safe L p.map (.mmap raw env c) ∧ FixedPlaced L p.map.space c))
  | .munmap raw addr len => inferInstanceAs (Decidable (MapRun.Safe L p.map (.munmap raw addr len)))
  | .load segs => inferInstanceAs (Decidable (p.LoadSafe L segs))
  | .sbrk r0 => inferInstanceAs (Decidable (p.BrkSafe (svcSbrk L p.brk r0).2))
  | .brk r0 => inferInstanceAs (Decidable (p.BrkSafe (svcBrk L p.brk r0).2))
  | .thread (.exit _) | .thread (.join _) | .thread (.endSlice _ _) | .mprotect _ _ _
  | .store _ _ => isTrue trivial

/-- What every safe step keeps. -/
structure LibrariesClear (L : Layout) (p : Process) : Prop where
  sound : p.map.Sound L
  marked : p.map.space.Marked
  recorded : ∀ lib ∈ p.libraries, ∀ r ∈ lib, r ∈ p.map.space.loaded
  libraries : p.libraries.Pairwise fun lib lib' =>
    ∀ r ∈ lib, ∀ r' ∈ lib', r.span.Misses r'.span
  live : ∀ r ∈ p.map.space.loaded, ∀ m ∈ p.map.live, m.range.Misses (guestSpan L r.span)
  brk : p.BrkSafe p.brk
  runtime : ∀ r ∈ p.map.space.loaded, r.span.Misses L.runtimeArea
  base : L.threadStackBase ≤ p.table.stackNext
  next : p.table.stackNext ≤ L.threadLimit
  stacked : ∀ stack ∈ p.stacksGiven, stack.Within ⟨L.threadStackBase, L.threadLimit⟩

variable {L : Layout} {p : Process}

theorem LibrariesClear.stacks_within (h : p.LibrariesClear L) (hL : L.StacksOrdered)
    {stack : Interval} (hstack : stack ∈ L.mainStack :: (L.callbackStacks ++ p.stacksGiven)) :
    stack.Within L.runtimeArea := by
  have hin := stack_within hL h.stacked hstack
  exact ⟨hL.tables.trans hin.1, hin.2⟩

theorem LibrariesClear.placed (h : p.LibrariesClear L) (hL : L.StacksOrdered) : p.Placed L where
  libraries := h.libraries
  mappings lib hlib r hr := h.live r (h.recorded lib hlib r hr)
  brk lib hlib r hr := h.brk r (h.recorded lib hlib r hr)
  tables lib hlib r hr := by
    have hruntime := h.runtime r (h.recorded lib hlib r hr)
    have hmain : L.stackBase ≤ L.threadLimit :=
      (Nat.le_add_right ..).trans (h.stacks_within hL mem_cons_self).2
    have hin : L.runtimeTables.Within L.runtimeArea := ⟨le_rfl, hmain⟩
    exact (hruntime.symm.of_within hin).symm
  stackSpans lib hlib r hr stack hstack := by
    have hruntime := h.runtime r (h.recorded lib hlib r hr)
    exact (hruntime.symm.of_within (h.stacks_within hL hstack)).symm

/-! ### Steps -/

theorem librariesClear_initial (isArm64 : Bool) (heapMb mmap2Base mmap2End : Int) :
    (initial (guestLayoutInit isArm64 heapMb mmap2Base mmap2End)).LibrariesClear
      (guestLayoutInit isArm64 heapMb mmap2Base mmap2End) where
  sound := sound_initial _
  marked :=
    { aligned := rfl
      lt := by simp [initial, MapRun.initial, AddressSpace.initial]
      below := by simp [initial, MapRun.initial, AddressSpace.initial]
      paged := by simp [initial, MapRun.initial, AddressSpace.initial] }
  recorded := by simp [initial]
  libraries := List.Pairwise.nil
  live := by simp [initial, MapRun.initial]
  brk := by simp [BrkSafe, initial, MapRun.initial, AddressSpace.initial]
  runtime := by simp [initial, MapRun.initial, AddressSpace.initial]
  base := le_rfl
  next := (stacksOrdered_guestLayoutInit isArm64 heapMb mmap2Base mmap2End).threads
  stacked := by simp [initial]

section

variable (h : p.LibrariesClear L)
include h

/-- A step of the mappings that leaves the libraries alone. -/
theorem LibrariesClear.of_map {op : SpaceOp} (hsafe : MapRun.Safe L p.map op)
    (hsame : p.map.space.SameLibraries (p.map.step L op).space)
    (hanswer : ∀ raw env c, op = .mmap raw env c → ∀ addr,
      (mmapHandler raw L p.map.space env c).1 = some addr → ∀ r ∈ p.map.space.loaded,
        (c.rangeAt addr).Misses (guestSpan L r.span)) :
    LibrariesClear L { p with map := p.map.step L op } := by
  have hloaded := hsame.1
  constructor
  case sound => exact h.sound.step op hsafe
  case marked => exact hsame.marked h.marked
  case recorded => exact hloaded ▸ h.recorded
  case libraries => exact h.libraries
  case live =>
    intro r hr
    rw [hloaded] at hr
    apply clear_step (h.live r hr)
    intro raw env c hop addr haddr
    exact hanswer raw env c hop addr haddr r hr
  case brk =>
    intro r hr
    rw [hloaded] at hr
    exact h.brk r hr
  case runtime => exact hloaded ▸ h.runtime
  case base => exact h.base
  case next => exact h.next
  case stacked => exact h.stacked

theorem LibrariesClear.mmap_misses (hsafe : MapRun.Safe L p.map (.mmap raw env c))
    (hplaced : FixedPlaced L p.map.space c)
    (haddr : (mmapHandler raw L p.map.space env c).1 = some addr)
    (hr : r ∈ p.map.space.loaded) : (c.rangeAt addr).Misses (guestSpan L r.span) := by
  have hbelow := h.sound.loaded_le r hr
  apply (h.sound.answered hsafe haddr).misses hbelow
  · intro hfixed
    exact fixed_misses_loaded hsafe.2.1 hplaced hfixed haddr hr (h.marked.paged r hr).1 hbelow
  · intro off _ hlibraries
    exact hlibraries r hr

theorem LibrariesClear.create {call : CreateCall}
    (hsafe : p.table.Creates call → p.table.stackNext + threadStackSize ≤ L.threadLimit) :
    (p.create L call).LibrariesClear L := by
  have hbase := h.base
  by_cases hcreates : p.table.Creates call
  · have hl := layoutConsts
    have hlimit := threadLimit_le L
    have hroom := hsafe hcreates
    have hwrap : u32 (p.table.stackNext + threadStackSize) =
        p.table.stackNext + threadStackSize := u32_of_lt (by omega)
    have hstacks : (p.create L call).stacksGiven =
        ⟨p.table.stackNext, p.table.stackNext + threadStackSize⟩ :: p.stacksGiven :=
      if_pos hcreates
    have hnext : (p.create L call).table.stackNext = p.table.stackNext + threadStackSize := by
      rw [Process.create, pthreadCreate, ThreadTable.svcPthreadCreate, if_pos hcreates]
      exact hwrap
    refine { h with
      base := hnext ▸ hbase.trans (Nat.le_add_right ..)
      next := hnext ▸ hroom
      stacked := ?_ }
    intro stack hstack
    rw [hstacks] at hstack
    rcases mem_cons.mp hstack with rfl | hold
    · exact ⟨hbase, hroom⟩
    · exact h.stacked stack hold
  · have htable : (p.create L call).table = p.table := by
      rw [Process.create, pthreadCreate, ThreadTable.svcPthreadCreate, if_neg hcreates]
    have hstacks : (p.create L call).stacksGiven = p.stacksGiven := if_neg hcreates
    exact { h with
      base := htable ▸ hbase
      next := htable ▸ h.next
      stacked := hstacks ▸ h.stacked }

theorem LibrariesClear.load {segs : List Segment}
    (hsafe : p.LoadSafe L segs) : (p.step L (.load segs)).LibrariesClear L := by
  obtain ⟨hbehind, hpage⟩ := h.marked.le_autoBase L
  simp only [step]
  generalize hb : autoBase L p.map.space = base at hbehind hpage ⊢
  have hsegs : ∀ r ∈ loadedRegions base segs, ∃ seg ∈ segs, seg.recorded ∧ r = seg.region base := by
    intro r hr
    obtain ⟨seg, hseg, rfl⟩ := mem_map.mp hr
    obtain ⟨hmem, hrec⟩ := mem_filter.mp hseg
    exact ⟨seg, hmem, hrec, rfl⟩
  have hloaded : (p.map.step L (.load base segs)).space.loaded =
      p.map.space.loaded ++ loadedRegions base segs := loadSegments_loaded base p.map.space segs
  -- a region of the list was there before, or is that of a segment
  have hregions {P : LoadedRegion → Prop} (hold : ∀ r ∈ p.map.space.loaded, P r)
      (hnew : ∀ seg ∈ segs, seg.recorded → P (seg.region base)) :
      ∀ r ∈ (p.map.step L (.load base segs)).space.loaded, P r := by
    intro r hr
    rw [hloaded, mem_append] at hr
    rcases hr with hr | hr
    · exact hold r hr
    · obtain ⟨seg, hseg, hrec, rfl⟩ := hsegs r hr
      exact hnew seg hseg hrec
  rw [LoadSafe, hb] at hsafe
  constructor
  case sound => exact h.sound.step _ trivial
  case marked =>
    apply h.marked.loadSegments
    intro seg hseg hrec
    exact (hsafe seg hseg hrec).1
  case recorded =>
    intro lib hlib r hr
    rw [hloaded, mem_append]
    rcases mem_cons.mp hlib with rfl | hold
    · exact .inr hr
    · exact .inl (h.recorded lib hold r hr)
  case libraries =>
    refine pairwise_cons.mpr ⟨?_, h.libraries⟩
    intro lib hlib r hr r' hr'
    obtain ⟨seg, hseg, hrec, rfl⟩ := hsegs r hr
    rw [Interval.misses_iff]
    right
    left
    have hold := h.marked.below r' (h.recorded lib hlib r' hr')
    exact (hold.trans hbehind).trans (Segment.base_le_region hpage (hsafe seg hseg hrec).1)
  case live => exact hregions h.live fun seg hseg hrec => (hsafe seg hseg hrec).2.2.2
  case brk => exact hregions h.brk fun seg hseg hrec => (hsafe seg hseg hrec).2.1
  case runtime => exact hregions h.runtime fun seg hseg hrec => (hsafe seg hseg hrec).2.2.1
  case base => exact h.base
  case next => exact h.next
  case stacked => exact h.stacked

theorem LibrariesClear.of_table {op : ThreadOp} (hop : ∀ call, op ≠ .create call) :
    LibrariesClear L { p with table := p.table.step L op } := by
  rcases ThreadTable.step_ids L p.table op with ⟨call, rfl, -⟩ | ⟨-, hnext⟩
  · exact absurd rfl (hop call)
  · exact { h with base := hnext ▸ h.base, next := hnext ▸ h.next }

theorem LibrariesClear.step (op : ProcessOp)
    (hsafe : p.PlacementSafe L op) : (p.step L op).LibrariesClear L := by
  cases op with
  | thread op =>
    cases op with
    | create call => exact h.create hsafe
    | exit _ | join _ | endSlice _ _ => exact h.of_table nofun
  | mmap raw env c =>
    have houtcome := mmapHandler_outcome h.sound.wellFormed raw env c
    apply h.of_map hsafe.1 houtcome.sameLibraries
    rintro _ _ _ ⟨⟩ addr haddr r hr
    exact h.mmap_misses hsafe.1 hsafe.2 haddr hr
  | munmap raw addr len =>
    cases raw with
    | true => exact h.of_map hsafe ⟨rfl, rfl⟩ nofun
    | false =>
      obtain ⟨hloaded, hend, -⟩ := svcLibcMunmap_frame L p.map.space addr len
      exact h.of_map hsafe ⟨hloaded, hend⟩ nofun
  | mprotect env addr len =>
    have houtcome := svcMprotect_outcome h.sound.wellFormed env addr len
    exact h.of_map trivial houtcome.sameLibraries nofun
  | store va value => exact h.of_map trivial (guestStore_sameLibraries L p.map.space va value) nofun
  | load segs => exact h.load hsafe
  | sbrk r0 => exact { h with brk := hsafe }
  | brk r0 => exact { h with brk := hsafe }

end

end Process

/-- **Library placement.** In both layouts, along every run of placed library loads, mapping calls,
moves of the break and thread operations whose steps are safe, the `PT_LOAD` ranges of a library
miss those of every other, the mappings, the used break arena, the runtime's tables and every stack.
-/
theorem placed_of_run (isArm64 : Bool) (heapMb mmap2Base mmap2End : Int) (ops : List ProcessOp)
    (hops : StepsMeet (Process.PlacementSafe (guestLayoutInit isArm64 heapMb mmap2Base mmap2End))
      (Process.step (guestLayoutInit isArm64 heapMb mmap2Base mmap2End))
      (Process.initial (guestLayoutInit isArm64 heapMb mmap2Base mmap2End)) ops) :
    (run (Process.step (guestLayoutInit isArm64 heapMb mmap2Base mmap2End))
      (Process.initial (guestLayoutInit isArm64 heapMb mmap2Base mmap2End)) ops).Placed
        (guestLayoutInit isArm64 heapMb mmap2Base mmap2End) := by
  have hL := stacksOrdered_guestLayoutInit isArm64 heapMb mmap2Base mmap2End
  have hstart := Process.librariesClear_initial isArm64 heapMb mmap2Base mmap2End
  exact (run_invariant (fun _ op h hop => h.step op hop) hstart hops).placed hL

/-- A 36 MiB library, a mapping, a thread, a second library, break memory given back, and a third
library in the mmap arena. -/
def stackedLibraries : List ProcessOp :=
  [.load [⟨0, 0x2000000, 5, [], true⟩, ⟨0x2000000, 0x400000, 6, [], true⟩],
    .mmap false plainHost (anonymousCall 0 0x2000), .thread (.create startCall),
    .load [⟨0x1000, 0x12345, 5, [], true⟩], .sbrk 0x1000, .sbrk 0xfffff000,
    .load [⟨0x10000000, 0x5000, 5, [], true⟩], .sbrk 0x100000]

theorem placed_stackedLibraries : StepsMeet (Process.PlacementSafe (guestLayoutInit false 256 0 0))
        (Process.step (guestLayoutInit false 256 0 0))
        (Process.initial (guestLayoutInit false 256 0 0)) stackedLibraries ∧
      (run (Process.step (guestLayoutInit false 256 0 0))
        (Process.initial (guestLayoutInit false 256 0 0)) stackedLibraries).Placed
          (guestLayoutInit false 256 0 0) :=
  (and_iff_left_of_imp (placed_of_run false 256 0 0 stackedLibraries)).mpr (by decide)

/-- One page of break memory, and then an 80 MiB library. -/
def largeLibrary : List ProcessOp := [.sbrk 0x1000, .load [⟨0, 0x5000000, 5, [], true⟩]]

theorem not_placed_largeLibrary :
    ¬ (run (Process.step (defaultLayout false)) (Process.initial (defaultLayout false))
      largeLibrary).Placed (defaultLayout false) := by
  intro h
  exact absurd h.brk (by decide)

end Lunaria
