/-
# The service pages of the A64 layout

The runtime keeps code and data of its own at fixed guest addresses. The A64 layout moves the
trampolines, the tables and the stacks below the mmap arenas and lets the primary arena grow to
the heap. Three of the fixed addresses do not move with them: the `pthread_once` stub, the page
of data symbols and the audio buffer stay where the A32 layout has its tables, and that is
inside the larger arena.

A mapping is placed at the bump pointer or right behind a library. As long as no block of the
requested length at one of these places covers a service page, no range that `mmap_bump`
returns does, whatever else the guest maps, unmaps and loads.
-/

import Lunaria.Elf.Linker
import Lunaria.Space.HeapSeparation

namespace Lunaria

open Lib List

/-! ## The pages -/

/-- The page of the `SL_IID_*`, `tzname` and `stdio` symbols. -/
def dataSymbolPage : Interval := ⟨0x41014000, 0x41015000⟩

/-- `AAUDIO_BUF_BASE` and `AAUDIO_BUF_SIZE`. -/
def aaudioBuf : Interval := ⟨0x47800000, 0x47810000⟩

/-- The nine words of the A64 `pthread_once`. -/
def onceStubSpan : Interval := ⟨Elf.pthreadOnceStub, Elf.pthreadOnceStub + 36⟩

variable (L : Layout)

/-- What the runtime places in guest memory: the three blocks above, the trampolines, the JNI tables
and slots, and the sentinel. -/
def servicePages : List Interval :=
  [onceStubSpan, dataSymbolPage, aaudioBuf, ⟨L.trampBase, L.jniTbl64Base⟩,
    ⟨L.jniTbl64Base, L.jniTbl64Base + jniVtableCount * 8 + 64⟩,
    ⟨L.jvmTbl64Base, L.jvmTbl64Base + 64⟩, ⟨L.envSlot64Base, L.envSlot64Base + 32⟩,
    ⟨L.sentinelAddr, L.sentinelAddr + 0x1000⟩]

/-- The range shares no byte with a service page. -/
def ServiceFree (range : Interval) : Prop := ∀ page ∈ servicePages L, range.Misses page
  deriving Decidable

def PagesBelowHeap : Prop := ∀ page ∈ servicePages L, page.hi ≤ heapBase

theorem pagesBelowHeap_arm64 (heapMb mmap2Base mmap2End : Int) :
    PagesBelowHeap (guestLayoutInit true heapMb mmap2Base mmap2End) := by
  simp [PagesBelowHeap, servicePages, guestLayoutInit, onceStubSpan, dataSymbolPage, aaudioBuf,
    Elf.pthreadOnceStub, jniVtableCount, heapBase]

theorem PagesBelowHeap.serviceFree {L : Layout} (hpages : PagesBelowHeap L) {addr : Nat}
    (h : heapBase ≤ addr) (len : Nat) : ServiceFree L ⟨addr, addr + len⟩ := by
  intro page hpage
  have hapart : (⟨addr, addr + len⟩ : Interval).Apart page := .inr ((hpages page hpage).trans h)
  exact hapart.misses

/-! ## Where a block can be placed -/

/-- The first address behind a library at which a mapping is tried. -/
def LoadedRegion.skip (r : LoadedRegion) : Nat := roundDown (u32 (r.hi + mmapAlign - 1)) mmapAlign

/-- Where a block can start: at the bump pointer, or behind a library. -/
def blockStarts (loaded : List LoadedRegion) (next : Nat) : List Nat :=
  next :: (loaded.map LoadedRegion.skip).filter fun start => decide (next < start)

variable {loaded : List LoadedRegion}

theorem mem_blockStarts {next start : Nat} : start ∈ blockStarts loaded next ↔
      start = next ∨ (∃ r ∈ loaded, r.skip = start) ∧ next < start := by
  simp [blockStarts]

/-- The test of `bump_in`: the library meets the block. -/
def LoadedRegion.Blocks (r : LoadedRegion) (start len : Nat) : Prop :=
  start < r.hi ∧ r.lo < start + len
  deriving Decidable

/-- The first of these places at which no library meets a block of this length. -/
structure FirstFit (loaded : List LoadedRegion) (next len start : Nat) : Prop where
  place : start ∈ blockStarts loaded next
  clear : ∀ r ∈ loaded, ¬ r.Blocks start len
  first : ∀ earlier ∈ blockStarts loaded next, earlier < start → ∃ r ∈ loaded, r.Blocks earlier len

instance firstFitDecidable (loaded : List LoadedRegion) (next len start : Nat) :
    Decidable (FirstFit loaded next len start) :=
  decidable_of_iff (start ∈ blockStarts loaded next ∧ (∀ r ∈ loaded, ¬ r.Blocks start len) ∧
      ∀ earlier ∈ blockStarts loaded next, earlier < start → ∃ r ∈ loaded, r.Blocks earlier len)
    ⟨fun h => ⟨h.1, h.2.1, h.2.2⟩, fun h => ⟨h.place, h.clear, h.first⟩⟩

/-- A library that meets the block at the bump pointer meets it at every place in front of its own
end. -/
theorem LoadedRegion.Blocks.of_lt_skip {r : LoadedRegion}
    {next len place : Nat} (h : r.Blocks next len) (hplace : place ∈ blockStarts loaded next)
    (hlt : place < r.skip) : r.Blocks place len := by
  rcases mem_blockStarts.mp hplace with rfl | ⟨⟨r', -, rfl⟩, hnext⟩
  · exact h
  · -- both places are multiples of the alignment
    refine ⟨?_, h.2.trans (Nat.add_lt_add_right hnext len)⟩
    simp only [LoadedRegion.skip, roundDown, u32, mmapAlign] at hlt ⊢
    omega

theorem FirstFit.of_skip {r : LoadedRegion} {next len start : Nat}
    (hr : r ∈ loaded) (hblocks : r.Blocks next len) (hskip : next < r.skip)
    (h : FirstFit loaded r.skip len start) : FirstFit loaded next len start where
  place := by
    rcases mem_blockStarts.mp h.place with rfl | ⟨hbehind, hlt⟩
    · exact mem_blockStarts.mpr (.inr ⟨⟨r, hr, rfl⟩, hskip⟩)
    · exact mem_blockStarts.mpr (.inr ⟨hbehind, hskip.trans hlt⟩)
  clear := h.clear
  first := by
    intro earlier hearlier hlt
    rcases lt_or_ge earlier r.skip with hbefore | hafter
    · exact ⟨r, hr, hblocks.of_lt_skip hearlier hbefore⟩
    rcases mem_blockStarts.mp hearlier with rfl | ⟨hbehind, -⟩
    · exact absurd hafter (Nat.not_le_of_lt hskip)
    · refine h.first earlier (mem_blockStarts.mpr ?_) hlt
      rcases hafter.eq_or_lt with heq | hlt'
      · exact .inl heq.symm
      · exact .inr ⟨hbehind, hlt'⟩

/-- **A bump is a first fit.** -/
theorem bumpIn_firstFit (loaded : List LoadedRegion) (len arenaEnd spins next : Nat) :
    (bumpIn loaded len arenaEnd spins next).1 = mapFailed ∨
      FirstFit loaded next len (bumpIn loaded len arenaEnd spins next).1 ∧
        (bumpIn loaded len arenaEnd spins next).1 + len ≤ arenaEnd := by
  induction spins generalizing next with
  | zero => exact .inl rfl
  | succ spins ih =>
    rw [bumpIn]
    split
    · exact .inl rfl
    rename_i hfits
    cases hfind : loaded.find? fun r => next < r.hi && r.lo < next + len with
    | none =>
      refine .inr ⟨⟨mem_blockStarts.mpr (.inl rfl), ?_, ?_⟩, not_lt.mp hfits⟩
      · intro r hr hblocks
        have hnone := find?_eq_none.mp hfind r hr
        simp [hblocks.1, hblocks.2] at hnone
      · intro earlier hearlier hlt
        rcases mem_blockStarts.mp hearlier with rfl | ⟨-, hlt'⟩
        · exact absurd hlt (lt_irrefl _)
        · exact absurd hlt (lt_asymm hlt')
    | some r =>
      simp only
      split
      · exact .inl rfl
      rename_i hskip
      have hblocks : r.Blocks next len := by simpa [LoadedRegion.Blocks] using find?_some hfind
      have hmem := mem_of_find?_eq_some hfind
      rcases ih r.skip with hfail | ⟨hfit, hle⟩
      · exact .inl hfail
      · exact .inr ⟨hfit.of_skip hmem hblocks (not_le.mp hskip), hle⟩

/-! ## The allocator -/

/-- A block of this length, where the primary arena has a place for it, covers no service
page. -/
def BlockClear (loaded : List LoadedRegion) (a : Arenas) (len : Nat) : Prop :=
  ∀ start ∈ blockStarts loaded a.mmapNext, FirstFit loaded a.mmapNext len start →
    start + len ≤ L.mmapEnd → ServiceFree L ⟨start, start + len⟩

instance blockClearDecidable (L : Layout) (loaded : List LoadedRegion) (a : Arenas) (len : Nat) :
    Decidable (BlockClear L loaded a len) :=
  inferInstanceAs (Decidable (∀ start ∈ blockStarts loaded a.mmapNext, _ → _ → _))

section

variable {L : Layout} {loaded : List LoadedRegion} {a : Arenas}

theorem secondaryBump_clear (hpages : PagesBelowHeap L) (loaded : List LoadedRegion) (len : Nat)
    (hnext : L.mmap2Base ≤ a.mmap2Next) : (secondaryBump L loaded a len).1 = mapFailed ∨
      ServiceFree L ⟨(secondaryBump L loaded a len).1, (secondaryBump L loaded a len).1 + len⟩ := by
  have horder := L.arenas_ordered
  simp only [secondaryBump]
  split
  · rw [smallFallback]
    split
    · rename_i hfits
      exact .inr (hpages.serviceFree (horder.2.1.trans hfits.1) len)
    · exact .inl rfl
  · rcases bumpIn_spec loaded len L.mmap2EndExcl 64 a.mmap2Next with ⟨hfail, -⟩ | hbumped
    · exact .inl hfail
    · have hle := hbumped.next_le
      exact .inr (hpages.serviceFree (by omega) len)

/-- **A block is placed clear of the service pages.** -/
theorem mmapBump_clear (hpages : PagesBelowHeap L) (hwf : a.WellFormed L) {rawLen : Nat}
    (hclear : BlockClear L loaded a (pageRound32 rawLen)) :
    (mmapBump L loaded a rawLen).1 = mapFailed ∨ ServiceFree L ⟨(mmapBump L loaded a rawLen).1,
        (mmapBump L loaded a rawLen).1 + pageRound32 rawLen⟩ := by
  rw [mmapBump]
  simp only
  split
  · exact .inl rfl
  split
  · rename_i hne
    rcases bumpIn_firstFit loaded (pageRound32 rawLen) L.mmapEnd 64 a.mmapNext with
      hfail | ⟨hfit, hle⟩
    · exact absurd hfail hne
    · exact .inr (hclear _ hfit.place hfit hle)
  · split
    · exact secondaryBump_clear hpages loaded _ le_rfl
    split
    · exact .inl rfl
    · rename_i hactive _
      have hnext := hwf.secondary
      rw [Arenas.secondaryNext, if_pos (by simpa using hactive)] at hnext
      exact secondaryBump_clear hpages loaded _ hnext

/-! ## The calls of the exact-length wrapper -/

/-- The calls of `mmap_bump` the halving loop makes: the arenas each finds, and its length. -/
def splitCalls (L : Layout) (loaded : List LoadedRegion) : Nat → Nat → Arenas → List (Arenas × Nat)
  | 0, _, _ => []
  | rounds + 1, tryLen, a =>
    if tryLen < 0x10000 then []
    else
      let half := roundDown (tryLen / 2) 4096
      if half = 0 then []
      else
        (a, half) ::
          if (mmapBump L loaded a half).1 ≠ mapFailed then []
          else splitCalls L loaded rounds half (mmapBump L loaded a half).2

/-- The calls of `mmap_bump` one request makes. -/
def bumpCalls (L : Layout) (loaded : List LoadedRegion) (a : Arenas) (rawLen : Nat)
    (allowSplit : Bool) : List (Arenas × Nat) :=
  let want := pageRound32 rawLen
  if want = 0 ∨ mmapMaxSingle < want then []
  else
    (a, want) ::
      if (mmapBump L loaded a want).1 ≠ mapFailed then []
      else if !allowSplit ∨ 0x10000000 < want then []
      else splitCalls L loaded 16 want (mmapBump L loaded a want).2

theorem newRanges_of_slabs_eq {a' : Arenas} (hslabs : a'.slabs = a.slabs) :
    Guest.newRanges a a' = [] := by
  simp [Guest.newRanges, hslabs]

section

variable (hpages : PagesBelowHeap L) (hwf : a.WellFormed L)
include hpages hwf

theorem newRanges_push {len : Nat}
    (hround : pageRound32 len = len) (hclear : BlockClear L loaded a len)
    (hne : (mmapBump L loaded a len).1 ≠ mapFailed) : ∀ r ∈ Guest.newRanges a
      ((mmapBump L loaded a len).2.pushSlab (mmapBump L loaded a len).1 len), ServiceFree L r := by
  have hlen : len < 2 ^ 32 := hround ▸ pageRound32_lt len
  rw [← hround] at hclear
  have hfree := (mmapBump_clear hpages hwf hclear).resolve_left hne
  have hslabs := mmapBump_slabs L loaded a len
  have hspec := mmapBump_spec hwf loaded len
  rw [hround] at hfree hspec
  rcases hspec with ⟨hfail, -⟩ | ⟨-, hbelow, -, -⟩
  · exact absurd hfail hne
  generalize mmapBump L loaded a len = outcome at hfree hslabs hbelow ⊢
  have hsub : sub32 (u32 (outcome.1 + len)) outcome.1 = len := by
    simp only [sub32, u32]
    omega
  simpa [Guest.newRanges, Arenas.pushSlab, hslabs, hsub] using hfree

theorem splitBump_clear {rounds tryLen : Nat} (htry : tryLen < 2 ^ 32)
    (hclear : ∀ call ∈ splitCalls L loaded rounds tryLen a, BlockClear L loaded call.1 call.2) :
    ∀ r ∈ Guest.newRanges a (splitBump L loaded rounds tryLen a).2, ServiceFree L r := by
  induction rounds generalizing tryLen a with
  | zero => simp [splitBump, newRanges_of_slabs_eq]
  | succ rounds ih =>
    rw [splitBump]
    rw [splitCalls] at hclear
    split
    · simp [newRanges_of_slabs_eq]
    rename_i hlarge
    rw [if_neg hlarge] at hclear
    simp only
    split
    · simp [newRanges_of_slabs_eq]
    rename_i hhalf
    rw [if_neg hhalf] at hclear
    have hround := pageRound32_roundDown (show tryLen / 2 < 2 ^ 31 by omega)
    have hle := roundDown_le (tryLen / 2) 4096
    generalize roundDown (tryLen / 2) 4096 = half at hround hle hclear ⊢
    split
    · rename_i hne
      exact newRanges_push hpages hwf hround (hclear _ mem_cons_self) hne
    rename_i hfail
    rw [if_neg hfail] at hclear
    have hnext := (mmapBump_spec hwf loaded half).consumes.wellFormed
    have hslabs := mmapBump_slabs L loaded a half
    have hrest := ih hnext (by omega) (forall_mem_cons.mp hclear).2
    rwa [Guest.newRanges, hslabs] at hrest

/-- **What the exact-length wrapper records is clear of the service pages.** -/
theorem mmapBumpExact_clear {rawLen : Nat}
    {allowSplit : Bool} (hclear : ∀ call ∈ bumpCalls L loaded a rawLen allowSplit,
      BlockClear L loaded call.1 call.2) :
    ∀ r ∈ Guest.newRanges a (mmapBumpExact L loaded a rawLen allowSplit).2, ServiceFree L r := by
  rw [mmapBumpExact]
  rw [bumpCalls] at hclear
  simp only
  split
  · simp [newRanges_of_slabs_eq]
  rename_i hwant
  rw [if_neg hwant] at hclear
  split
  · rename_i hne
    exact newRanges_push hpages hwf (pageRound32_idem rawLen) (hclear _ mem_cons_self) hne
  rename_i hfail
  rw [if_neg hfail] at hclear
  have hslabs := mmapBump_slabs L loaded a (pageRound32 rawLen)
  split
  · simp [newRanges_of_slabs_eq hslabs]
  rename_i hsplit
  rw [if_neg hsplit] at hclear
  have hnext := (mmapBump_spec hwf loaded (pageRound32 rawLen)).consumes.wellFormed
  have hrest := splitBump_clear hpages hnext (pageRound32_lt rawLen) (forall_mem_cons.mp hclear).2
  rwa [Guest.newRanges, hslabs] at hrest

end

end

/-! ## Runs -/

/-- The address space, and every range `mmap_bump` has handed out so far. -/
structure MappedSpace where
  space : AddressSpace
  ranges : List Interval

/-- The calls that reach the arenas, and library loads. -/
inductive MapOp
  | space (op : SpaceOp)
  | fileMap (env : HostEnv) (len fd off : Nat)

namespace MappedSpace

def initial (L : Layout) : MappedSpace := ⟨AddressSpace.initial L, []⟩

def step (L : Layout) (g : MappedSpace) : MapOp → MappedSpace
  | .space op =>
    let s := g.space.step L op
    ⟨s, Guest.newRanges g.space.arenas s.arenas ++ g.ranges⟩
  | .fileMap env len fd off =>
    match svcMonoFileMap L g.space env len fd off with
    | (some addr, s) => ⟨s, ⟨addr, addr + pageRound32 len⟩ :: g.ranges⟩
    | (none, s) => ⟨s, g.ranges⟩

/-- The runtime's own code and data stay out of every range. -/
def Intact (L : Layout) (g : MappedSpace) : Prop := ∀ r ∈ g.ranges, ServiceFree L r

end MappedSpace

/-- What an operation asks of the arenas. -/
def arenaRequest (s : AddressSpace) : SpaceOp → Option (Nat × Bool)
  | .mmap raw _ c => mmapRequest raw L s c
  | .mprotect _ addr len => mprotectRequest L s addr len
  | .munmap _ _ _ => none
  | .load _ _ => none
  | .store _ _ => none

namespace MappedSpace

/-- Where `mmap_bump` has a place in the primary arena, the block there covers no page of the
runtime. -/
def Spares (L : Layout) (g : MappedSpace) : MapOp → Prop
  | .space op => ∀ request ∈ arenaRequest L g.space op,
      ∀ call ∈ bumpCalls L g.space.loaded g.space.arenas request.1 request.2,
        BlockClear L g.space.loaded call.1 call.2
  | .fileMap _ len _ _ => BlockClear L g.space.loaded g.space.arenas (pageRound32 len)

instance sparesDecidable (L : Layout) (g : MappedSpace) : ∀ op, Decidable (Spares L g op)
  | .space op => inferInstanceAs (Decidable (∀ request ∈ arenaRequest L g.space op,
      ∀ call ∈ bumpCalls L g.space.loaded g.space.arenas request.1 request.2,
        BlockClear L g.space.loaded call.1 call.2))
  | .fileMap _ len _ _ =>
    inferInstanceAs (Decidable (BlockClear L g.space.loaded g.space.arenas (pageRound32 len)))

/-- The arenas are well formed and the runtime's pages are intact. -/
structure Kept (L : Layout) (g : MappedSpace) : Prop where
  wellFormed : g.space.arenas.WellFormed L
  intact : g.Intact L

variable {L : Layout} {g : MappedSpace}

theorem Kept.request (hpages : PagesBelowHeap L) (h : Kept L g) {s : AddressSpace}
    (request : Option (Nat × Bool)) (harenas : s.arenas = afterRequest L g.space request)
    (hclear : ∀ asked ∈ request, ∀ call ∈ bumpCalls L g.space.loaded g.space.arenas asked.1 asked.2,
        BlockClear L g.space.loaded call.1 call.2) :
    Kept L ⟨s, Guest.newRanges g.space.arenas s.arenas ++ g.ranges⟩ := by
  cases request with
  | none =>
    have hnone : Guest.newRanges g.space.arenas s.arenas = [] :=
      newRanges_of_slabs_eq (congrArg Arenas.slabs harenas)
    exact ⟨harenas ▸ h.wellFormed, by simpa [Intact, hnone] using h.intact⟩
  | some asked =>
    obtain ⟨taken, hspec, -, -⟩ := mmapBumpExact_spec h.wellFormed g.space.loaded asked.1 asked.2
    have hwf := hspec.consumes.wellFormed
    have hnew := mmapBumpExact_clear hpages h.wellFormed (hclear asked rfl)
    rw [← show s.arenas = (mmapBumpExact L g.space.loaded g.space.arenas asked.1 asked.2).2 from
      harenas] at hwf hnew
    exact ⟨hwf, forall_mem_append.mpr ⟨hnew, h.intact⟩⟩

/-- An `munmap` hands out nothing. -/
theorem Kept.munmap (h : Kept L g) (addr len : Nat) :
    Kept L ⟨svcLibcMunmap L g.space addr len, Guest.newRanges g.space.arenas
      (svcLibcMunmap L g.space addr len).arenas ++ g.ranges⟩ := by
  rcases svcLibcMunmap_arenas L g.space addr len with hsame | ⟨-, i, slab, primary, hfind, hreclaim⟩
  · exact ⟨hsame ▸ h.wellFormed, by simpa [Intact, hsame, Guest.newRanges_self] using h.intact⟩
  have hwf := (reclaim_spec h.wellFormed hfind).1
  refine ⟨hreclaim ▸ hwf, ?_⟩
  have hnone : Guest.newRanges g.space.arenas (svcLibcMunmap L g.space addr len).arenas = [] := by
    simp [Guest.newRanges, hreclaim, Arenas.reclaim]
  simpa [Intact, hnone] using h.intact

theorem Kept.fileMap (hpages : PagesBelowHeap L) (h : Kept L g) {env : HostEnv} {len fd off : Nat}
    (hclear : BlockClear L g.space.loaded g.space.arenas (pageRound32 len)) :
    Kept L (step L g (.fileMap env len fd off)) := by
  have hwf := (mmapBump_spec h.wellFormed g.space.loaded len).consumes.wellFormed
  have hfree := mmapBump_clear hpages h.wellFormed hclear
  simp only [step, svcMonoFileMap]
  by_cases hzero : len = 0
  · rw [if_pos hzero]
    exact ⟨h.wellFormed, h.intact⟩
  rw [if_neg hzero]
  by_cases hfail : (mmapBump L g.space.loaded g.space.arenas len).1 = mapFailed
  · rw [if_pos hfail]
    exact ⟨hwf, h.intact⟩
  rw [if_neg hfail]
  have hall := forall_mem_cons.mpr ⟨hfree.resolve_left hfail, h.intact⟩
  generalize (if fd < 2 ^ 31 then env.pread fd len off else none) = file
  cases file <;> exact ⟨hwf, hall⟩

theorem Kept.step (hpages : PagesBelowHeap L) (h : Kept L g) (op : MapOp)
    (hspares : Spares L g op) : Kept L (MappedSpace.step L g op) := by
  cases op with
  | fileMap env len fd off => exact h.fileMap hpages hspares
  | space op =>
    cases op with
    | mmap raw env c => exact h.request hpages _ (mmapHandler_request raw L g.space env c) hspares
    | mprotect env addr len =>
      exact h.request hpages _ (svcMprotect_request L g.space env addr len) hspares
    | munmap raw addr len =>
      cases raw with
      | true => exact h.request hpages none rfl (by simp)
      | false => exact h.munmap addr len
    | load base segs =>
      exact h.request hpages none (loadSegments_frame base g.space segs).1 (by simp)
    | store va value =>
      exact h.request hpages none (guestStore_frame L g.space va value).1 (by simp)

end MappedSpace

/-- **The runtime's pages stay the runtime's.** Along every A64 run in which no block has its place
over a service page, no range of `mmap_bump` contains a byte of one. -/
theorem servicePages_intact (heapMb mmap2Base mmap2End : Int) (ops : List MapOp)
    (hops : StepsMeet (MappedSpace.Spares (guestLayoutInit true heapMb mmap2Base mmap2End))
      (MappedSpace.step (guestLayoutInit true heapMb mmap2Base mmap2End))
      (MappedSpace.initial (guestLayoutInit true heapMb mmap2Base mmap2End)) ops) :
    (run (MappedSpace.step (guestLayoutInit true heapMb mmap2Base mmap2End))
      (MappedSpace.initial (guestLayoutInit true heapMb mmap2Base mmap2End)) ops).Intact
        (guestLayoutInit true heapMb mmap2Base mmap2End) := by
  have hpages := pagesBelowHeap_arm64 heapMb mmap2Base mmap2End
  generalize guestLayoutInit true heapMb mmap2Base mmap2End = L at hops hpages ⊢
  have hstart : MappedSpace.Kept L (MappedSpace.initial L) :=
    ⟨Arenas.wellFormed_initial L, by simp [MappedSpace.Intact, MappedSpace.initial]⟩
  exact (run_invariant (fun g op h hspares => h.step hpages op hspares) hstart hops).intact

/-- A library in the primary arena, mappings in front of it and behind it, an unmapping and a
file. -/
def quietRun : List MapOp :=
  [.space (.load 0x10020000 [⟨0, 0x3000, 5, [], true⟩]),
    .space (.mmap false plainHost (anonymousCall 0 0x2000)),
    .space (.mmap false plainHost (anonymousCall 0 0x20000)),
    .space (.munmap false (a64GuestVa 0x10001000) 0x1000),
    .space (.mmap true plainHost (anonymousCall 0 0x1000)), .fileMap plainHost 0x5000 3 0]

theorem quietRun_intact : StepsMeet (MappedSpace.Spares (guestLayoutInit true 256 0 0))
        (MappedSpace.step (guestLayoutInit true 256 0 0))
        (MappedSpace.initial (guestLayoutInit true 256 0 0)) quietRun ∧
      (run (MappedSpace.step (guestLayoutInit true 256 0 0))
        (MappedSpace.initial (guestLayoutInit true 256 0 0)) quietRun).Intact
          (guestLayoutInit true 256 0 0) :=
  (and_iff_left_of_imp (servicePages_intact 256 0 0 quietRun)).mpr (by decide +kernel)

/-- Two anonymous mappings of nearly half a gigabyte. -/
def fillingRun : List MapOp :=
  [.space (.mmap false plainHost (anonymousCall 0 0x1FFF0000)),
    .space (.mmap false plainHost (anonymousCall 0 0x1FFF0000))]

/-- The second of them covers the `pthread_once` stub. -/
theorem not_intact_fillingRun :
    ¬ (run (MappedSpace.step (defaultLayout true)) (MappedSpace.initial (defaultLayout true))
      fillingRun).Intact (defaultLayout true) := by
  intro h
  have hrange : (⟨0x2FFF0000, 0x4FFE0000⟩ : Interval) ∈ (run (MappedSpace.step (defaultLayout true))
      (MappedSpace.initial (defaultLayout true)) fillingRun).ranges := by decide +kernel
  exact absurd (h _ hrange onceStubSpan (by decide +kernel)) (by decide +kernel)

end Lunaria
