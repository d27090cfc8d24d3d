/-
# What the arenas can still hand out

The free space of the arenas is the union of three ranges: what is left of the
primary arena, what is left of the secondary one, and what is left of the upper
half of the heap. A bump takes its result out of the free space and never adds
anything to it, whether it succeeds or fails. This is the specification the
mapping handlers are verified against.
-/

import Lunaria.Mmap.Bump

namespace Lunaria

open Lib List

namespace Arenas

variable (L : Layout) (a : Arenas)

def primaryFree : Interval := ⟨a.mmapNext, L.mmapEnd⟩

/-- The bump pointer of the secondary arena once it is activated. -/
def secondaryNext : Nat := if a.mmap2Active then a.mmap2Next else L.mmap2Base

/-- What is left of the secondary arena; an exhausted one has its pointer at `0xffffffff`. -/
def secondaryFree : Interval :=
  if a.secondaryNext L = 0xffffffff then ⟨0, 0⟩ else ⟨a.secondaryNext L, L.mmap2EndExcl⟩

def smallFree : Interval := ⟨L.smallFloor, a.smallMmapTop⟩

def freeSpans : List Interval := [a.primaryFree L, a.secondaryFree L, a.smallFree L]

/-- The address can still be handed out. -/
def Free (x : Nat) : Prop := ∃ s ∈ a.freeSpans L, x ∈ s.addresses

theorem free_iff {x : Nat} : a.Free L x ↔ (a.mmapNext ≤ x ∧ x < L.mmapEnd) ∨
      (a.secondaryNext L ≠ 0xffffffff ∧ a.secondaryNext L ≤ x ∧ x < L.mmap2EndExcl) ∨
      (L.smallFloor ≤ x ∧ x < a.smallMmapTop) := by
  simp only [Free, freeSpans, mem_cons, not_mem_nil, or_false, exists_eq_or_imp,
    exists_eq_left, Interval.mem_addresses, secondaryFree]
  refine or_congr Iff.rfl (or_congr ?_ Iff.rfl)
  split <;> simp_all

/-- The bump pointers stay inside their arenas. -/
structure WellFormed : Prop where
  primary : mmapBase ≤ a.mmapNext
  secondary : L.mmap2Base ≤ a.secondaryNext L
  small : a.smallMmapTop ≤ L.heapEnd
  floor : L.smallFloor ≤ a.smallMmapTop

theorem wellFormed_initial : (initial L).WellFormed L where
  primary := le_rfl
  secondary := by simp [initial, secondaryNext]
  small := le_rfl
  floor := by
    simp only [initial, Layout.smallFloor, Layout.heapEnd]
    omega

end Arenas

/-- The three arenas lie in this order, so a range of one is never free in another. -/
theorem Layout.arenas_ordered (L : Layout) : L.mmapEnd ≤ heapBase ∧ heapBase ≤ L.smallFloor ∧
    L.smallFloor ≤ L.heapEnd ∧ L.heapEnd ≤ L.mmap2Base ∧ L.mmap2EndExcl ≤ 2 ^ 32 := by
  refine ⟨L.mmapEnd_le, ?_, ?_, L.heap_below_mmap2, L.mmap2EndExcl_le⟩
  · rw [smallFloor]
    omega
  · rw [smallFloor, heapEnd]
    omega

namespace Arenas

variable {L : Layout} {a : Arenas} {x : Nat}

theorem WellFormed.primary_of_free (hwf : a.WellFormed L) (hx : x < heapBase)
    (hfree : a.Free L x) : a.mmapNext ≤ x := by
  obtain ⟨-, hfloor, htop, hend, -⟩ := L.arenas_ordered
  have hsecond := hwf.secondary
  rcases (free_iff L a).mp hfree with h | ⟨-, h⟩ | h
  · exact h.1
  · omega
  · omega

theorem WellFormed.small_of_free (hwf : a.WellFormed L) (hlo : heapBase ≤ x)
    (hhi : x < L.heapEnd) (hfree : a.Free L x) : L.smallFloor ≤ x ∧ x < a.smallMmapTop := by
  obtain ⟨hprimary, -, -, hend, -⟩ := L.arenas_ordered
  have hsecond := hwf.secondary
  rcases (free_iff L a).mp hfree with h | ⟨-, h⟩ | h
  · omega
  · omega
  · exact h

theorem WellFormed.secondary_of_free (hwf : a.WellFormed L) (hx : L.mmap2Base ≤ x)
    (hfree : a.Free L x) : a.secondaryNext L ≠ 0xffffffff ∧ a.secondaryNext L ≤ x := by
  obtain ⟨hprimary, hfloor, htop, hend, -⟩ := L.arenas_ordered
  have hsmall := hwf.small
  rcases (free_iff L a).mp hfree with h | ⟨hne, h⟩ | h
  · omega
  · exact ⟨hne, h.1⟩
  · omega

end Arenas

/-! ## One arena -/

/-- The outcome of a successful attempt in one arena. -/
structure BumpedIn (loaded : List LoadedRegion) (len arenaEnd next : Nat)
    (outcome : Nat × Nat) : Prop where
  next_le : next ≤ outcome.1
  fits : outcome.1 + len ≤ arenaEnd
  advanced : outcome.2 = 0xffffffff ∨ outcome.1 + len ≤ outcome.2
  apart : ∀ r ∈ loaded, (⟨outcome.1, outcome.1 + len⟩ : Interval).Apart r.span

theorem bumpIn_spec (loaded : List LoadedRegion) (len arenaEnd spins next : Nat) :
    ((bumpIn loaded len arenaEnd spins next).1 = mapFailed ∧
        next ≤ (bumpIn loaded len arenaEnd spins next).2) ∨
      BumpedIn loaded len arenaEnd next (bumpIn loaded len arenaEnd spins next) := by
  induction spins generalizing next with
  | zero => exact .inl ⟨rfl, le_rfl⟩
  | succ spins ih =>
    rw [bumpIn]
    split
    · exact .inl ⟨rfl, le_rfl⟩
    rename_i hfits
    cases hfind : loaded.find? fun r => next < r.hi && r.lo < next + len with
    | some r =>
      simp only
      generalize roundDown (u32 (r.hi + mmapAlign - 1)) mmapAlign = skip
      split
      · exact .inl ⟨rfl, le_rfl⟩
      · rcases ih skip with hfail | hbumped
        · exact .inl ⟨hfail.1, by omega⟩
        · exact .inr { hbumped with next_le := by have := hbumped.next_le; omega }
    | none =>
      have hround := le_roundUp (show 0 < mmapAlign by decide) (next + len)
      refine .inr ⟨le_rfl, not_lt.mp hfits, ?_, ?_⟩
      · simp only
        split
        · exact .inl rfl
        · exact .inr hround
      · intro r hr
        have hmiss := find?_eq_none.mp hfind r hr
        simp only [Bool.and_eq_true, decide_eq_true_eq, not_and, not_lt] at hmiss
        by_cases hlt : next < r.hi
        · exact .inl (hmiss hlt)
        · exact .inr (not_lt.mp hlt)

/-! ## The allocator -/

/-- What a call may do to the arenas: free space only shrinks, and the slabs stay. -/
structure Arenas.Consumes (L : Layout) (a a' : Arenas) : Prop where
  wellFormed : a'.WellFormed L
  mono : ∀ x, a'.Free L x → a.Free L x

/-- A range that was taken out of the free space. -/
structure Arenas.Takes (L : Layout) (a a' : Arenas) (addr len : Nat) : Prop
    extends Arenas.Consumes L a a' where
  free : ∀ x, addr ≤ x → x < addr + len → a.Free L x
  taken : ∀ x, addr ≤ x → x < addr + len → ¬ a'.Free L x

namespace Arenas

variable {L : Layout} {a a' a'' : Arenas} {addr len : Nat}

theorem Consumes.refl (hwf : a.WellFormed L) : a.Consumes L a := ⟨hwf, fun _ h => h⟩

theorem WellFormed.mmapBase_le (hwf : a.WellFormed L) {x : Nat} (hfree : a.Free L x) :
    mmapBase ≤ x := by
  have hl := layoutConsts
  have hprimary := hwf.primary
  have hsecond := hwf.secondary
  have hheap := L.heap_below_mmap2
  rcases (free_iff L a).mp hfree with h | h | h
  · omega
  · omega
  · rw [Layout.smallFloor] at h
    omega

theorem Consumes.trans (first : a.Consumes L a') (second : a'.Consumes L a'') : a.Consumes L a'' :=
  ⟨second.wellFormed, fun x h => first.mono x (second.mono x h)⟩

section

variable (hwf : a.WellFormed L)
include hwf

theorem Consumes.mark_le (h : a.Consumes L a') : a'.smallMmapTop ≤ a.smallMmapTop := by
  have hfloor := hwf.floor
  have horder := L.arenas_ordered
  by_contra hlt
  have hfree : a'.Free L a.smallMmapTop := by
    rw [free_iff]
    exact .inr (.inr ⟨hfloor, not_le.mp hlt⟩)
  have hend : a.smallMmapTop < L.heapEnd := (not_le.mp hlt).trans_le h.wellFormed.small
  have hold := hwf.small_of_free (by omega) hend (h.mono _ hfree)
  exact absurd hold.2 (lt_irrefl _)

theorem Takes.outside_heap (h : a.Takes L a' addr len) {x : Nat}
    (hlo : addr ≤ x) (hhi : x < addr + len) : x < heapBase ∨ a'.smallMmapTop ≤ x := by
  by_contra hinside
  obtain ⟨hbase, hmark⟩ := not_or.mp hinside
  have hend : x < L.heapEnd := (not_le.mp hmark).trans_le h.wellFormed.small
  have hold := hwf.small_of_free (not_lt.mp hbase) hend (h.free x hlo hhi)
  refine h.taken x hlo hhi ?_
  rw [free_iff]
  exact .inr (.inr ⟨hold.1, not_le.mp hmark⟩)

/-! ### Moving one mark -/

theorem WellFormed.advancePrimary {next : Nat} (hle : a.mmapNext ≤ next) :
    a.Consumes L { a with mmapNext := next } := by
  refine ⟨{ hwf with primary := hwf.primary.trans hle }, ?_⟩
  intro x hx
  rw [free_iff] at hx ⊢
  exact hx.imp_left fun h => ⟨hle.trans h.1, h.2⟩

theorem WellFormed.advanceSecondary (hactive : a.mmap2Active)
    {next : Nat} (hle : a.mmap2Next ≤ next) : a.Consumes L { a with mmap2Next := next } := by
  have hnext : a.secondaryNext L = a.mmap2Next := by simp [secondaryNext, hactive]
  have hnext' : secondaryNext L { a with mmap2Next := next } = next := by
    simp [secondaryNext, hactive]
  have hsecond := hwf.secondary
  rw [hnext] at hsecond
  refine ⟨{ hwf with secondary := ?_ }, ?_⟩
  · rw [hnext']
    exact hsecond.trans hle
  intro x hx
  have hend := L.mmap2EndExcl_le
  rw [free_iff, hnext'] at hx
  rw [free_iff, hnext]
  refine hx.imp_right (Or.imp_left fun ⟨hne, hlo, hhi⟩ => ⟨?_, hle.trans hlo, hhi⟩)
  omega

theorem WellFormed.activate (hinactive : a.mmap2Active = false) :
    a.Consumes L { a with mmap2Active := true, mmap2Next := L.mmap2Base } := by
  refine ⟨{ hwf with secondary := by simp [secondaryNext] }, ?_⟩
  intro x hx
  rw [free_iff] at hx ⊢
  simp only [secondaryNext, hinactive]
  exact hx

theorem WellFormed.lowerSmall {top : Nat} (hfloor : L.smallFloor ≤ top)
    (hle : top ≤ a.smallMmapTop) : a.Consumes L { a with smallMmapTop := top } := by
  refine ⟨⟨hwf.primary, hwf.secondary, hle.trans hwf.small, hfloor⟩, ?_⟩
  intro x hx
  rw [free_iff] at hx ⊢
  exact hx.imp_right (Or.imp_right fun h => ⟨h.1, h.2.trans_le hle⟩)

end

theorem Takes.of_consumes (first : a.Consumes L a') (second : a'.Takes L a'' addr len) :
    a.Takes L a'' addr len where
  toConsumes := first.trans second.toConsumes
  free x hlo hhi := first.mono x (second.free x hlo hhi)
  taken := second.taken

end Arenas

/-- No library reaches into the part of the heap the fallback hands out, which does not look at
libraries. -/
def HeapHalfClear (L : Layout) (loaded : List LoadedRegion) : Prop :=
  ∀ r ∈ loaded, Interval.Misses ⟨L.smallFloor, L.heapEnd⟩ r.span
  deriving Decidable

/-- A failure that only consumes, or a range taken out of the free space below 4 GiB, clear of the
libraries. -/
def BumpSpec (L : Layout) (loaded : List LoadedRegion) (a : Arenas) (len : Nat)
    (outcome : Nat × Arenas) : Prop :=
  (outcome.1 = mapFailed ∧ a.Consumes L outcome.2) ∨
    (a.Takes L outcome.2 outcome.1 len ∧ outcome.1 + len ≤ 2 ^ 32 ∧ mmapBase ≤ outcome.1 ∧
      (HeapHalfClear L loaded → ∀ r ∈ loaded, Interval.Misses ⟨outcome.1, outcome.1 + len⟩ r.span))

theorem BumpSpec.of_consumes {L : Layout} {loaded : List LoadedRegion} {a a' : Arenas}
    {len : Nat} {outcome : Nat × Arenas} (first : a.Consumes L a')
    (second : BumpSpec L loaded a' len outcome) : BumpSpec L loaded a len outcome := by
  rcases second with ⟨hfail, hcons⟩ | ⟨htakes, hrest⟩
  · exact .inl ⟨hfail, first.trans hcons⟩
  · exact .inr ⟨.of_consumes first htakes, hrest⟩

theorem pageRound32_ge {len : Nat} (h : pageRound32 len ≠ 0) : 4096 ≤ pageRound32 len := by
  simp only [pageRound32, roundDown] at h ⊢
  omega

section Allocator

variable {L : Layout} {a : Arenas} {loaded : List LoadedRegion} {len : Nat}

section

variable (hwf : a.WellFormed L)
include hwf

theorem smallFallback_spec (hlen : 4096 ≤ len)
    (hsmall : len ≤ 0x01000000) : BumpSpec L loaded a len (smallFallback L a len) := by
  have horder := L.arenas_ordered
  have hend := L.heapEnd_lt
  have htop := hwf.small
  have hround := roundDown_le (sub32 a.smallMmapTop len) mmapAlign
  have hl := layoutConsts
  rw [smallFallback]
  split
  · rename_i hplace
    -- the subtraction does not wrap, or the result would lie above the old mark
    have hbelow : roundDown (sub32 a.smallMmapTop len) mmapAlign + len ≤ a.smallMmapTop := by
      by_cases hle : len ≤ a.smallMmapTop
      · rw [sub32_of_le hle (by omega)] at hround ⊢
        omega
      · omega
    have hconsumes := hwf.lowerSmall hplace.1 (by omega)
    refine .inr ⟨⟨hconsumes, ?_, ?_⟩, ?_, ?_, ?_⟩
    · intro x hlo hhi
      rw [Arenas.free_iff]
      exact .inr (.inr ⟨by omega, by omega⟩)
    · intro x hlo hhi hx
      have hold := hconsumes.wellFormed.small_of_free (by omega) (by omega) hx
      exact absurd hold.2 (not_lt.mpr hlo)
    · omega
    · omega
    intro hclear r hr
    have hmiss := hclear r hr
    rw [Interval.misses_iff_forall] at hmiss ⊢
    intro x hlo hhi
    simp only at hlo hhi
    exact hmiss x (by simp only; omega) (by simp only; omega)
  · exact .inl ⟨rfl, .refl hwf⟩

theorem secondaryBump_spec (hactive : a.mmap2Active)
    (hlen : 4096 ≤ len) : BumpSpec L loaded a len (secondaryBump L loaded a len) := by
  have horder := L.arenas_ordered
  have hsecond := hwf.secondary
  have hl := layoutConsts
  have hnext : a.secondaryNext L = a.mmap2Next := by simp [Arenas.secondaryNext, hactive]
  rw [secondaryBump]
  rcases bumpIn_spec loaded len L.mmap2EndExcl 64 a.mmap2Next with ⟨hfail, hle⟩ | hbumped
  · have hconsumes := hwf.advanceSecondary hactive hle
    simp only
    split
    · rename_i hfallback
      exact .of_consumes hconsumes (smallFallback_spec hconsumes.wellFormed hlen hfallback.2.1)
    · exact .inl ⟨hfail, hconsumes⟩
  have hge := hbumped.next_le
  have hfits := hbumped.fits
  have hadv := hbumped.advanced
  simp only
  rw [if_neg (by omega)]
  have hconsumes := hwf.advanceSecondary hactive
    (show a.mmap2Next ≤ (bumpIn loaded len L.mmap2EndExcl 64 a.mmap2Next).2 by omega)
  refine .inr ⟨⟨hconsumes, ?_, ?_⟩, by omega, by omega, ?_⟩
  · intro x hlo hhi
    rw [Arenas.free_iff]
    exact .inr (.inl ⟨by omega, by omega, by omega⟩)
  · intro x hlo hhi hx
    have hold := hconsumes.wellFormed.secondary_of_free (by omega) hx
    simp only [Arenas.secondaryNext, hactive, if_true] at hold
    omega
  · intro _ r hr
    exact (hbumped.apart r hr).misses

theorem BumpedIn.primary (hlen : 4096 ≤ len) {outcome : Nat × Nat}
    (h : BumpedIn loaded len L.mmapEnd a.mmapNext outcome) :
    BumpSpec L loaded a len (outcome.1, { a with mmapNext := outcome.2 }) := by
  have horder := L.arenas_ordered
  have hprimary := hwf.primary
  have hlow := h.next_le
  have hfits := h.fits
  have hadv := h.advanced
  have hl := layoutConsts
  have hconsumes := hwf.advancePrimary (show a.mmapNext ≤ outcome.2 by omega)
  refine .inr ⟨⟨hconsumes, ?_, ?_⟩, by simp only; omega, by simp only; omega, ?_⟩
  · intro x hlo hhi
    rw [Arenas.free_iff]
    exact .inl ⟨by simp only at hlo; omega, by simp only at hhi; omega⟩
  · intro x hlo hhi hx
    have hold := hconsumes.wellFormed.primary_of_free (by omega) hx
    simp only at hold
    omega
  · intro _ r hr
    exact (h.apart r hr).misses

/-- **The bump allocator hands out free space.** -/
theorem mmapBump_spec (loaded : List LoadedRegion) (rawLen : Nat) :
    BumpSpec L loaded a (pageRound32 rawLen) (mmapBump L loaded a rawLen) := by
  have horder := L.arenas_ordered
  have hl := layoutConsts
  rw [mmapBump]
  simp only
  split
  · exact .inl ⟨rfl, .refl hwf⟩
  rename_i hlen
  have hge := pageRound32_ge fun h => hlen (.inl h)
  generalize pageRound32 rawLen = len at *
  rcases bumpIn_spec loaded len L.mmapEnd 64 a.mmapNext with ⟨hfail, hle⟩ | hbumped
  · have hconsumes := hwf.advancePrimary hle
    rw [if_neg (not_not_intro hfail)]
    split
    · rename_i hinactive
      simp only [Bool.not_eq_true'] at hinactive
      have hstart := hconsumes.trans (hconsumes.wellFormed.activate hinactive)
      exact .of_consumes hstart (secondaryBump_spec hstart.wellFormed rfl hge)
    · rename_i hactive
      simp only [Bool.not_eq_true', Bool.not_eq_false] at hactive
      split
      · exact .inl ⟨rfl, hconsumes⟩
      · exact .of_consumes hconsumes (secondaryBump_spec hconsumes.wellFormed hactive hge)
  · have hfits := hbumped.fits
    rw [if_pos (by omega)]
    exact hbumped.primary hwf hge

end

/-! ## The exact-length wrapper -/

/-- The halving loop is reached and places a mapping that is shorter than the page
rounded request. -/
def shortMaps (L : Layout) (loaded : List LoadedRegion) (a : Arenas) (rawLen : Nat)
    (allowSplit : Bool) : Bool :=
  let want := pageRound32 rawLen
  let first := mmapBump L loaded a want
  want ≠ 0 && want ≤ mmapMaxSingle && first.1 == mapFailed && allowSplit &&
    want ≤ 0x10000000 && (splitBump L loaded 16 want first.2).1 != mapFailed

variable {outcome : Nat × Arenas}

/-- The slab list plays no part in the free space. -/
theorem BumpSpec.pushSlab
    (spec : BumpSpec L loaded a len outcome) (hne : outcome.1 ≠ mapFailed) (slabLen : Nat) :
    BumpSpec L loaded a len (outcome.1, outcome.2.pushSlab outcome.1 slabLen) := by
  rcases spec with ⟨hfail, -⟩ | ⟨htakes, hbelow, hbase, happart⟩
  · exact absurd hfail hne
  · exact .inr ⟨⟨⟨⟨htakes.wellFormed.primary, htakes.wellFormed.secondary,
      htakes.wellFormed.small, htakes.wellFormed.floor⟩, htakes.mono⟩, htakes.free, htakes.taken⟩,
        hbelow, hbase, happart⟩

theorem BumpSpec.consumes (spec : BumpSpec L loaded a len outcome) : a.Consumes L outcome.2 := by
  rcases spec with ⟨-, hcons⟩ | ⟨htakes, -⟩
  · exact hcons
  · exact htakes.toConsumes

theorem smallFallback_slabs (L : Layout) (a : Arenas) (len : Nat) :
    (smallFallback L a len).2.slabs = a.slabs := by
  rw [smallFallback]
  split <;> rfl

theorem secondaryBump_slabs (L : Layout) (loaded : List LoadedRegion) (a : Arenas) (len : Nat) :
    (secondaryBump L loaded a len).2.slabs = a.slabs := by
  rw [secondaryBump]
  simp only
  split
  · exact smallFallback_slabs L _ len
  · rfl

/-- The allocator itself records no slab. -/
theorem mmapBump_slabs (L : Layout) (loaded : List LoadedRegion) (a : Arenas) (rawLen : Nat) :
    (mmapBump L loaded a rawLen).2.slabs = a.slabs := by
  rw [mmapBump]
  simp only
  split
  · rfl
  split
  · rfl
  split
  · exact secondaryBump_slabs L loaded ..
  · split
    · rfl
    · exact secondaryBump_slabs L loaded ..

/-- The slab list after a call of the exact-length wrapper: a success is recorded with
the length that was really taken. -/
def RecordsSlab (a : Arenas) (len : Nat) (outcome : Nat × Arenas) : Prop :=
  outcome.2.slabs =
    if outcome.1 = mapFailed then a.slabs else a.slabs ++ [⟨outcome.1, u32 (outcome.1 + len)⟩]

theorem recordsSlab_fail {a' : Arenas} (h : a'.slabs = a.slabs) :
    RecordsSlab a len (mapFailed, a') := by
  exact h

theorem recordsSlab_push (h : outcome.2.slabs = a.slabs) (hne : outcome.1 ≠ mapFailed) :
    RecordsSlab a len (outcome.1, outcome.2.pushSlab outcome.1 len) := by
  rw [RecordsSlab, if_neg hne, Arenas.pushSlab, h]

theorem pageRound32_roundDown {n : Nat} (h : n < 2 ^ 31) :
    pageRound32 (roundDown n 4096) = roundDown n 4096 := by
  simp only [pageRound32, roundDown, u32]
  omega

/-- Each round of the halving loop is a bump for its own length. -/
theorem splitBump_spec (hwf : a.WellFormed L) (loaded : List LoadedRegion)
    (rounds tryLen : Nat) (htry : tryLen < 2 ^ 32) :
    ∃ len, BumpSpec L loaded a len (splitBump L loaded rounds tryLen a) ∧
      RecordsSlab a len (splitBump L loaded rounds tryLen a) := by
  have hfail : ∃ len, BumpSpec L loaded a len (mapFailed, a) ∧ RecordsSlab a len (mapFailed, a) :=
    ⟨0, .inl ⟨rfl, .refl hwf⟩, recordsSlab_fail rfl⟩
  induction rounds generalizing tryLen a with
  | zero => exact hfail
  | succ rounds ih =>
    rw [splitBump]
    split
    · exact hfail
    simp only
    split
    · exact hfail
    have hhalf := pageRound32_roundDown (show tryLen / 2 < 2 ^ 31 by omega)
    have hle := roundDown_le (tryLen / 2) 4096
    generalize roundDown (tryLen / 2) 4096 = half at hhalf hle ⊢
    have hspec := mmapBump_spec hwf loaded half
    have hslabs := mmapBump_slabs L loaded a half
    rw [hhalf] at hspec
    split
    · rename_i hne
      exact ⟨half, hspec.pushSlab hne half, recordsSlab_push hslabs hne⟩
    have hnext := hspec.consumes
    obtain ⟨len, hrest, hrecord⟩ := ih hnext.wellFormed half (by omega)
      ⟨0, .inl ⟨rfl, .refl hnext.wellFormed⟩, recordsSlab_fail rfl⟩
    refine ⟨len, .of_consumes hnext hrest, ?_⟩
    rw [RecordsSlab, hslabs] at hrecord
    exact hrecord

theorem pageRound32_idem (rawLen : Nat) :
    pageRound32 (pageRound32 rawLen) = pageRound32 rawLen := by
  simp only [pageRound32, roundDown, u32]
  omega

theorem pageRound32_of_ne_zero (hlen : len < 2 ^ 32) (h : pageRound32 len ≠ 0) :
    pageRound32 len = roundUp len 4096 := by
  simp only [pageRound32, roundUp, roundDown, u32] at h ⊢
  omega

theorem pageRound32_lt (rawLen : Nat) : pageRound32 rawLen < 2 ^ 32 :=
  lt_of_le_of_lt (roundDown_le ..) (u32_lt _)

/-- **The exact-length wrapper.** It hands out free space too; unless it short-maps,
it hands out the page-rounded request. -/
theorem mmapBumpExact_spec (hwf : a.WellFormed L) (loaded : List LoadedRegion)
    (rawLen : Nat) (allowSplit : Bool) :
    ∃ len, BumpSpec L loaded a len (mmapBumpExact L loaded a rawLen allowSplit) ∧
      (shortMaps L loaded a rawLen allowSplit = false → len = pageRound32 rawLen) ∧
      RecordsSlab a len (mmapBumpExact L loaded a rawLen allowSplit) := by
  have hspec := mmapBump_spec hwf loaded (pageRound32 rawLen)
  have hslabs := mmapBump_slabs L loaded a (pageRound32 rawLen)
  rw [pageRound32_idem] at hspec
  rw [mmapBumpExact]
  simp only
  split
  · exact ⟨_, .inl ⟨rfl, .refl hwf⟩, fun _ => rfl, recordsSlab_fail rfl⟩
  split
  · rename_i hne
    exact ⟨_, hspec.pushSlab hne _, fun _ => rfl, recordsSlab_push hslabs hne⟩
  split
  · exact ⟨_, .inl ⟨rfl, hspec.consumes⟩, fun _ => rfl, recordsSlab_fail hslabs⟩
  obtain ⟨len, hrest, hrecord⟩ := splitBump_spec hspec.consumes.wellFormed loaded 16
    (pageRound32 rawLen) (pageRound32_lt rawLen)
  rw [RecordsSlab, hslabs] at hrecord
  by_cases hshort : shortMaps L loaded a rawLen allowSplit = false
  · have hnone : (splitBump L loaded 16 (pageRound32 rawLen)
        (mmapBump L loaded a (pageRound32 rawLen)).2).1 = mapFailed := by
      simp only [shortMaps] at hshort
      simp_all
    refine ⟨_, .inl ⟨hnone, hspec.consumes.trans hrest.consumes⟩, fun _ => rfl, ?_⟩
    rw [RecordsSlab, if_pos hnone]
    rwa [if_pos hnone] at hrecord
  · exact ⟨len, .of_consumes hspec.consumes hrest, fun h => absurd h hshort, hrecord⟩

theorem mmapBumpExact_want {rawLen : Nat} {allowSplit : Bool}
    (h : (mmapBumpExact L loaded a rawLen allowSplit).1 ≠ mapFailed) : pageRound32 rawLen ≠ 0 := by
  intro hzero
  rw [mmapBumpExact] at h
  simp only [hzero, true_or, if_true, ne_eq, not_true_eq_false] at h

end Allocator

end Lunaria
