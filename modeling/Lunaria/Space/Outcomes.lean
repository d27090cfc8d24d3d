/-
# What one mmap call can do

The handlers have many branches, and most results about them only need to know
which kind of address came back and what happened to the free space. This module
says that once: a call fails, or replaces a fixed range, or opens a window, or
hands out arena memory directly. The invariants of whole runs are derived from
this case analysis and never unfold the handlers again.
-/

import Lunaria.Space.Handlers
import Lunaria.Mmap.FreeSpace

namespace Lunaria

open Lib List Option

variable (L : Layout) (raw : Bool) (s : AddressSpace)

/-- The call takes the `MAP_FIXED` branch. -/
def fixedCall (c : MmapCall) : Bool :=
  svcArg L s c.addr ≠ 0 && (svcArg L s c.flags).testBit mapFixed

/-- The call is for a large anonymous A64 mapping, which gets a window of its own. -/
def windowCall (c : MmapCall) : Bool :=
  L.isArm64 && (svcArg L s c.flags).testBit mapAnonymous &&
    0x01000000 ≤ roundUp (svcArg L s c.len) 4096

/-- The call takes the lazy reservation branch when it is not fixed. -/
def lazyCall (L : Layout) (s : AddressSpace) (c : MmapCall) : Bool :=
  !raw && L.isArm64 && isReservation (svcArg L s c.prot) (svcArg L s c.flags) &&
    0x01000000 ≤ svcArg L s c.len

/-- Whether a call that is neither fixed nor lazy may be answered with less memory than
it asked for. -/
def allowsSplit (L : Layout) (s : AddressSpace) (c : MmapCall) : Bool :=
  !(!raw && L.isArm64 && (svcArg L s c.flags).testBit mapAnonymous && 0x01000000 ≤ svcArg L s c.len)

/-- The bound on the slot number a call draws its window from: only the host-mapping
fallback goes past `0x40`. -/
def slotLimit (L : Layout) (s : AddressSpace) (c : MmapCall) : Nat :=
  if !lazyCall raw L s c && (mmapBumpExact L s.loaded s.arenas (svcArg L s c.len)
      (allowsSplit raw L s c)).1 == mapFailed then 0xff
  else 0x40

/-- The start of the window a call would be given. -/
def preferredAddr (L : Layout) (s : AddressSpace) (c : MmapCall) : Nat :=
  (s.preferred c.addr (slotLimit raw L s c)).1

/-- A preferred address that can name a window. -/
def NamesWindow (preferred : Nat) : Prop :=
  preferred ≠ 0 ∧ hiWord preferred ≠ 0 ∧ hiWord preferred ≤ 0xffff
  deriving Decidable

/-- The common end of the handlers answers with a window instead of the backing
address. -/
def opensWindow (hint addr len flags : Nat) : Bool :=
  L.isArm64 && addr != mapFailed && 0x01000000 ≤ len && flags.testBit mapAnonymous &&
    NamesWindow (s.preferred hint 0x40).1

/-- The bytes the common end of the handlers fetches from a file: none for an anonymous
mapping or a failed read. -/
def fetched (env : HostEnv) (flags fd len off : Nat) : List UInt8 :=
  if fd < 2 ^ 31 ∧ !flags.testBit mapAnonymous then (env.pread fd len off).getD [] else []

/-- The file offset the handlers use. -/
def usedOffset (c : MmapCall) : Nat :=
  if c.pageOffset then u32 (svcArg L s c.off * 4096) else svcArg L s c.off

/-- The bytes a call fetches when its mapping is `len` bytes long. -/
def fetchedBytes (env : HostEnv) (c : MmapCall) (len : Nat) : List UInt8 :=
  fetched env (svcArg L s c.flags) (svcArg L s c.fd) len (usedOffset L s c)

/-- Windows, host mappings and libraries are as before. -/
structure KeepsWindows (s s' : AddressSpace) : Prop where
  loaded : s'.loaded = s.loaded
  libLoadEnd : s'.libLoadEnd = s.libLoadEnd
  aliases : s'.aliases = s.aliases
  hostMaps : s'.hostMaps = s.hostMaps

/-- One window was opened or replaced; bytes and libraries are as before. -/
structure SetsWindow (s s' : AddressSpace) (hi : Nat) (window : A64PrefAlias) : Prop where
  loaded : s'.loaded = s.loaded
  libLoadEnd : s'.libLoadEnd = s.libLoadEnd
  mem : s'.mem = s.mem
  aliases : s'.aliases = fun k => if k = hi then some window else s.aliases k

theorem SetsWindow.entry {s s' : AddressSpace} {hi : Nat} {window : A64PrefAlias}
    (h : SetsWindow s s' hi window) : s'.aliases hi = some window := by
  rw [h.aliases]
  exact if_pos rfl

theorem SetsWindow.other {s s' : AddressSpace} {hi hi' : Nat} {window : A64PrefAlias}
    (h : SetsWindow s s' hi window) (hne : hi' ≠ hi) : s'.aliases hi' = s.aliases hi' := by
  rw [h.aliases]
  exact if_neg hne

section Pieces

variable (L : Layout) (s : AddressSpace)

theorem KeepsWindows.refl : KeepsWindows s s := ⟨rfl, rfl, rfl, rfl⟩

theorem preferred_frame (hint limit : Nat) : KeepsWindows s (s.preferred hint limit).2 ∧
      (s.preferred hint limit).2.arenas = s.arenas ∧ (s.preferred hint limit).2.mem = s.mem := by
  rw [AddressSpace.preferred]
  split
  · exact ⟨.refl s, rfl, rfl⟩
  · split <;> exact ⟨⟨rfl, rfl, rfl, rfl⟩, rfl, rfl⟩

theorem setAlias_setsWindow (hint limit hi : Nat) (window : A64PrefAlias) :
    SetsWindow s ((s.preferred hint limit).2.setAlias hi window) hi window := by
  obtain ⟨hkeep, -, hmem⟩ := preferred_frame s hint limit
  refine ⟨hkeep.loaded, hkeep.libLoadEnd, hmem, ?_⟩
  simp [AddressSpace.setAlias, hkeep.aliases]

theorem preferred_congr {s s' : AddressSpace} (hslot : s.mmapSlot = s'.mmapSlot)
    (hint limit : Nat) : (s.preferred hint limit).1 = (s'.preferred hint limit).1 := by
  simp only [AddressSpace.preferred, hslot]
  split
  · rfl
  · split <;> rfl

theorem reserveLazy_cases (hint len : Nat) :
    let out := reserveLazy s hint len
    out.2.arenas = s.arenas ∧ out.2.hostMaps = s.hostMaps ∧
      ((out.1 = none ∧ KeepsWindows s out.2 ∧ out.2.mem = s.mem) ∨
        (NamesWindow (s.preferred hint 0x40).1 ∧ pageRound32 len ≠ 0 ∧
          out.1 = some (pageDown (s.preferred hint 0x40).1) ∧
          SetsWindow s out.2 (hiWord (s.preferred hint 0x40).1)
            { size := pageRound32 len, lazy := true })) := by
  obtain ⟨hkeep, harenas, hmem⟩ := preferred_frame s hint 0x40
  rw [reserveLazy]
  simp only
  split
  · exact ⟨harenas, hkeep.hostMaps, .inl ⟨rfl, hkeep, hmem⟩⟩
  rename_i hnames
  simp only [not_or, not_lt] at hnames
  have hset := setAlias_setsWindow s hint 0x40 (hiWord (s.preferred hint 0x40).1)
    { size := pageRound32 len, lazy := true }
  exact ⟨harenas, hkeep.hostMaps, .inr ⟨⟨hnames.1, hnames.2.1, hnames.2.2.1⟩, hnames.2.2.2, rfl,
    { hset with }⟩⟩

variable (env : HostEnv)

/-- The host-mapping fallback is refused, or opens a window on a new host mapping. -/
theorem overflowMmap_cases (hint len : Nat) :
    let out := overflowMmap s env hint len
    out.2.arenas = s.arenas ∧
      ((out.1 = none ∧ KeepsWindows s out.2 ∧ out.2.mem = s.mem) ∨
        (NamesWindow (s.preferred hint 0xff).1 ∧ pageRound32 len ≠ 0 ∧
          out.1 = some (pageDown (s.preferred hint 0xff).1) ∧ out.2.hostMaps = s.hostMaps + 1 ∧
          SetsWindow s out.2 (hiWord (s.preferred hint 0xff).1)
            { size := pageRound32 len, overflowBase := some s.hostMaps })) := by
  obtain ⟨hkeep, harenas, hmem⟩ := preferred_frame s hint 0xff
  rw [overflowMmap]
  split
  · rename_i hhost
    simp only
    split
    · rename_i hnames
      have hset := setAlias_setsWindow s hint 0xff (hiWord (s.preferred hint 0xff).1)
        { size := pageRound32 len, overflowBase := some s.hostMaps }
      rw [hkeep.hostMaps]
      exact ⟨harenas, .inr ⟨hnames, hhost.2, rfl, rfl, { hset with }⟩⟩
    · exact ⟨harenas, .inl ⟨rfl, hkeep, hmem⟩⟩
  · exact ⟨rfl, .inl ⟨rfl, .refl s, rfl⟩⟩

variable {hint addr len flags : Nat}

theorem opensWindow_iff : opensWindow L s hint addr len flags ↔ L.isArm64 ∧ addr ≠ mapFailed ∧
      0x01000000 ≤ len ∧ flags.testBit mapAnonymous ∧ NamesWindow (s.preferred hint 0x40).1 := by
  simp [opensWindow, and_assoc]

theorem finishMmap_window (fd off : Nat) (hopens : opensWindow L s hint addr len flags) :
    let out := finishMmap L s env hint addr len flags fd off
    out.1 = some (pageDown (s.preferred hint 0x40).1) ∧ out.2.arenas = s.arenas ∧
      out.2.hostMaps = s.hostMaps ∧
      SetsWindow s out.2 (hiWord (s.preferred hint 0x40).1)
        { base := addr, size := pageRound32 len } := by
  obtain ⟨hkeep, harenas, -⟩ := preferred_frame s hint 0x40
  obtain ⟨harm, haddr, hlarge, hanon, hne, hzero, hbig⟩ := (opensWindow_iff L s).mp hopens
  have hhi : ¬ (hiWord (s.preferred hint 0x40).1 = 0 ∨
      0xffff < hiWord (s.preferred hint 0x40).1) := by omega
  rw [finishMmap, if_pos ⟨harm, haddr, hlarge, hanon⟩]
  simp only [if_pos hne, a64RecordPrefAlias, if_neg hhi]
  exact ⟨trivial, harenas, hkeep.hostMaps, setAlias_setsWindow s hint 0x40 ..⟩

/-- The common end answers with the backing address, filled from the file if there is
one. -/
theorem finishMmap_direct (fd off : Nat) (hopens : opensWindow L s hint addr len flags = false) :
    let out := finishMmap L s env hint addr len flags fd off
    out.1 = retAddr L addr ∧ out.2.arenas = s.arenas ∧ KeepsWindows s out.2 ∧
      out.2.mem = s.mem.copyIn addr (fetched env flags fd len off) := by
  obtain ⟨hkeep, harenas, hmem⟩ := preferred_frame s hint 0x40
  have hnothing : s.mem.copyIn addr [] = s.mem := HostMemory.copyIn_nil s.mem addr
  by_cases hlarge : L.isArm64 ∧ addr ≠ mapFailed ∧ 0x01000000 ≤ len ∧ flags.testBit mapAnonymous
  · have hnames : ¬ NamesWindow (s.preferred hint 0x40).1 := fun h => by
      have := (opensWindow_iff L s).mpr ⟨hlarge.1, hlarge.2.1, hlarge.2.2.1, hlarge.2.2.2, h⟩
      rw [hopens] at this
      simp at this
    have hfetched : fetched env flags fd len off = [] := by
      rw [fetched, if_neg (by simp [hlarge.2.2.2])]
    rw [hfetched, hnothing, finishMmap, if_pos hlarge]
    simp only
    split
    · rename_i hne
      have hhi : hiWord (s.preferred hint 0x40).1 = 0 ∨
          0xffff < hiWord (s.preferred hint 0x40).1 := by
        by_contra hnot
        exact hnames ⟨hne, by omega, by omega⟩
      simp only [a64RecordPrefAlias, if_pos hhi]
      exact ⟨trivial, harenas, hkeep, hmem⟩
    · exact ⟨rfl, harenas, hkeep, hmem⟩
  · rw [finishMmap, if_neg hlarge, fetched]
    split
    · cases env.pread fd len off with
      | none => exact ⟨rfl, rfl, .refl s, hnothing.symm⟩
      | some bytes => exact ⟨rfl, rfl, ⟨rfl, rfl, rfl, rfl⟩, rfl⟩
    · exact ⟨rfl, rfl, .refl s, hnothing.symm⟩

theorem finishMmap_arenas (hint addr len flags fd off : Nat) :
    (finishMmap L s env hint addr len flags fd off).2.arenas = s.arenas := by
  cases hopens : opensWindow L s hint addr len flags with
  | false => exact (finishMmap_direct L s env fd off hopens).2.1
  | true => exact (finishMmap_window L s env fd off hopens).2.1

end Pieces

/-! ## The whole call -/

/-- The range a call took out of the free space, of the rounded length asked for unless the wrapper
short-mapped. -/
structure ArenaSpan (raw : Bool) (L : Layout) (s : AddressSpace) (c : MmapCall)
    (addr len : Nat) (a : Arenas) : Prop extends s.arenas.Takes L a addr len where
  below : addr + len ≤ 2 ^ 32
  base_le : mmapBase ≤ addr
  ne_failed : addr ≠ mapFailed
  want : pageRound32 (svcArg L s c.len) ≠ 0
  libraries : HeapHalfClear L s.loaded →
    ∀ r ∈ s.loaded, Interval.Misses ⟨addr, addr + len⟩ r.span
  fullLength : shortMaps L s.loaded s.arenas (svcArg L s c.len) (allowsSplit raw L s c) = false →
    len = pageRound32 (svcArg L s c.len)

/-- What one call does, and its answer: the case the handler took, with the guards it passed. -/
inductive MmapOutcome (raw : Bool) (L : Layout) (s : AddressSpace) (env : HostEnv)
    (c : MmapCall) : Option Nat → AddressSpace → Prop
  | refused {s' : AddressSpace} (hcons : s.arenas.Consumes L s'.arenas)
      (hkeep : KeepsWindows s s') (hmem : s'.mem = s.mem) : MmapOutcome raw L s env c none s'
  | fixed {s' : AddressSpace} (hfixed : fixedCall L s c = true)
      (hclear : guestRangeHitsLoaded s.loaded (svcArg L s c.addr) (svcArg L s c.len) = false)
      (hopens : opensWindow L s c.addr (svcArg L s c.addr) (svcArg L s c.len)
        (svcArg L s c.flags) = false)
      (harenas : s'.arenas = s.arenas) (hkeep : KeepsWindows s s')
      (hmem : s'.mem = s.mem.copyIn (svcArg L s c.addr)
        (fetchedBytes L s env c (svcArg L s c.len))) :
      MmapOutcome raw L s env c (retAddr L (svcArg L s c.addr)) s'
  | fixedWindow {s' : AddressSpace} (hfixed : fixedCall L s c = true)
      (hopens : opensWindow L s c.addr (svcArg L s c.addr) (svcArg L s c.len)
        (svcArg L s c.flags) = true)
      (harenas : s'.arenas = s.arenas) (hhosts : s'.hostMaps = s.hostMaps)
      (hset : SetsWindow s s' (hiWord c.addr)
        { base := svcArg L s c.addr, size := pageRound32 (svcArg L s c.len) }) :
      MmapOutcome raw L s env c (some (pageDown c.addr)) s'
  | lazyWindow {s' : AddressSpace} (hfixed : fixedCall L s c = false)
      (hlazy : lazyCall raw L s c = true) (hwindow : windowCall L s c = true)
      (hwant : pageRound32 (svcArg L s c.len) ≠ 0)
      (hnames : NamesWindow (preferredAddr raw L s c)) (harenas : s'.arenas = s.arenas)
      (hhosts : s'.hostMaps = s.hostMaps)
      (hset : SetsWindow s s' (hiWord (preferredAddr raw L s c))
        { size := pageRound32 (svcArg L s c.len), lazy := true }) :
      MmapOutcome raw L s env c (some (pageDown (preferredAddr raw L s c))) s'
  | overflowWindow {s' : AddressSpace} (hfixed : fixedCall L s c = false)
      (hlazy : lazyCall raw L s c = false) (hwindow : windowCall L s c = true)
      (hwant : pageRound32 (svcArg L s c.len) ≠ 0)
      (hnames : NamesWindow (preferredAddr raw L s c)) (hcons : s.arenas.Consumes L s'.arenas)
      (hhosts : s'.hostMaps = s.hostMaps + 1)
      (hset : SetsWindow s s' (hiWord (preferredAddr raw L s c))
        { size := pageRound32 (svcArg L s c.len), overflowBase := some s.hostMaps }) :
      MmapOutcome raw L s env c (some (pageDown (preferredAddr raw L s c))) s'
  | arenaWindow {s' : AddressSpace} {addr len : Nat} (hfixed : fixedCall L s c = false)
      (hlazy : lazyCall raw L s c = false) (hwindow : windowCall L s c = true)
      (hnames : NamesWindow (preferredAddr raw L s c))
      (hspan : ArenaSpan raw L s c addr len s'.arenas) (hhosts : s'.hostMaps = s.hostMaps)
      (hset : SetsWindow s s' (hiWord (preferredAddr raw L s c))
        { base := addr, size := pageRound32 (svcArg L s c.len) }) :
      MmapOutcome raw L s env c (some (pageDown (preferredAddr raw L s c))) s'
  | direct {s' : AddressSpace} {addr len : Nat} (hfixed : fixedCall L s c = false)
      (hlazy : lazyCall raw L s c = false)
      (hspan : ArenaSpan raw L s c addr len s'.arenas) (hkeep : KeepsWindows s s')
      (hmem : s'.mem = s.mem.copyIn addr
        (fetchedBytes L s env c (pageRound32 (svcArg L s c.len)))) :
      MmapOutcome raw L s env c (retAddr L addr) s'

section Handler

variable {raw : Bool} {L : Layout} {s : AddressSpace} {env : HostEnv} {c : MmapCall}

theorem MmapOutcome.loaded {result : Option Nat} {s' : AddressSpace}
    (h : MmapOutcome raw L s env c result s') : s'.loaded = s.loaded := by
  cases h with
  | refused _ h | fixed _ _ _ _ h | fixedWindow _ _ _ _ h | lazyWindow _ _ _ _ _ _ _ h
  | overflowWindow _ _ _ _ _ _ _ h | arenaWindow _ _ _ _ _ _ h | direct _ _ _ h => exact h.loaded

theorem windowCall_of_large (harm : L.isArm64)
    (hanon : (svcArg L s c.flags).testBit mapAnonymous) {len : Nat}
    (hlarge : 0x01000000 ≤ len) (hle : len ≤ roundUp (svcArg L s c.len) 4096) :
    windowCall L s c := by
  simp only [windowCall, harm, hanon, Bool.true_and, decide_eq_true_eq]
  omega

theorem le_pageRound (len : Nat) : len ≤ roundUp len 4096 := le_roundUp (by decide) len

theorem pageRound32_le (len : Nat) : pageRound32 len ≤ roundUp len 4096 := by
  simp only [pageRound32, roundUp, roundDown, u32]
  omega

theorem preferred_of_fixedCall (hfixed : fixedCall L s c) (limit : Nat) :
    (s.preferred c.addr limit).1 = c.addr := by
  have hne : c.addr ≠ 0 := by
    intro hzero
    rw [fixedCall, hzero, svcArg_of_lt (by norm_num)] at hfixed
    simp at hfixed
  rw [AddressSpace.preferred, if_pos hne]

theorem fixedBranch_outcome (hfixed : fixedCall L s c)
    (hclear : guestRangeHitsLoaded s.loaded (svcArg L s c.addr) (svcArg L s c.len) = false) :
    let out := finishMmap L s env c.addr (svcArg L s c.addr) (svcArg L s c.len)
      (svcArg L s c.flags) (svcArg L s c.fd) (usedOffset L s c)
    MmapOutcome raw L s env c out.1 out.2 := by
  intro out
  cases hopens : opensWindow L s c.addr (svcArg L s c.addr) (svcArg L s c.len)
      (svcArg L s c.flags) with
  | false =>
    obtain ⟨hres, harenas, hkeep, hmem⟩ := finishMmap_direct L s env _ (usedOffset L s c) hopens
    rw [hres]
    exact .fixed hfixed hclear hopens harenas hkeep hmem
  | true =>
    obtain ⟨hres, harenas, hhosts, hset⟩ := finishMmap_window L s env _ (usedOffset L s c) hopens
    rw [preferred_of_fixedCall hfixed] at hres hset
    rw [hres]
    exact .fixedWindow hfixed hopens harenas hhosts hset

section

variable (hwf : s.arenas.WellFormed L) (hfixed : fixedCall L s c = false)
include hwf hfixed

theorem lazyBranch_outcome (hlazy : lazyCall raw L s c) :
    let out := reserveLazy s c.addr (svcArg L s c.len)
    MmapOutcome raw L s env c out.1 out.2 := by
  intro out
  obtain ⟨harenas, hhosts, hres⟩ := reserveLazy_cases s c.addr _
  have hpref : (s.preferred c.addr 0x40).1 = preferredAddr raw L s c := by
    rw [preferredAddr, slotLimit, if_neg (by simp [hlazy])]
  have hwindow : windowCall L s c := by
    simp only [lazyCall, isReservation, Bool.and_eq_true, decide_eq_true_eq] at hlazy
    exact windowCall_of_large hlazy.1.1.2 hlazy.1.2.1 hlazy.2 (le_pageRound _)
  rcases hres with ⟨hnone, hkeep, hmem⟩ | ⟨hnames, hwant, hsome, hset⟩
  · rw [show out.1 = none from hnone]
    exact .refused (by rw [harenas]; exact .refl hwf) hkeep hmem
  · rw [hpref] at hnames hsome hset
    rw [show out.1 = _ from hsome]
    exact .lazyWindow hfixed hlazy hwindow hwant hnames harenas hhosts hset

/-- The arena branch, when the arenas refuse and the host steps in. -/
theorem overflowBranch_outcome (hlazy : lazyCall raw L s c = false) (hwindow : windowCall L s c)
    {bumped : Nat × Arenas} (hbumped : bumped = mmapBumpExact L s.loaded s.arenas (svcArg L s c.len)
      (allowsSplit raw L s c)) (hfail : bumped.1 = mapFailed) :
    let out := overflowMmap { s with arenas := bumped.2 } env c.addr (svcArg L s c.len)
    MmapOutcome raw L s env c out.1 out.2 := by
  intro out
  obtain ⟨len, hspec, -⟩ := mmapBumpExact_spec hwf s.loaded _ (allowsSplit raw L s c)
  rw [← hbumped] at hspec
  have hcons : s.arenas.Consumes L bumped.2 := hspec.consumes
  obtain ⟨harenas, hres⟩ := overflowMmap_cases { s with arenas := bumped.2 } env c.addr
    (svcArg L s c.len)
  have hpref : (AddressSpace.preferred { s with arenas := bumped.2 } c.addr 0xff).1 =
      preferredAddr raw L s c := by
    rw [preferredAddr, slotLimit, if_pos (by simp [hlazy, ← hbumped, hfail])]
    apply preferred_congr
    rfl
  rcases hres with ⟨hnone, hkeep, hmem⟩ | ⟨hnames, hwant, hsome, hhosts, hset⟩
  · rw [show out.1 = none from hnone]
    exact .refused (by rw [harenas]; exact hcons) { hkeep with } hmem
  · rw [hpref] at hnames hsome hset
    rw [show out.1 = _ from hsome]
    exact .overflowWindow hfixed hlazy hwindow hwant hnames (by rw [harenas]; exact hcons) hhosts
      { hset with }

/-- The arena branch, when the arenas have placed the mapping. -/
theorem arenaBranch_outcome (hlazy : lazyCall raw L s c = false) {bumped : Nat × Arenas}
    (hbumped : bumped = mmapBumpExact L s.loaded s.arenas (svcArg L s c.len)
      (allowsSplit raw L s c)) (hne : bumped.1 ≠ mapFailed) (bytes : Nat) :
    let out := finishMmap L { s with arenas := bumped.2, protNoneBytes := bytes } env c.addr
      bumped.1 (pageRound32 (svcArg L s c.len)) (svcArg L s c.flags) (svcArg L s c.fd)
      (usedOffset L s c)
    MmapOutcome raw L s env c out.1 out.2 := by
  intro out
  have hwant : pageRound32 (svcArg L s c.len) ≠ 0 := mmapBumpExact_want (hbumped ▸ hne)
  have hlimit : slotLimit raw L s c = 0x40 := by
    rw [slotLimit, if_neg]
    simp only [Bool.and_eq_true, beq_iff_eq, not_and]
    exact fun _ => hbumped ▸ hne
  obtain ⟨len, hspec, hlen, -⟩ := mmapBumpExact_spec hwf s.loaded _ (allowsSplit raw L s c)
  rw [← hbumped] at hspec
  rcases hspec with ⟨hfail, -⟩ | ⟨htakes, hbelow, hbase, hregions⟩
  · exact absurd hfail hne
  have hspan : ∀ a, a = bumped.2 → ArenaSpan raw L s c bumped.1 len a := by
    rintro a rfl
    exact ⟨htakes, hbelow, hbase, hne, hwant, hregions, hlen⟩
  cases hopens : opensWindow L { s with arenas := bumped.2, protNoneBytes := bytes } c.addr
      bumped.1 _ _ with
  | false =>
    obtain ⟨hres, harenas, hkeep, hmem⟩ := finishMmap_direct L _ env _ (usedOffset L s c) hopens
    rw [show out.1 = _ from hres]
    exact .direct hfixed hlazy (hspan _ harenas) { hkeep with } hmem
  | true =>
    obtain ⟨harm, -, hbig, hanon, hnames⟩ := (opensWindow_iff L _).mp hopens
    obtain ⟨hres, harenas, hhosts, hset⟩ := finishMmap_window L _ env _ (usedOffset L s c) hopens
    have hpref : (AddressSpace.preferred { s with arenas := bumped.2, protNoneBytes := bytes }
        c.addr 0x40).1 = preferredAddr raw L s c := by
      rw [preferredAddr, hlimit]
      apply preferred_congr
      rfl
    rw [hpref] at hnames hres hset
    rw [pageRound32_idem] at hset
    rw [show out.1 = _ from hres]
    exact .arenaWindow hfixed hlazy
      (windowCall_of_large harm hanon hbig (pageRound32_le _)) hnames (hspan _ harenas) hhosts
      { hset with }

end

/-- **One call of either handler** does one of the things `MmapOutcome` lists. -/
theorem mmapHandler_outcome (hwf : s.arenas.WellFormed L) (raw : Bool) (env : HostEnv)
    (c : MmapCall) :
    MmapOutcome raw L s env c (mmapHandler raw L s env c).1 (mmapHandler raw L s env c).2 := by
  have hrefuse : MmapOutcome raw L s env c none s := .refused (.refl hwf) (.refl s) rfl
  have hoff : (if c.pageOffset = true then u32 (svcArg L s c.off * 4096)
      else svcArg L s c.off) = usedOffset L s c := rfl
  rw [mmapHandler]
  simp only [hoff]
  split
  · rename_i hbranch
    have hfixed : fixedCall L s c := by simpa [fixedCall] using hbranch
    split
    · exact hrefuse
    · rename_i hclear
      exact fixedBranch_outcome hfixed (Bool.not_eq_true _ ▸ hclear)
  rename_i hbranch
  have hfixed : fixedCall L s c = false := by simpa [fixedCall] using hbranch
  split
  · exact hrefuse
  split
  · rename_i hlazyBranch
    exact lazyBranch_outcome hwf hfixed (by simpa [lazyCall, and_assoc] using hlazyBranch)
  rename_i hlazyBranch
  have hlazy : lazyCall raw L s c = false := by
    rw [← Bool.not_eq_true]
    intro h
    exact hlazyBranch (by simpa [lazyCall, and_assoc] using h)
  split
  · rename_i hfail
    split
    · rename_i hlarge
      simp only [Bool.and_eq_true, decide_eq_true_eq] at hlarge
      exact overflowBranch_outcome hwf hfixed hlazy
        (windowCall_of_large hlarge.1.1.2 hlarge.1.2 hlarge.2 (le_pageRound _)) rfl hfail
    · obtain ⟨len, hspec, -⟩ := mmapBumpExact_spec hwf s.loaded _ (allowsSplit raw L s c)
      exact .refused hspec.consumes ⟨rfl, rfl, rfl, rfl⟩ rfl
  · rename_i hne
    split
    · exact arenaBranch_outcome hwf hfixed hlazy rfl hne _
    · exact arenaBranch_outcome hwf hfixed hlazy rfl hne s.protNoneBytes

def afterRequest (L : Layout) (s : AddressSpace) : Option (Nat × Bool) → Arenas
  | none => s.arenas
  | some (len, allowSplit) => (mmapBumpExact L s.loaded s.arenas len allowSplit).2

/-- What an `mmap` asks of the arenas: nothing for a fixed address, for a refused reservation and
for a lazy one. -/
def mmapRequest (raw : Bool) (L : Layout) (s : AddressSpace) (c : MmapCall) : Option (Nat × Bool) :=
  if fixedCall L s c then none
  else if (raw ∨ !L.isArm64) ∧ isReservation (svcArg L s c.prot) (svcArg L s c.flags) ∧
      !mmapProtNoneBudgetOk L s (svcArg L s c.len) then none
  else if lazyCall raw L s c then none
  else some (svcArg L s c.len, allowsSplit raw L s c)

section

variable (raw : Bool) (L : Layout) (s : AddressSpace) (env : HostEnv) (c : MmapCall)

/-- The arenas change only through the exact-length wrapper, and for this request. -/
theorem mmapHandler_request :
    (mmapHandler raw L s env c).2.arenas = afterRequest L s (mmapRequest raw L s c) := by
  rw [mmapHandler]
  simp only
  split
  · rename_i hfixed
    have hcall : fixedCall L s c := by simpa [fixedCall] using hfixed
    rw [mmapRequest]
    split
    · rfl
    · exact finishMmap_arenas L s env ..
  rename_i hfixed
  have hcall : ¬ fixedCall L s c := by simpa [fixedCall] using hfixed
  rw [mmapRequest]
  split
  · rfl
  split
  · rename_i hlazy
    have hlazyCall : lazyCall raw L s c := by simpa [lazyCall, and_assoc] using hlazy
    rw [if_pos hlazyCall]
    exact (reserveLazy_cases s ..).1
  rename_i hlazy
  have hlazyCall : ¬ lazyCall raw L s c := by simpa [lazyCall] using hlazy
  split
  · split
    · exact (overflowMmap_cases _ env ..).1
    · rfl
  · rw [finishMmap_arenas]
    split <;> rfl

theorem mmapHandler_arenas : (mmapHandler raw L s env c).2.arenas = s.arenas ∨
      ∃ len allowSplit, (mmapHandler raw L s env c).2.arenas =
        (mmapBumpExact L s.loaded s.arenas len allowSplit).2 := by
  rw [mmapHandler_request]
  cases mmapRequest raw L s c with
  | none => exact .inl rfl
  | some asked => exact .inr ⟨asked.1, asked.2, rfl⟩

end

end Handler

/-! ## munmap, mprotect and library loads -/

/-- The unmapped address lies in a lazy reservation, which never touches the arenas. -/
def lazyMunmap (addr : Nat) : Bool :=
  L.isArm64 && (s.aliases (hiWord addr)).any (·.lazy)

def commitSize (len : Nat) : Nat := pageRound32 (u32 len)

/-- One committed segment covers the whole range already. -/
def A64PrefAlias.coversRange (window : A64PrefAlias) (off size : Nat) : Bool :=
  window.committed.any fun seg => seg.guestOff ≤ off && off + size ≤ seg.guestOff + seg.size

def A64PrefAlias.commit (window : A64PrefAlias) (seg : A64BackingSegment) : A64PrefAlias :=
  { window with committed := window.committed ++ [seg] }

/-- The guards a commit passes before it asks for backing. -/
structure OpensSegment (L : Layout) (s : AddressSpace) (addr len : Nat)
    (window : A64PrefAlias) : Prop where
  arm64 : L.isArm64 = true
  entry : s.aliases (hiWord addr) = some window
  lazy : window.lazy = true
  size_ne : commitSize len ≠ 0
  fits : loWord addr + commitSize len ≤ window.size
  uncovered : window.coversRange (loWord addr) (commitSize len) = false

/-- What one `mprotect` does, and whether it succeeds. -/
inductive MprotectOutcome (L : Layout) (s : AddressSpace) (addr len : Nat) :
    Bool → AddressSpace → Prop
  | passed (h : (∀ window, L.isArm64 = true → s.aliases (hiWord addr) = some window →
      window.lazy = false) ∨ commitSize len = 0) : MprotectOutcome L s addr len true s
  | outside : MprotectOutcome L s addr len false s
  | covered {window : A64PrefAlias} (hentry : s.aliases (hiWord addr) = some window)
      (hlazy : window.lazy = true)
      (hcovered : window.coversRange (loWord addr) (commitSize len) = true) :
      MprotectOutcome L s addr len true s
  | refused {a : Arenas} (hcons : s.arenas.Consumes L a) :
      MprotectOutcome L s addr len false { s with arenas := a }
  | committedArena {a : Arenas} {window : A64PrefAlias} {backing : Nat}
      (hopen : OpensSegment L s addr len window)
      (htakes : s.arenas.Takes L a backing (commitSize len))
      (hbelow : backing + commitSize len ≤ 2 ^ 32) (hbase : mmapBase ≤ backing)
      (hlibs : HeapHalfClear L s.loaded →
        ∀ r ∈ s.loaded, Interval.Misses ⟨backing, backing + commitSize len⟩ r.span) :
      MprotectOutcome L s addr len true
        ({ s with arenas := a }.setAlias (hiWord addr)
          (window.commit ⟨loWord addr, backing, commitSize len, none⟩))
  | committedHost {a : Arenas} {window : A64PrefAlias}
      (hopen : OpensSegment L s addr len window) (hcons : s.arenas.Consumes L a) :
      MprotectOutcome L s addr len true
        { ({ s with arenas := a }.setAlias (hiWord addr)
            (window.commit ⟨loWord addr, mapFailed, commitSize len, some s.hostMaps⟩)) with
          hostMaps := s.hostMaps + 1 }

section Others

variable {L : Layout} {s : AddressSpace}

section

variable (L : Layout) (s : AddressSpace) (addr len : Nat)

/-- **One munmap call.** A lazy window gives up a tail at most; everything else is a matter of the
arenas. -/
theorem svcLibcMunmap_cases : lazyMunmap L s addr ∧ (svcLibcMunmap L s addr len = s ∨
      ∃ window, s.aliases (hiWord addr) = some window ∧ svcLibcMunmap L s addr len =
          s.setAlias (hiWord addr) { window with size := loWord addr }) ∨
    lazyMunmap L s addr = false ∧
      svcLibcMunmap L s addr len = munmapArena L s (svcArg L s addr) (svcArg L s len) := by
  rw [svcLibcMunmap]
  split
  · rename_i window hwindow
    split at hwindow
    · rename_i harm
      have hlazyEq : lazyMunmap L s addr = window.lazy := by simp [lazyMunmap, harm, hwindow]
      rw [hlazyEq]
      split
      · rename_i hlazy
        simp only
        split
        · exact .inl ⟨hlazy, .inr ⟨window, hwindow, rfl⟩⟩
        · exact .inl ⟨hlazy, .inl rfl⟩
      · rename_i hlazy
        exact .inr ⟨Bool.not_eq_true _ ▸ hlazy, rfl⟩
    · cases hwindow
  · rename_i hwindow
    refine .inr ⟨?_, rfl⟩
    cases harm : L.isArm64 <;> simp_all [lazyMunmap]

theorem svcLibcMunmap_arenas : (svcLibcMunmap L s addr len).arenas = s.arenas ∨
      (lazyMunmap L s addr = false ∧ ∃ i slab primary,
        findReclaim L s.arenas (svcArg L s addr) (svcArg L s addr + svcArg L s len) =
          some (i, slab, primary) ∧ (svcLibcMunmap L s addr len).arenas =
          s.arenas.reclaim i slab primary (svcArg L s addr)) := by
  rcases svcLibcMunmap_cases L s addr len with ⟨-, heq | ⟨window, -, heq⟩⟩ | ⟨hlazy, heq⟩
  · exact .inl (by rw [heq])
  · exact .inl (by rw [heq]; rfl)
  rw [heq, munmapArena]
  split
  · exact .inl rfl
  · rename_i i slab primary hfind
    exact .inr ⟨hlazy, i, slab, primary, hfind, rfl⟩

/-- An `munmap` keeps libraries, bytes and host mappings, and shortens windows at most. -/
theorem svcLibcMunmap_frame :
    let s' := svcLibcMunmap L s addr len
    s'.loaded = s.loaded ∧ s'.libLoadEnd = s.libLoadEnd ∧ s'.mem = s.mem ∧
      s'.hostMaps = s.hostMaps ∧ ∀ hi window', s'.aliases hi = some window' →
        ∃ window size, s.aliases hi = some window ∧ window' = { window with size } := by
  have hsame : ∀ hi window', s.aliases hi = some window' →
      ∃ window size, s.aliases hi = some window ∧ window' = { window with size } :=
    fun hi window' h => ⟨window', window'.size, h, rfl⟩
  rcases svcLibcMunmap_cases L s addr len with ⟨-, heq | ⟨window, hentry, heq⟩⟩ | ⟨-, heq⟩
  · rw [heq]
    exact ⟨rfl, rfl, rfl, rfl, hsame⟩
  · rw [heq]
    refine ⟨rfl, rfl, rfl, rfl, fun hi window' h => ?_⟩
    simp only [AddressSpace.setAlias] at h
    split at h
    · subst hi
      exact ⟨window, loWord addr, hentry, (some.inj h).symm⟩
    · exact hsame hi window' h
  · rw [heq, munmapArena]
    split
    · exact ⟨rfl, rfl, rfl, rfl, hsame⟩
    refine ⟨rfl, rfl, rfl, rfl, fun hi window' h => ?_⟩
    obtain ⟨window, hentry, rfl⟩ := map_eq_some_iff.mp h
    split
    · exact ⟨window, _, hentry, rfl⟩
    · exact ⟨window, window.size, hentry, rfl⟩

end

/-- Reclaiming a tail frees at most the arena from the reset pointer on. -/
theorem reclaim_spec (hwf : s.arenas.WellFormed L) {r0 unmapEnd i : Nat} {slab : Interval}
    {primary : Bool} (hfind : findReclaim L s.arenas r0 unmapEnd = some (i, slab, primary)) :
    (s.arenas.reclaim i slab primary r0).WellFormed L ∧
      ∀ x, (s.arenas.reclaim i slab primary r0).Free L x → s.arenas.Free L x ∨
        x ∈ (⟨r0, if primary then L.mmapEnd else L.mmap2EndExcl⟩ : Interval).addresses := by
  obtain ⟨j, -, hj⟩ := exists_of_findSome?_eq_some hfind
  obtain ⟨slab', -, hmap⟩ := bind_eq_some_iff.mp hj
  obtain ⟨primary', hreclaim, heq⟩ := map_eq_some_iff.mp hmap
  cases heq
  have hprimary := hwf.primary
  have hsecond := hwf.secondary
  rw [reclaimable] at hreclaim
  split at hreclaim
  · simp at hreclaim
  simp only at hreclaim
  split at hreclaim
  · cases hreclaim
    refine ⟨⟨?_, hsecond, hwf.small, hwf.floor⟩, ?_⟩
    · simp only [Arenas.reclaim, if_true]
      omega
    intro x hx
    rw [Arenas.free_iff] at hx ⊢
    rcases hx with hx | hx
    · exact .inr hx
    · exact .inl (.inr hx)
  split at hreclaim
  · cases hreclaim
    refine ⟨⟨hprimary, ?_, hwf.small, hwf.floor⟩, ?_⟩
    · simp only [Arenas.secondaryNext, Arenas.reclaim, Bool.false_eq_true, if_false]
      split <;> omega
    intro x hx
    rw [Arenas.free_iff] at hx ⊢
    rcases hx with hx | hx | hx
    · exact .inl (.inl hx)
    · simp only [Arenas.secondaryNext, Arenas.reclaim] at hx ⊢
      cases hactive : s.arenas.mmap2Active with
      | true =>
        simp only [hactive] at hx
        exact .inr ⟨hx.2.1, hx.2.2⟩
      | false =>
        simp only [hactive] at hx
        exact .inl (.inr (.inl hx))
    · exact .inl (.inr (.inr hx))
  · simp at hreclaim

/-- **One mprotect call** does one of the things `MprotectOutcome` lists. -/
theorem svcMprotect_outcome (hwf : s.arenas.WellFormed L) (env : HostEnv) (addr len : Nat) :
    MprotectOutcome L s addr len (svcMprotect L s env addr len).1
      (svcMprotect L s env addr len).2 := by
  obtain ⟨got, hspec, hfull, -⟩ := mmapBumpExact_spec hwf s.loaded _ false
  rw [svcMprotect]
  simp only
  split
  · rename_i hnone
    refine .passed (.inl fun window harm hentry => ?_)
    rw [if_pos harm, hentry] at hnone
    simp at hnone
  rename_i window hsome
  obtain ⟨harm, hentry⟩ : L.isArm64 ∧ s.aliases (hiWord addr) = some window := by
    split at hsome
    · exact ⟨‹_›, hsome⟩
    · simp at hsome
  split
  · rename_i hpass
    refine .passed (hpass.imp (fun hlazy window' _ hentry' => ?_) id)
    obtain rfl := some.inj (hentry.symm.trans hentry')
    simpa using hlazy
  rename_i hcommit
  simp only [not_or, Bool.not_eq_true', Bool.not_eq_false] at hcommit
  split
  · exact .outside
  rename_i hfits
  split
  · rename_i hcovered
    exact .covered hentry hcommit.1 hcovered
  rename_i hnew
  have hopen : OpensSegment L s addr len window :=
    ⟨harm, hentry, hcommit.1, hcommit.2, not_lt.mp hfits, Bool.not_eq_true _ ▸ hnew⟩
  split
  · rename_i hfail
    split
    · rw [hfail]
      exact .committedHost hopen hspec.consumes
    · exact .refused hspec.consumes
  · rename_i hne
    rcases hspec with ⟨hfail, -⟩ | ⟨htakes, hbelow, hbase, hlibs⟩
    · exact absurd hfail hne
    · have hgot : got = commitSize len :=
        (hfull (by simp [shortMaps])).trans (pageRound32_idem _)
      subst hgot
      exact .committedArena hopen htakes hbelow hbase hlibs

theorem svcMprotect_arenas (hwf : s.arenas.WellFormed L) (env : HostEnv) (addr len : Nat) :
    s.arenas.Consumes L (svcMprotect L s env addr len).2.arenas ∧
      (svcMprotect L s env addr len).2.loaded = s.loaded := by
  have houtcome := svcMprotect_outcome hwf env addr len
  generalize svcMprotect L s env addr len = out at houtcome
  obtain ⟨ok, s'⟩ := out
  cases houtcome with
  | passed | outside | covered => exact ⟨.refl hwf, rfl⟩
  | refused hcons => exact ⟨hcons, rfl⟩
  | committedArena _ htakes => exact ⟨htakes.toConsumes, rfl⟩
  | committedHost _ hcons => exact ⟨hcons, rfl⟩

/-- What an `mprotect` asks of the arenas: the backing of a range of a lazy window that has none
yet. -/
def mprotectRequest (L : Layout) (s : AddressSpace) (addr len : Nat) : Option (Nat × Bool) :=
  (if L.isArm64 then s.aliases (hiWord addr) else none).bind fun window =>
    if !window.lazy ∨ commitSize len = 0 then none
    else if window.size < loWord addr + commitSize len then none
    else if window.coversRange (loWord addr) (commitSize len) then none
    else some (commitSize len, false)

section

variable (L : Layout) (s : AddressSpace) (env : HostEnv) (addr len : Nat)

theorem svcMprotect_request :
    (svcMprotect L s env addr len).2.arenas = afterRequest L s (mprotectRequest L s addr len) := by
  rw [svcMprotect, mprotectRequest]
  generalize (if L.isArm64 = true then s.aliases (hiWord addr) else none) = entry
  cases entry with
  | none => rfl
  | some window =>
    simp only [bind_some]
    have hcommit : pageRound32 (u32 len) = commitSize len := rfl
    have hcovers : (window.committed.any fun seg => seg.guestOff ≤ loWord addr &&
        loWord addr + commitSize len ≤ seg.guestOff + seg.size) =
          window.coversRange (loWord addr) (commitSize len) := rfl
    rw [hcommit, hcovers]
    split
    · rfl
    split
    · rfl
    split
    · rfl
    · split
      · split <;> rfl
      · rfl

/-- The arenas change only through the exact-length wrapper, and on A32 not at all. -/
theorem svcMprotect_arenas_cases : (svcMprotect L s env addr len).2.arenas = s.arenas ∨
      L.isArm64 ∧ ∃ size, (svcMprotect L s env addr len).2.arenas =
        (mmapBumpExact L s.loaded s.arenas size false).2 := by
  rw [svcMprotect_request]
  by_cases harm : L.isArm64
  · cases hrequest : mprotectRequest L s addr len with
    | none => exact .inl rfl
    | some asked =>
      have hexact : asked = (commitSize len, false) := by
        obtain ⟨window, -, hwindow⟩ := bind_eq_some_iff.mp hrequest
        split_ifs at hwindow
        exact (some.inj hwindow).symm
      exact .inr ⟨harm, commitSize len, by rw [hexact]; rfl⟩
  · left
    rw [mprotectRequest, if_neg harm]
    rfl

end

theorem loadSegment_frame (base : Nat) (s : AddressSpace) (seg : Segment) :
    (loadSegment base s seg).arenas = s.arenas ∧ (loadSegment base s seg).aliases = s.aliases := by
  rw [loadSegment]
  split <;> exact ⟨rfl, rfl⟩

theorem loadSegments_frame (base : Nat) (s : AddressSpace) (segs : List Segment) :
    (loadSegments base s segs).arenas = s.arenas ∧
      (loadSegments base s segs).aliases = s.aliases := by
  induction segs generalizing s with
  | nil => exact ⟨rfl, rfl⟩
  | cons seg segs ih =>
    obtain ⟨harenas, haliases⟩ := ih _
    obtain ⟨harenas', haliases'⟩ := loadSegment_frame base s seg
    exact ⟨harenas.trans harenas', haliases.trans haliases'⟩

theorem loadSegment_loaded_le (hloaded : ∀ r ∈ s.loaded, r.hi ≤ 2 ^ 32) (base : Nat)
    (seg : Segment) : ∀ r ∈ (loadSegment base s seg).loaded, r.hi ≤ 2 ^ 32 := by
  rw [loadSegment]
  split
  · exact hloaded
  rw [mapSegment]
  split
  · intro r hr
    rcases mem_append.mp hr with hold | hnew
    · exact hloaded r hold
    obtain rfl := mem_singleton.mp hnew
    have hround := roundDown_le (u32 (u32 (base + seg.vaddr) + seg.memsz + 0xfff)) 4096
    have hlt := u32_lt (u32 (base + seg.vaddr) + seg.memsz + 0xfff)
    simp only
    omega
  · exact hloaded

theorem loadSegments_loaded_le (hloaded : ∀ r ∈ s.loaded, r.hi ≤ 2 ^ 32) (base : Nat)
    (segs : List Segment) : ∀ r ∈ (loadSegments base s segs).loaded, r.hi ≤ 2 ^ 32 := by
  induction segs generalizing s with
  | nil => exact hloaded
  | cons seg segs ih => exact ih (loadSegment_loaded_le hloaded base seg)

end Others

end Lunaria
