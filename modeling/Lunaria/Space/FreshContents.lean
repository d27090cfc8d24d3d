/-
# What a new mapping reads as

A fresh anonymous mapping should read as zeros, and a file mapping as the bytes of
the file followed by zeros. No handler clears memory: they rely on the arena being
zero since start-up. That is sound exactly as long as the bytes that are not handed
out stay blank, which is the invariant of this module. A step is safe when it does
not dirty such bytes, and when a fixed mapping asks for bytes that are zero already.
-/

import Lunaria.Lib.Run
import Lunaria.Space.Resolve

namespace Lunaria

open Lib List Option

/-! ## The law -/

variable (raw : Bool) (L : Layout) (s : AddressSpace) (env : HostEnv)

/-- The file offset in bytes. The raw A64 call counts bytes, but is routed to the page-counting
handler. -/
def MmapCall.givenOffset (c : MmapCall) : Nat :=
  if c.pageOffset && !(raw && L.isArm64) then c.off * 4096 else c.off

/-- The contents a call asks for: zeros, or the bytes of an open file and zeros after
its end. -/
def MmapCall.contents (c : MmapCall) :
    Option (Nat → UInt8) :=
  if c.flags.testBit mapAnonymous then some fun _ => 0
  else if c.fd < 2 ^ 31 then
    (env.file c.fd).map fun bytes i => bytes.getD (c.givenOffset raw L + i) 0
  else none

/-- Every byte of the page-rounded range the call answers with reads as it should right
after the call. -/
def FreshContents
    (c : MmapCall) : Prop :=
  ∀ addr, (mmapHandler raw L s env c).1 = some addr →
    ∀ want, c.contents raw L env = some want → ∀ i, i < roundUp c.len 4096 →
      (guestLoad L (mmapHandler raw L s env c).2 (addr + i)).1 = want i

/-! ## Safe steps -/

/-- The registers a 32-bit handler looks at hold 32-bit values, and the offset survives
the way to the handler. -/
structure MmapCall.Fits (raw : Bool) (L : Layout) (s : AddressSpace) (c : MmapCall) : Prop where
  len_lt : c.len < 2 ^ 32
  flags_lt : c.flags < 2 ^ 32
  fd_lt : c.fd < 2 ^ 32
  offset : usedOffset L s c = c.givenOffset raw L

/-- A fixed mapping is fresh when the bytes no file fills are zero already, the file's bytes miss
unclaimed space, and its last page is not cut. -/
structure FixedFresh (raw : Bool) (L : Layout) (s : AddressSpace) (env : HostEnv)
    (c : MmapCall) : Prop where
  below : svcArg L s c.addr + roundUp c.len 4096 ≤ 2 ^ 32
  window : opensWindow L s c.addr (svcArg L s c.addr) (svcArg L s c.len)
    (svcArg L s c.flags) = true → PlainWindow c.addr
  zero : ∀ i, (fetchedBytes L s env c c.len).length ≤ i → i < roundUp c.len 4096 →
    s.mem.arena (svcArg L s c.addr + i) = 0
  wholePages : c.len % 4096 ≠ 0 → ∀ bytes, env.file c.fd = some bytes →
    bytes.length ≤ c.givenOffset raw L + c.len
  clear : fetchedBytes L s env c c.len ≠ [] → ∀ span ∈ s.arenas.freeSpans L,
    Interval.Misses ⟨svcArg L s c.addr, svcArg L s c.addr + c.len⟩ span

/-- A placed mapping is fresh when its window, if any, is an ordinary one, and it gets all its
memory. -/
structure PlacedFresh (raw : Bool) (L : Layout) (s : AddressSpace) (c : MmapCall) : Prop where
  window : windowCall L s c = true → NamesWindow (preferredAddr raw L s c) →
    PlainWindow (preferredAddr raw L s c)
  full : lazyCall raw L s c = false →
    shortMaps L s.loaded s.arenas (svcArg L s c.len) (allowsSplit raw L s c) = false

/-- A range of arena bytes that are handed out, and not the byte unbacked addresses
resolve to. -/
def Claimed (range : Interval) : Prop :=
  0 < range.lo ∧ ∀ span ∈ s.arenas.freeSpans L, range.Misses span
  deriving Decidable

/-- The steps after which new mappings still read as they should. -/
def FreshSafe : SpaceOp → Prop
  | .mmap raw env c => c.Fits raw L s ∧
      (fixedCall L s c = true → FixedFresh raw L s env c) ∧
      (fixedCall L s c = false → PlacedFresh raw L s c)
  | .munmap raw addr len => raw = false → ∀ x,
      (svcLibcMunmap L s addr len).arenas.Free L x → s.mem.arena x = 0
  | .mprotect _ _ _ => True
  | .load base segs => ∀ seg ∈ segs, seg.memsz ≠ 0 → seg.data ≠ [] →
      Claimed L s ⟨u32 (base + seg.vaddr), u32 (base + seg.vaddr) + seg.data.length⟩
  | .store va value => value = 0 ∨
      ∀ off, storeTarget L s va = some (.arena off) → Claimed L s ⟨off, off + 1⟩

/-! ## The invariant -/

/-- The host mappings a window refers to. -/
def A64PrefAlias.hosts (window : A64PrefAlias) : List Nat :=
  window.overflowBase.toList ++ window.committed.filterMap (·.overflowHost)

/-- Windows refer to host mappings that exist. -/
def HostsNamed : Prop :=
  ∀ hi window, s.aliases hi = some window → ∀ host ∈ window.hosts, host < s.hostMaps

/-- What is not handed out is blank: free arena space, the byte behind unbacked addresses, and host
mappings to come. -/
structure Blank (L : Layout) (s : AddressSpace) : Prop where
  wellFormed : s.arenas.WellFormed L
  free : ∀ x, s.arenas.Free L x → s.mem.arena x = 0
  unbacked : s.mem.arena 0 = 0
  unmade : ∀ host, s.hostMaps ≤ host → ∀ off, s.mem.overflow host off = 0
  named : HostsNamed s

theorem blank_initial : Blank L (.initial L) where
  wellFormed := Arenas.wellFormed_initial L
  free := fun _ _ => rfl
  unbacked := rfl
  unmade := fun _ _ _ => rfl
  named := fun _ _ h => by simp [AddressSpace.initial] at h

section Named

variable {s s' : AddressSpace}

theorem HostsNamed.of_aliases (h : HostsNamed s) (haliases : s'.aliases = s.aliases)
    (hhosts : s.hostMaps ≤ s'.hostMaps) : HostsNamed s' := by
  intro hi window hentry host hhost
  rw [haliases] at hentry
  exact (h hi window hentry host hhost).trans_le hhosts

theorem HostsNamed.set (h : HostsNamed s) {hi : Nat} {window : A64PrefAlias}
    (hset : s'.aliases = fun k => if k = hi then some window else s.aliases k)
    (hhosts : s.hostMaps ≤ s'.hostMaps) (hnew : ∀ host ∈ window.hosts, host < s'.hostMaps) :
    HostsNamed s' := by
  intro hi' window' hentry host hhost
  rw [congrFun hset hi'] at hentry
  by_cases hkey : hi' = hi
  · rw [if_pos hkey] at hentry
    cases hentry
    exact hnew host hhost
  · rw [if_neg hkey] at hentry
    exact (h hi' window' hentry host hhost).trans_le hhosts

/-- A lookup only ever leads into a host mapping that exists. -/
theorem HostsNamed.ptr_lt (h : HostsNamed s) {L : Layout} {va host off : Nat}
    (hptr : (s.ptr L va).1 = .overflow host off) : host < s.hostMaps := by
  rw [AddressSpace.ptr] at hptr
  split at hptr
  · simp at hptr
  simp only at hptr
  split at hptr
  · rename_i window hentry
    have hfound : s.aliases (hiWord va) = some window := by
      split at hentry
      · simp at hentry
      · exact hentry
    split at hptr
    · split at hptr
      · split at hptr
        · rename_i seg hseg
          rw [A64BackingSegment.hostPtr] at hptr
          cases hover : seg.overflowHost with
          | none => simp [hover] at hptr
          | some host' =>
            simp only [hover] at hptr
            obtain ⟨rfl, -⟩ := hptr
            refine h _ _ hfound _ (mem_append_right _ ?_)
            exact mem_filterMap.mpr ⟨seg, mem_of_getElem? hseg, hover⟩
        · simp at hptr
      · simp at hptr
    · split at hptr
      · rename_i host' hover
        obtain ⟨rfl, -⟩ := hptr
        exact h _ _ hfound _ (mem_append_left _ (by simp [hover]))
      · simp at hptr
  · simp at hptr

end Named

/-! ## Contents of one call -/

section Contents

variable {raw : Bool} {L : Layout} {s s' : AddressSpace} {env : HostEnv} {c : MmapCall}

/-- A byte copied in is the buffer's, or zero where the buffer ends over blank bytes. -/
theorem copyIn_arena {m : HostMemory} {a i : Nat} {bytes : List UInt8}
    (hblank : bytes.length ≤ i → m.arena (a + i) = 0) :
    (m.copyIn a bytes).arena (a + i) = bytes.getD i 0 := by
  simp only [HostMemory.copyIn, ByteMemory.writeBytes, Nat.le_add_right,
    Nat.add_sub_cancel_left, getD_eq_getElem?_getD]
  by_cases hi : i < bytes.length
  · simp [hi]
  · rw [getElem?_eq_none (not_lt.mp hi)]
    exact hblank (not_lt.mp hi)

theorem fetchedBytes_anonymous (hfits : c.Fits raw L s)
    (hanon : c.flags.testBit mapAnonymous) (count : Nat) : fetchedBytes L s env c count = [] := by
  rw [fetchedBytes, fetched, svcArg_of_lt hfits.flags_lt, if_neg (by simp [hanon])]

theorem fetchedBytes_length_le (L : Layout) (s : AddressSpace) (env : HostEnv) (c : MmapCall)
    (count : Nat) : (fetchedBytes L s env c count).length ≤ count := by
  rw [fetchedBytes, fetched]
  split
  · cases hfile : env.file (svcArg L s c.fd) with
    | none => simp [HostEnv.pread, hfile]
    | some bytes => simp [HostEnv.pread, hfile]
  · exact Nat.zero_le _

variable {want : Nat → UInt8}

theorem fetchedBytes_contents (hfits : c.Fits raw L s)
    (hwant : c.contents raw L env = some want) {count i : Nat} (hi : i < count) :
    (fetchedBytes L s env c count).getD i 0 = want i := by
  rw [MmapCall.contents] at hwant
  cases hanon : c.flags.testBit mapAnonymous with
  | true =>
    rw [if_pos hanon] at hwant
    cases hwant
    rw [fetchedBytes_anonymous hfits hanon]
    rfl
  | false =>
    rw [if_neg (by simp [hanon])] at hwant
    split at hwant
    · rename_i hfd
      obtain ⟨bytes, hfile, rfl⟩ := map_eq_some_iff.mp hwant
      rw [fetchedBytes, fetched, svcArg_of_lt hfits.flags_lt, svcArg_of_lt hfits.fd_lt,
        if_pos ⟨hfd, by simp [hanon]⟩, HostEnv.pread, hfile, hfits.offset]
      simp [hi]
    · simp at hwant

theorem contents_past_file (hwant : c.contents raw L env = some want)
    {i len : Nat} (hlen : len ≤ i) (hfile : ∀ bytes, env.file c.fd = some bytes →
      bytes.length ≤ c.givenOffset raw L + len) : want i = 0 := by
  rw [MmapCall.contents] at hwant
  split at hwant
  · cases hwant
    rfl
  split at hwant
  · obtain ⟨bytes, hbytes, rfl⟩ := map_eq_some_iff.mp hwant
    have := hfile bytes hbytes
    simp only [getD_eq_getElem?_getD]
    rw [getElem?_eq_none (by omega)]
    rfl
  · simp at hwant

theorem guestLoad_retAddr {off addr i : Nat} (hret : retAddr L off = some addr) (hne : off ≠ 0)
    (hlt : off + i < 2 ^ 32) : (guestLoad L s (addr + i)).1 = s.mem.arena (off + i) := by
  rw [retAddr] at hret
  cases harm : L.isArm64 with
  | true =>
    rw [if_pos harm, if_pos hne] at hret
    cases hret
    rw [guestLoad_arm64 harm, a64GuestVa_add, ptr_image hlt]
    rfl
  | false =>
    rw [if_neg (by simp [harm])] at hret
    split at hret
    · simp at hret
    · cases hret
      rw [guestLoad, if_neg (by simp [harm])]

theorem guestLoad_newWindow (harm : L.isArm64) {preferred i : Nat}
    {window : A64PrefAlias} (hnames : NamesWindow preferred) (hplain : PlainWindow preferred)
    (hset : SetsWindow s s' (hiWord preferred) window) (hi : i < window.size)
    (hsize : window.size ≤ 2 ^ 32) :
    (guestLoad L s' (pageDown preferred + i)).1 = s.mem.read (window.resolve i) := by
  rw [guestLoad_arm64 harm, hplain.1, windowVa_add, zero_add,
    ptr_window hset.entry hnames.2.1 (by have := hnames.2.2; omega) hplain.2 (by omega)
      fun _ _ => hi, hset.mem]

theorem mod_ne_zero_of_lt_roundUp {len i : Nat} (hlen : len ≤ i) (hi : i < roundUp len 4096) :
    len % 4096 ≠ 0 := by
  simp only [roundUp, roundDown] at hi
  omega

theorem windowCall_anonymous (hfits : c.Fits raw L s) (hwindow : windowCall L s c) :
    L.isArm64 ∧ c.flags.testBit mapAnonymous := by
  simp only [windowCall, Bool.and_eq_true, svcArg_of_lt hfits.flags_lt] at hwindow
  exact hwindow.1

theorem contents_anonymous (hanon : c.flags.testBit mapAnonymous)
    (hwant : c.contents raw L env = some want) (i : Nat) : want i = 0 := by
  rw [MmapCall.contents, if_pos hanon] at hwant
  cases hwant
  rfl

variable {i : Nat}

theorem freshContents_fixed (hfits : c.Fits raw L s) (hfresh : FixedFresh raw L s env c)
    (hfixed : fixedCall L s c)
    (hmem : s'.mem = s.mem.copyIn (svcArg L s c.addr) (fetchedBytes L s env c (svcArg L s c.len)))
    {addr : Nat} (hret : retAddr L (svcArg L s c.addr) = some addr)
    (hwant : c.contents raw L env = some want) (hi : i < roundUp c.len 4096) :
    (guestLoad L s' (addr + i)).1 = want i := by
  have hne : svcArg L s c.addr ≠ 0 := by
    intro hzero
    simp [fixedCall, hzero] at hfixed
  have hbelow := hfresh.below
  rw [svcArg_of_lt hfits.len_lt] at hmem
  rw [guestLoad_retAddr hret hne (by omega), hmem, copyIn_arena fun h => hfresh.zero i h hi]
  by_cases hlen : i < c.len
  · exact fetchedBytes_contents hfits hwant hlen
  have hcut := mod_ne_zero_of_lt_roundUp (not_lt.mp hlen) hi
  have hshort := fetchedBytes_length_le L s env c c.len
  rw [contents_past_file hwant (not_lt.mp hlen) (hfresh.wholePages hcut),
    getD_eq_getElem?_getD, getElem?_eq_none (by omega)]
  rfl

/-- A fixed mapping answered with a window over its arena range. -/
theorem freshContents_fixedWindow (hfits : c.Fits raw L s) (hfresh : FixedFresh raw L s env c)
    (hfixed : fixedCall L s c)
    (hopens : opensWindow L s c.addr (svcArg L s c.addr) (svcArg L s c.len) (svcArg L s c.flags))
    (hset : SetsWindow s s' (hiWord c.addr)
      { base := svcArg L s c.addr, size := pageRound32 (svcArg L s c.len) })
        (hwant : c.contents raw L env = some want)
    (hi : i < roundUp c.len 4096) : (guestLoad L s' (pageDown c.addr + i)).1 = want i := by
  obtain ⟨harm, -, hlarge, hanon, hnames⟩ := (opensWindow_iff L s).mp hopens
  rw [preferred_of_fixedCall hfixed] at hnames
  rw [svcArg_of_lt hfits.flags_lt] at hanon
  have hbelow := hfresh.below
  have hwide : i < pageRound32 (svcArg L s c.len) := by
    rw [svcArg_of_lt hfits.len_lt] at hlarge
    have hne : svcArg L s c.addr ≠ 0 := by
      intro hzero
      simp [fixedCall, hzero] at hfixed
    rw [svcArg_of_lt hfits.len_lt, pageRound32_of_ne_zero hfits.len_lt]
    · exact hi
    · simp only [pageRound32, roundUp, roundDown, u32] at hbelow ⊢
      omega
  have hzero := hfresh.zero i (by rw [fetchedBytes_anonymous hfits hanon]; simp) hi
  rw [guestLoad_newWindow harm hnames (hfresh.window hopens) hset hwide (pageRound32_lt _).le,
    contents_anonymous hanon hwant]
  simp only [A64PrefAlias.resolve]
  rwa [u32_of_lt (by omega)]

theorem freshContents_direct (hblank : Blank L s) (hfits : c.Fits raw L s) {a : Arenas}
    {addr len : Nat} (hspan : ArenaSpan raw L s c addr len a)
    (hfull : shortMaps L s.loaded s.arenas (svcArg L s c.len) (allowsSplit raw L s c) = false)
    (hmem : s'.mem = s.mem.copyIn addr (fetchedBytes L s env c (pageRound32 (svcArg L s c.len))))
    {result : Nat} (hret : retAddr L addr = some result)
    (hwant : c.contents raw L env = some want) (hi : i < roundUp c.len 4096) :
    (guestLoad L s' (result + i)).1 = want i := by
  have hl := layoutConsts
  have hbase := hspan.base_le
  have hbelow := hspan.below
  have hlen := hspan.fullLength hfull
  have hsome := hspan.want
  rw [svcArg_of_lt hfits.len_lt] at hlen hmem hsome
  have hwhole := pageRound32_of_ne_zero hfits.len_lt hsome
  have hfree : s.mem.arena (addr + i) = 0 := hblank.free _ (hspan.free _ (by omega) (by omega))
  rw [guestLoad_retAddr hret (by omega) (by omega), hmem, copyIn_arena fun _ => hfree]
  exact fetchedBytes_contents hfits hwant (by omega)

/-- A safe call over blank free space leaves the contents it was asked for. -/
theorem freshContents_of_blank (hblank : Blank L s) (hsafe : FreshSafe L s (.mmap raw env c)) :
    FreshContents raw L s env c := by
  obtain ⟨hfits, hfixedFresh, hplaced⟩ := hsafe
  have hsize : pageRound32 (svcArg L s c.len) ≤ 2 ^ 32 := (pageRound32_lt _).le
  have houtcome := mmapHandler_outcome hblank.wellFormed raw env c
  intro result hresult want hwant i hi
  have hwhole : pageRound32 (svcArg L s c.len) ≠ 0 → i < pageRound32 (svcArg L s c.len) := by
    intro hne
    rw [svcArg_of_lt hfits.len_lt] at hne ⊢
    rwa [pageRound32_of_ne_zero hfits.len_lt hne]
  generalize mmapHandler raw L s env c = out at houtcome hresult
  obtain ⟨answer, s'⟩ := out
  cases houtcome with
  | refused => simp at hresult
  | fixed hfixed _ _ _ _ hmem =>
    exact freshContents_fixed hfits (hfixedFresh hfixed) hfixed hmem hresult hwant hi
  | fixedWindow hfixed hopens _ _ hset =>
    cases hresult
    exact freshContents_fixedWindow hfits (hfixedFresh hfixed) hfixed hopens hset hwant hi
  | lazyWindow hfixed _ hwindow hwant' hnames _ _ hset
  | overflowWindow hfixed _ hwindow hwant' hnames _ _ hset =>
    cases hresult
    obtain ⟨harm, hanon⟩ := windowCall_anonymous hfits hwindow
    rw [guestLoad_newWindow harm hnames ((hplaced hfixed).window hwindow hnames) hset
      (hwhole hwant') hsize, contents_anonymous hanon hwant]
    first
    | exact hblank.unbacked
    | exact hblank.unmade _ le_rfl i
  | @arenaWindow _ addr len hfixed hlazy hwindow hnames hspan _ hset =>
    cases hresult
    obtain ⟨harm, hanon⟩ := windowCall_anonymous hfits hwindow
    have hlen := hspan.fullLength ((hplaced hfixed).full hlazy)
    have hin := hwhole hspan.want
    have hbelow := hspan.below
    rw [guestLoad_newWindow harm hnames ((hplaced hfixed).window hwindow hnames) hset
      hin hsize, contents_anonymous hanon hwant]
    simp only [A64PrefAlias.resolve]
    rw [u32_of_lt (by omega)]
    exact hblank.free _ (hspan.free _ (by omega) (by omega))
  | direct hfixed hlazy hspan _ hmem =>
    exact freshContents_direct hblank hfits hspan ((hplaced hfixed).full hlazy) hmem hresult
      hwant hi

end Contents

/-! ## Runs -/

section Preservation

variable {raw : Bool} {L : Layout} {s s' : AddressSpace} {env : HostEnv} {c : MmapCall}

theorem Blank.setsWindow (hblank : Blank L s) (hcons : s.arenas.Consumes L s'.arenas) {hi : Nat}
    {window : A64PrefAlias} (hset : SetsWindow s s' hi window)
    (hhosts : s.hostMaps ≤ s'.hostMaps) (hnew : ∀ host ∈ window.hosts, host < s'.hostMaps) :
    Blank L s' where
  wellFormed := hcons.wellFormed
  free := fun x hx => by
    rw [hset.mem]
    exact hblank.free x (hcons.mono x hx)
  unbacked := by rw [hset.mem, hblank.unbacked]
  unmade := fun host hhost off => by
    rw [hset.mem]
    exact hblank.unmade host (hhosts.trans hhost) off
  named := hblank.named.set hset.aliases hhosts hnew

/-- Copying into bytes that are not free, and not the unbacked one, keeps the rest
blank. -/
theorem Blank.copyIn (hblank : Blank L s) (hcons : s.arenas.Consumes L s'.arenas)
    (haliases : s'.aliases = s.aliases) (hhosts : s'.hostMaps = s.hostMaps) {addr : Nat}
    {bytes : List UInt8} (hmem : s'.mem = s.mem.copyIn addr bytes) (hpos : bytes ≠ [] → 0 < addr)
    (hfree : ∀ x, s'.arenas.Free L x → x < addr ∨ addr + bytes.length ≤ x) : Blank L s' := by
  have hout := ByteMemory.writeBytes_agreeOutside s.mem.arena addr bytes
  refine ⟨hcons.wellFormed, fun x hx => ?_, ?_, fun host hhost off => ?_,
    hblank.named.of_aliases haliases hhosts.ge⟩
  · rw [hmem]
    exact (hout x (hfree x hx)).trans (hblank.free x (hcons.mono x hx))
  · rw [hmem]
    by_cases hbytes : bytes = []
    · rw [hbytes, HostMemory.copyIn_nil, hblank.unbacked]
    · exact (hout 0 (.inl (hpos hbytes))).trans hblank.unbacked
  · rw [hmem]
    exact hblank.unmade host (hhosts ▸ hhost) off

theorem Blank.mmap (hblank : Blank L s) (hsafe : FreshSafe L s (.mmap raw env c)) :
    Blank L (mmapHandler raw L s env c).2 := by
  obtain ⟨hfits, hfixedFresh, hplaced⟩ := hsafe
  have hl := layoutConsts
  have hrefl := Arenas.Consumes.refl hblank.wellFormed
  have houtcome := mmapHandler_outcome hblank.wellFormed raw env c
  generalize mmapHandler raw L s env c = out at houtcome
  obtain ⟨answer, s'⟩ := out
  simp only at houtcome ⊢
  cases houtcome with
  | refused hcons hkeep hmem =>
    exact hblank.copyIn hcons hkeep.aliases hkeep.hostMaps
      (hmem.trans (HostMemory.copyIn_nil _ 1).symm)
        (absurd rfl) fun x _ => by simp only [length_nil]; omega
  | fixed hfixed _ _ harenas hkeep hmem =>
    have hne : svcArg L s c.addr ≠ 0 := by
      intro hzero
      simp [fixedCall, hzero] at hfixed
    have hclear := (hfixedFresh hfixed).clear
    rw [svcArg_of_lt hfits.len_lt] at hmem
    refine hblank.copyIn (harenas ▸ hrefl) hkeep.aliases hkeep.hostMaps hmem
      (fun _ => by omega) fun x hx => ?_
    obtain ⟨span, hspan, hmem⟩ := harenas ▸ hx
    by_cases hbytes : fetchedBytes L s env c c.len = []
    · rw [hbytes, length_nil]
      omega
    · have hmiss := Interval.misses_iff_forall.mp (hclear hbytes span hspan) x
      have hle := fetchedBytes_length_le L s env c c.len
      by_contra hin
      exact hmiss (by simp only; omega) (by simp only; omega) hmem.1 hmem.2
  | fixedWindow _ _ harenas hhosts hset | lazyWindow _ _ _ _ _ harenas hhosts hset =>
    exact hblank.setsWindow (harenas ▸ hrefl) hset hhosts.ge (by simp [A64PrefAlias.hosts])
  | overflowWindow _ _ _ _ _ hcons hhosts hset =>
    exact hblank.setsWindow hcons hset (by omega) (by simp [A64PrefAlias.hosts, hhosts])
  | arenaWindow _ _ _ _ hspan hhosts hset =>
    exact hblank.setsWindow hspan.toConsumes hset hhosts.ge (by simp [A64PrefAlias.hosts])
  | @direct _ addr len hfixed hlazy hspan hkeep hmem =>
    have hbase := hspan.base_le
    have hlen := hspan.fullLength ((hplaced hfixed).full hlazy)
    have hle := fetchedBytes_length_le L s env c (pageRound32 (svcArg L s c.len))
    refine hblank.copyIn hspan.toConsumes hkeep.aliases hkeep.hostMaps hmem
      (fun _ => by omega) fun x hx => ?_
    by_contra hin
    exact hspan.taken x (by omega) (by omega) hx

theorem Blank.munmap (hblank : Blank L s) {addr len : Nat}
    (hsafe : ∀ x, (svcLibcMunmap L s addr len).arenas.Free L x → s.mem.arena x = 0) :
    Blank L (svcLibcMunmap L s addr len) := by
  obtain ⟨-, -, hmem, hhosts, hwindows⟩ := svcLibcMunmap_frame L s addr len
  refine ⟨?_, hmem ▸ hsafe, hmem ▸ hblank.unbacked, ?_, ?_⟩
  · rcases svcLibcMunmap_arenas L s addr len with hsame | ⟨-, i, slab, primary, hfind, harenas⟩
    · exact hsame ▸ hblank.wellFormed
    · exact harenas ▸ (reclaim_spec hblank.wellFormed hfind).1
  · rw [hmem, hhosts]
    exact hblank.unmade
  · intro hi window' hentry host hhost
    obtain ⟨window, size, hold, rfl⟩ := hwindows hi window' hentry
    rw [hhosts]
    exact hblank.named hi window hold host hhost

theorem mem_hosts_commit {window : A64PrefAlias} {seg : A64BackingSegment} {host : Nat}
    (h : host ∈ (window.commit seg).hosts) :
    host ∈ window.hosts ∨ seg.overflowHost = some host := by
  simp only [A64PrefAlias.hosts, A64PrefAlias.commit, filterMap_append, mem_append,
    mem_filterMap, mem_singleton] at h ⊢
  rcases h with h | h | ⟨_, rfl, h⟩
  · exact .inl (.inl h)
  · exact .inl (.inr h)
  · exact .inr h

theorem Blank.mprotect (hblank : Blank L s) (env : HostEnv) (addr len : Nat) :
    Blank L (svcMprotect L s env addr len).2 := by
  have houtcome := svcMprotect_outcome hblank.wellFormed env addr len
  generalize svcMprotect L s env addr len = out at houtcome
  obtain ⟨ok, s'⟩ := out
  cases houtcome with
  | passed | outside | covered => exact hblank
  | refused hcons =>
    exact { hblank with
      wellFormed := hcons.wellFormed, free := fun x hx => hblank.free x (hcons.mono x hx) }
  | committedArena hopen htakes =>
    refine hblank.setsWindow htakes.toConsumes
      (show SetsWindow s _ _ _ from ⟨rfl, rfl, rfl, rfl⟩) le_rfl ?_
    intro host hhost
    rcases mem_hosts_commit hhost with hold | hnew
    · exact hblank.named _ _ hopen.entry host hold
    · simp at hnew
  | committedHost hopen hcons =>
    refine hblank.setsWindow hcons
      (show SetsWindow s _ _ _ from ⟨rfl, rfl, rfl, rfl⟩) (Nat.le_succ _) ?_
    intro host hhost
    rcases mem_hosts_commit hhost with hold | hnew
    · exact (hblank.named _ _ hopen.entry host hold).trans (Nat.lt_succ_self _)
    · cases hnew
      exact Nat.lt_succ_self _

theorem Blank.loadSegments (hblank : Blank L s) (base : Nat) (segs : List Segment)
    (hsafe : FreshSafe L s (.load base segs)) : Blank L (loadSegments base s segs) := by
  induction segs generalizing s with
  | nil => exact hblank
  | cons seg segs ih =>
    have hstep : Blank L (loadSegment base s seg) ∧ (loadSegment base s seg).arenas = s.arenas := by
      rw [loadSegment]
      split
      · exact ⟨hblank, rfl⟩
      rename_i hsize
      refine ⟨hblank.copyIn (.refl hblank.wellFormed) rfl rfl rfl (fun hdata => ?_) ?_, rfl⟩
      · exact (hsafe seg mem_cons_self hsize hdata).1
      rintro x ⟨span, hspan, hx⟩
      by_cases hdata : seg.data = []
      · rw [hdata, length_nil]
        omega
      · have hmiss := (hsafe seg mem_cons_self hsize hdata).2 span hspan
        by_contra hin
        exact Interval.misses_iff_forall.mp hmiss x (by simp only; omega)
          (by simp only; omega) hx.1 hx.2
    apply ih hstep.1
    intro seg' hseg' hsize hdata
    rw [Claimed, hstep.2]
    exact hsafe seg' (mem_cons_of_mem _ hseg') hsize hdata

theorem HostsNamed.recached (h : HostsNamed s) (hcache : s.Recached s') : HostsNamed s' := by
  obtain ⟨aliases, rfl, hsame⟩ := hcache
  intro hi window hentry host hhost
  have hkey := hsame hi
  simp only at hentry
  rw [hentry] at hkey
  obtain ⟨window₀, hold, hwindow⟩ := map_eq_some_iff.mp hkey.symm
  have hhosts := congrArg A64PrefAlias.hosts hwindow
  exact h hi window₀ hold host (hhosts ▸ hhost)

/-- Storing into a claimed byte, or storing a zero, keeps the rest blank. -/
theorem Blank.store (hblank : Blank L s) {va : Nat} {value : UInt8}
    (hsafe : FreshSafe L s (.store va value)) : Blank L (guestStore L s va value) := by
  obtain ⟨s₁, hcache, hstore⟩ := guestStore_spec L s va value
  have hnamed := hblank.named.recached hcache
  have hlt : ∀ host off, storeTarget L s va = some (.overflow host off) → host < s.hostMaps := by
    intro host off htarget
    rw [storeTarget] at htarget
    split at htarget
    · split at htarget
      · simp at htarget
      · exact hblank.named.ptr_lt (some.inj htarget)
    · simp at htarget
  obtain ⟨aliases, rfl, -⟩ := hcache
  rw [hstore]
  cases htarget : storeTarget L s va with
  | none => exact { hblank with named := hnamed }
  | some p =>
    have hread : ∀ q, (q = p → value = 0) → s.mem.read q = 0 →
        (s.mem.write p value).read q = 0 := by
      intro q hq hold
      rw [HostMemory.read_write]
      split
      · exact hq ‹_›
      · exact hold
    refine ⟨hblank.wellFormed, fun x hx => ?_, ?_, fun host hhost off => ?_, hnamed⟩
    · refine hread (.arena x) (fun hp => ?_) (hblank.free x hx)
      obtain ⟨span, hspan, hx⟩ := hx
      refine hsafe.resolve_right fun hclaimed => ?_
      have hmiss := (hclaimed x (hp ▸ htarget)).2 span hspan
      exact Interval.misses_iff_forall.mp hmiss x le_rfl (Nat.lt_succ_self x) hx.1 hx.2
    · refine hread (.arena 0) (fun hp => ?_) hblank.unbacked
      exact hsafe.resolve_right fun hclaimed => absurd (hclaimed 0 (hp ▸ htarget)).1 (lt_irrefl 0)
    · refine hread (.overflow host off) (fun hp => ?_) (hblank.unmade host hhost off)
      exact absurd (hlt host off (hp ▸ htarget)) (not_lt.mpr hhost)

theorem Blank.step (hblank : Blank L s) (op : SpaceOp) (hsafe : FreshSafe L s op) :
    Blank L (s.step L op) := by
  cases op with
  | mmap raw env c => exact hblank.mmap hsafe
  | munmap raw addr len =>
    cases raw with
    | true => exact hblank
    | false => exact hblank.munmap (hsafe rfl)
  | mprotect env addr len => exact hblank.mprotect env addr len
  | load base segs => exact hblank.loadSegments base segs hsafe
  | store va value => exact hblank.store hsafe

end Preservation

/-- **Fresh contents.** In every layout, after every run of safe steps, a safe call leaves its range
zero, or with the file's bytes and zeros after them. -/
theorem freshContents_of_run (isArm64 : Bool) (heapMb mmap2Base mmap2End : Int)
    (ops : List SpaceOp) (raw : Bool) (env : HostEnv) (c : MmapCall)
    (hops : StepsMeet (FreshSafe (guestLayoutInit isArm64 heapMb mmap2Base mmap2End))
      (AddressSpace.step (guestLayoutInit isArm64 heapMb mmap2Base mmap2End))
      (.initial (guestLayoutInit isArm64 heapMb mmap2Base mmap2End)) (ops ++ [.mmap raw env c])) :
    FreshContents raw (guestLayoutInit isArm64 heapMb mmap2Base mmap2End)
      (run (AddressSpace.step (guestLayoutInit isArm64 heapMb mmap2Base mmap2End))
        (.initial (guestLayoutInit isArm64 heapMb mmap2Base mmap2End)) ops) env c := by
  generalize guestLayoutInit isArm64 heapMb mmap2Base mmap2End = L at hops
  obtain ⟨hbefore, hcall, -⟩ := (stepsMeet_append ..).mp hops
  have hblank := run_invariant (fun _ op h hsafe => h.step op hsafe) (blank_initial L) hbefore
  exact freshContents_of_blank hblank hcall

def fileHost : HostEnv := ⟨true, fun fd => if fd = 5 then some [1, 2, 3] else none⟩

def fileCall : MmapCall := ⟨0, 0x1800, 1, 2, 5, 1, false⟩

/-- An A64 run that writes into a window of its own before it maps a file. -/
def fileRun : List SpaceOp :=
  [.mmap false plainHost (anonymousCall 0 0x1000000), .store 0x10000000000 7]

theorem freshContents_fileRun : FreshContents false (guestLayoutInit true 256 0 0)
      (run (AddressSpace.step (guestLayoutInit true 256 0 0))
        (.initial (guestLayoutInit true 256 0 0)) fileRun) fileHost fileCall := by
  refine freshContents_of_run true 256 0 0 fileRun false fileHost fileCall
    ⟨⟨⟨by decide, by decide, by decide, by decide⟩, fun h => absurd h (by decide), fun _ =>
        ⟨fun _ _ => by decide, fun _ => by decide⟩⟩, .inr fun off htarget => ?_,
      ⟨⟨by decide, by decide, by decide, by decide⟩, fun h => absurd h (by decide), fun _ =>
        ⟨fun h => absurd h (by decide), fun _ => by decide⟩⟩, trivial⟩
  have hwindow : storeTarget (guestLayoutInit true 256 0 0)
      (AddressSpace.step (guestLayoutInit true 256 0 0) (.initial (guestLayoutInit true 256 0 0))
        (.mmap false plainHost (anonymousCall 0 0x1000000))) 0x10000000000 =
      some (.arena 0x10000000) := by decide +kernel
  rw [hwindow] at htarget
  cases htarget
  decide

/-- An A32 run that writes into a mapping and unmaps it. -/
def reuseRun : List SpaceOp :=
  [.mmap false plainHost (anonymousCall 0 0x1000), .store 0x10000000 7,
    .munmap false 0x10000000 0x1000]

/-- The next anonymous mapping is given the same page and still reads the old byte. -/
theorem not_freshContents_reuseRun : ¬ FreshContents false (guestLayoutInit false 256 0 0)
      (run (AddressSpace.step (guestLayoutInit false 256 0 0))
        (.initial (guestLayoutInit false 256 0 0)) reuseRun) plainHost
          (anonymousCall 0 0x1000) := by
  intro hfresh
  have hbyte := hfresh 0x10000000 (by decide) _ rfl 0 (by decide)
  revert hbyte
  decide

end Lunaria
