/-
# Separation of A64 mappings

An A64 guest maps anonymous memory and commits parts of its lazy reservations. Every
mapping should be memory of its own: different addresses of one mapping are different
host bytes, two mappings share none, and none is a byte of a library, of the runtime's
trampolines or of a stack. The handlers key a window by the upper half of its address
and overwrite the entry of a window that is in use, so this holds along runs that open
every window once and never place one over the image window.
-/

import Lunaria.Space.Mappings
import Lunaria.Space.WindowBytes

namespace Lunaria

open Lib List Option Interval A64PrefAlias Set

/-! ## Runs -/

/-- An anonymous mapping that is placed by the handler. -/
structure AnonymousMmap where
  call : MmapCall
  anonymous : call.flags.testBit mapAnonymous = true
  placed : call.flags.testBit mapFixed = false
  flags_lt : call.flags < 2 ^ 32

/-- The mapping calls of an A64 guest, and accesses, which move the segment caches. -/
inductive WindowOp
  | mmap (raw : Bool) (env : HostEnv) (m : AnonymousMmap)
  | mprotect (env : HostEnv) (addr len : Nat)
  | touch (va : Nat)

/-- The address space and the ranges of the mappings made so far. -/
structure WindowRun where
  space : AddressSpace
  mapped : List Interval

variable (L : Layout) (s : AddressSpace)

/-- The address space after libraries were loaded at start-up. -/
def loadAll (libs : List (Nat × List Segment)) : AddressSpace :=
  libs.foldl (fun s lib => loadSegments lib.1 s lib.2) (.initial L)

namespace WindowRun

def start (L : Layout) (libs : List (Nat × List Segment)) : WindowRun := ⟨loadAll L libs, []⟩

def step (L : Layout) (r : WindowRun) : WindowOp → WindowRun
  | .mmap raw env m =>
    ⟨(mmapHandler raw L r.space env m.call).2, match (mmapHandler raw L r.space env m.call).1 with
      | some addr => m.call.rangeAt addr :: r.mapped
      | none => r.mapped⟩
  | .mprotect env addr len => { r with space := (svcMprotect L r.space env addr len).2 }
  | .touch va => { r with space := (r.space.ptr L va).2 }

end WindowRun

/-- The arena ranges that are not for mappings: libraries, trampolines and tables, and all stacks.
-/
def reservedSpans (loaded : List LoadedRegion) (stackNext : Nat) : List Interval :=
  loaded.map (·.span) ++
    [⟨L.trampBase, L.stackBase⟩, ⟨L.stackBase, L.stackBase + L.stackSize⟩,
      ⟨L.cbStackBase, L.cbStackBase + cbMaxDepth * cbStackSize⟩, ⟨L.threadStackBase, stackNext⟩]

/-- The address has a byte behind it: in a lazy reservation, a committed one. -/
def AddressSpace.backed (va : Nat) : Bool :=
  a64IsGuestVa va || (s.aliases (hiWord va)).all (·.backs (loWord va))

/-- Every mapping is memory of its own. -/
structure MemoryApart (L : Layout) (stackNext : Nat) (r : WindowRun) : Prop where
  injective : ∀ m ∈ r.mapped, ∀ x ∈ m.addresses, ∀ y ∈ m.addresses,
    r.space.backed x = true → r.space.backed y = true →
      (r.space.ptr L x).1 = (r.space.ptr L y).1 → x = y
  disjoint : r.mapped.Pairwise fun m m' => ∀ x ∈ m.addresses, ∀ y ∈ m'.addresses,
    r.space.backed x = true → r.space.backed y = true →
      (r.space.ptr L x).1 ≠ (r.space.ptr L y).1
  clear : ∀ m ∈ r.mapped, ∀ x ∈ m.addresses, r.space.backed x = true →
    ∀ off, (r.space.ptr L x).1 = .arena off →
      ∀ span ∈ reservedSpans L r.space.loaded stackNext, off ∉ span.addresses

/-! ## Safe steps -/

/-- The window a call would open is an ordinary one that is not in use. -/
def OpensUnused (raw : Bool) (L : Layout) (s : AddressSpace) (c : MmapCall) : Prop :=
  windowCall L s c = true → NamesWindow (preferredAddr raw L s c) →
    PlainWindow (preferredAddr raw L s c) ∧ (s.aliases (hiWord (preferredAddr raw L s c))).isNone

instance (raw : Bool) (L : Layout) (s : AddressSpace) (c : MmapCall) :
    Decidable (OpensUnused raw L s c) := inferInstanceAs (Decidable (_ → _ → _))

/-- The steps that keep all mappings apart. -/
def WindowRun.Safe (r : WindowRun) : WindowOp → Prop
  | .mmap raw _ m => m.call.len < 2 ^ 32 ∧ OpensUnused raw L r.space m.call ∧
      (lazyCall raw L r.space m.call = false → HeapHalfClear L r.space.loaded ∧
        shortMaps L r.space.loaded r.space.arenas (svcArg L r.space m.call.len)
          (allowsSplit raw L r.space m.call) = false)
  | .mprotect _ _ _ => HeapHalfClear L r.space.loaded
  | .touch _ => True

instance WindowRun.decidableSafe (L : Layout) (r : WindowRun) :
    ∀ op, Decidable (WindowRun.Safe L r op)
  | .mmap _ _ _ => inferInstanceAs (Decidable (_ ∧ _ ∧ (_ → _)))
  | .mprotect _ _ _ => inferInstanceAs (Decidable (HeapHalfClear L r.space.loaded))
  | .touch _ => isTrue trivial

/-! ## Ownership of host bytes -/

/-- Who may own a host byte. All mappings with image addresses count as one owner, since the image
window is injective. -/
inductive Owner
  | reserved
  | image
  | piece (hi k : Nat)
  deriving DecidableEq

/-- The bytes an owner has. -/
def WindowRun.own (stackNext : Nat) (r : WindowRun) : Owner → Set HostPtr
  | .reserved => {p | ∃ off, p = .arena off ∧
      ∃ span ∈ reservedSpans L r.space.loaded stackNext, off ∈ span.addresses}
  | .image => {p | ∃ off, p = .arena off ∧ off < 2 ^ 32 ∧
      ∃ m ∈ r.mapped, a64GuestVa off ∈ m.addresses}
  | .piece hi k => (r.space.aliases hi).elim ∅ (·.piece k)

def libraryBytes : Set HostPtr :=
  {p | ∃ off, p = .arena off ∧ ∃ region ∈ s.loaded, off ∈ region.span.addresses}

/-- The bytes a later mapping may get: the bump allocator skips the libraries. -/
def unclaimed : Set HostPtr := freshBytes L s \ libraryBytes s

/-- A mapping answered with an image address. -/
def ImageMapping (m : Interval) : Prop := a64GuestVa 0 ≤ m.lo ∧ m.hi ≤ a64GuestVa (2 ^ 32)

/-- A mapping that is the window with this entry. -/
structure WindowMapping (hi : Nat) (window : A64PrefAlias) (m : Interval) : Prop where
  range : m = ⟨windowVa hi 0, windowVa hi window.size⟩
  key_ne : hi ≠ 0
  key_le : hi ≤ 0xffff
  plain : hi ≠ imageWindow
  size_le : window.size ≤ 2 ^ 32
  flat : window.lazy = false → window.overflowBase = none → window.base + window.size ≤ 2 ^ 32

/-- The invariant of separated runs. -/
structure WindowRun.Separated (L : Layout) (stackNext : Nat) (r : WindowRun) : Prop where
  wellFormed : r.space.arenas.WellFormed L
  owned : Owned (r.own L stackNext) (unclaimed L r.space)
  placed : ∀ m ∈ r.mapped, ImageMapping m ∨
    ∃ hi window, r.space.aliases hi = some window ∧ WindowMapping hi window m
  misses : r.mapped.Pairwise Interval.Misses

section Reading

variable {L : Layout} {stackNext : Nat} {r : WindowRun} {m m' : Interval} {hi x : Nat}
  {window : A64PrefAlias}

theorem ImageMapping.mem (himage : ImageMapping m) (hx : x ∈ m.addresses) :
    ∃ off, off < 2 ^ 32 ∧ x = a64GuestVa off := by
  obtain ⟨hlo, hhi⟩ := himage
  obtain ⟨hxlo, hxhi⟩ := hx
  rw [a64GuestVa] at hlo hhi
  exact ⟨x - a64GuestBase, by omega, by rw [a64GuestVa]; omega⟩

theorem WindowMapping.mem (hwin : WindowMapping hi window m) :
    x ∈ m.addresses ↔ ∃ lo, lo < window.size ∧ x = windowVa hi lo := by
  rw [hwin.range, mem_addresses]
  simp only [windowVa]
  constructor
  · rintro ⟨hlo, hhi⟩
    exact ⟨x - hi * 2 ^ 32, by omega, by omega⟩
  · omega

theorem WindowMapping.not_image (hwin : WindowMapping hi window m) {off : Nat}
    (hoff : off < 2 ^ 32) : a64GuestVa off ∉ m.addresses := by
  intro hmem
  obtain ⟨lo, hlo, heq⟩ := hwin.mem.mp hmem
  have himage := a64IsGuestVa_a64GuestVa hoff
  have hsize := hwin.size_le
  rw [heq, a64IsGuestVa_windowVa hwin.plain (by omega)] at himage
  simp at himage

theorem WindowMapping.ptr_places (hwin : WindowMapping hi window m)
    (hentry : r.space.aliases hi = some window) {lo : Nat} (hlo : lo < window.size)
    (hback : r.space.backed (windowVa hi lo)) :
    ∃ k, window.Places k lo (r.space.ptr L (windowVa hi lo)).1 := by
  have hsize := hwin.size_le
  have hlt : hi < 2 ^ 32 := by have := hwin.key_le; omega
  rw [AddressSpace.backed, a64IsGuestVa_windowVa hwin.plain (by omega),
    hiWord_windowVa hlt (by omega), loWord_windowVa (by omega), hentry] at hback
  rw [ptr_window hentry hwin.key_ne hlt hwin.plain (by omega) fun _ _ => hlo]
  apply resolve_places hback hlo
  intro hlazy hover
  have hflat := hwin.flat hlazy hover
  omega

/-- What a mapped, backed address resolves to has an owner other than the runtime, which with the
byte determines the address. -/
theorem WindowRun.Separated.ptr_owned (h : r.Separated L stackNext) (hm : m ∈ r.mapped)
    (hx : x ∈ m.addresses) (hback : r.space.backed x) :
    (∃ off, off < 2 ^ 32 ∧ x = a64GuestVa off ∧ (r.space.ptr L x).1 = .arena off ∧
        (r.space.ptr L x).1 ∈ r.own L stackNext .image) ∨
      ∃ hi lo k window, x = windowVa hi lo ∧ r.space.aliases hi = some window ∧
        window.Places k lo (r.space.ptr L x).1 ∧
        (r.space.ptr L x).1 ∈ r.own L stackNext (.piece hi k) := by
  rcases h.placed m hm with himage | ⟨hi, window, hentry, hwin⟩
  · obtain ⟨off, hoff, rfl⟩ := himage.mem hx
    refine .inl ⟨off, hoff, rfl, congrArg Prod.fst (ptr_image hoff), ?_⟩
    rw [ptr_image hoff]
    exact ⟨off, rfl, hoff, m, hm, hx⟩
  · obtain ⟨lo, hlo, rfl⟩ := hwin.mem.mp hx
    obtain ⟨k, hplaces⟩ := hwin.ptr_places (L := L) hentry hlo hback
    refine .inr ⟨hi, lo, k, window, rfl, hentry, hplaces, ?_⟩
    rw [WindowRun.own, hentry]
    exact hplaces.mem_piece

/-- Resolution is injective on all mapped addresses together. -/
theorem WindowRun.Separated.ptr_inj (h : r.Separated L stackNext) (hm : m ∈ r.mapped)
    (hm' : m' ∈ r.mapped) {y : Nat} (hx : x ∈ m.addresses) (hy : y ∈ m'.addresses)
    (hxback : r.space.backed x) (hyback : r.space.backed y)
    (heq : (r.space.ptr L x).1 = (r.space.ptr L y).1) : x = y := by
  rcases h.ptr_owned hm hx hxback with ⟨off, -, rfl, hptr, hown⟩ |
    ⟨hi, lo, k, window, rfl, hentry, hplaces, hown⟩
  · rcases h.ptr_owned hm' hy hyback with ⟨off', -, rfl, hptr', -⟩ |
      ⟨hi', lo', k', window', -, -, -, hown'⟩
    · rw [hptr, hptr'] at heq
      rw [HostPtr.arena.inj heq]
    · exact absurd (h.owned.owner_unique hown (heq ▸ hown')) (by simp)
  rcases h.ptr_owned hm' hy hyback with ⟨off', -, -, -, hown'⟩ |
    ⟨hi', lo', k', window', rfl, hentry', hplaces', hown'⟩
  · exact absurd (h.owned.owner_unique hown (heq ▸ hown')) (by simp)
  have hsame : Owner.piece hi k = Owner.piece hi' k' :=
    h.owned.owner_unique hown (by rw [heq]; exact hown')
  cases hsame
  obtain rfl := some.inj (hentry.symm.trans hentry')
  rw [← heq] at hplaces'
  rw [hplaces.inj hplaces']

theorem WindowRun.Separated.memoryApart (h : r.Separated L stackNext) :
    MemoryApart L stackNext r where
  injective := fun m hm x hx y hy hxback hyback heq =>
    h.ptr_inj hm hm hx hy hxback hyback heq
  disjoint := by
    have hmem : r.mapped.Pairwise fun m m' => m ∈ r.mapped ∧ m' ∈ r.mapped :=
      pairwise_of_forall_mem_list fun m hm m' hm' => ⟨hm, hm'⟩
    refine (h.misses.and hmem).imp fun hpair x hx y hy hxback hyback heq => ?_
    obtain ⟨hmiss, hm, hm'⟩ := hpair
    obtain rfl := h.ptr_inj hm hm' hx hy hxback hyback heq
    exact misses_iff_forall.mp hmiss x hx.1 hx.2 hy.1 hy.2
  clear := fun m hm x hx hback off hptr span hspan hoff => by
    have hreserved : (r.space.ptr L x).1 ∈ r.own L stackNext .reserved :=
      ⟨off, hptr, span, hspan, hoff⟩
    rcases h.ptr_owned hm hx hback with ⟨_, _, _, _, hown⟩ | ⟨_, _, _, _, _, _, _, hown⟩
    · exact absurd (h.owned.owner_unique hreserved hown) (by simp)
    · exact absurd (h.owned.owner_unique hreserved hown) (by simp)

end Reading

/-! ## Steps keep mappings apart -/

section Claims

variable {L : Layout} {s s' : AddressSpace} {addr len : Nat}

theorem unclaimed_anti (hcons : s.arenas.Consumes L s'.arenas) (hloaded : s'.loaded = s.loaded)
    (hhosts : s.hostMaps ≤ s'.hostMaps) : unclaimed L s' ⊆ unclaimed L s := by
  rintro p ⟨hfresh, hlib⟩
  refine ⟨freshBytes_anti hcons hhosts hfresh, fun hp => hlib ?_⟩
  simpa [libraryBytes, hloaded] using hp

theorem taken_unclaimed {new : Set HostPtr} (h : Disjoint new (freshBytes L s)) :
    Disjoint new (unclaimed L s) :=
  h.mono_right sdiff_subset

/-- A range taken out of the arenas was unclaimed, as long as it is clear of libraries. -/
theorem arenaBytes_unclaimed {a : Arenas} (htakes : s.arenas.Takes L a addr len)
    (hlibs : ∀ region ∈ s.loaded, Interval.Misses ⟨addr, addr + len⟩ region.span) :
    arenaBytes addr len ⊆ unclaimed L s := by
  rintro p hp
  refine ⟨arenaBytes_fresh htakes hp, ?_⟩
  obtain ⟨off, rfl, hlo, hhi⟩ := hp
  rintro ⟨off', heq, region, hregion, hoff⟩
  obtain rfl := HostPtr.arena.inj heq
  exact misses_iff_forall.mp (hlibs region hregion) off hlo hhi hoff.1 hoff.2

theorem hostBytes_unclaimed (s : AddressSpace) : hostBytes s.hostMaps ⊆ unclaimed L s := by
  rintro p hp
  refine ⟨hostBytes_fresh s hp, ?_⟩
  obtain ⟨off, rfl⟩ := hp
  rintro ⟨off', heq, -⟩
  exact HostPtr.noConfusion heq

end Claims

namespace WindowRun

variable {L : Layout} {stackNext : Nat} {r : WindowRun} {s' : AddressSpace}

variable {window : A64PrefAlias}

section

variable (h : r.Separated L stackNext)
include h

theorem Separated.misses_window {hi : Nat}
    {m : Interval} (hunused : r.space.aliases hi = none) (hwin : WindowMapping hi window m) :
    ∀ m' ∈ r.mapped, m.Misses m' := by
  intro m' hm'
  apply misses_iff_forall.mpr
  intro x hlo hhi hlo' hhi'
  obtain ⟨lo, hlt, rfl⟩ := hwin.mem.mp ⟨hlo, hhi⟩
  rcases h.placed m' hm' with himage | ⟨hi', window', hentry', hwin'⟩
  · obtain ⟨off, hoff, heq⟩ := himage.mem ⟨hlo', hhi'⟩
    exact hwin.not_image hoff (heq ▸ ⟨hlo, hhi⟩)
  obtain ⟨lo', hlt', heq⟩ := hwin'.mem.mp ⟨hlo', hhi'⟩
  have hsize := hwin.size_le
  have hsize' := hwin'.size_le
  have hkey := congrArg hiWord heq
  rw [hiWord_windowVa (by have := hwin.key_le; omega) (by omega),
    hiWord_windowVa (by have := hwin'.key_le; omega) (by omega)] at hkey
  subst hkey
  simp [hunused] at hentry'

/-- Opening an unused window gives its first piece to the window. -/
theorem Separated.openWindow {hi : Nat}
    {m : Interval} {new : Set HostPtr} (hcons : r.space.arenas.Consumes L s'.arenas)
    (hset : SetsWindow r.space s' hi window) (hhosts : r.space.hostMaps ≤ s'.hostMaps)
    (hunused : r.space.aliases hi = none) (hwin : WindowMapping hi window m)
    (hfirst : window.piece 0 ⊆ new) (hrest : ∀ k, k ≠ 0 → window.piece k = ∅)
    (hnew : new ⊆ unclaimed L r.space) (htaken : Disjoint new (unclaimed L s')) :
    Separated L stackNext ⟨s', m :: r.mapped⟩ := by
  have hentry := hset.entry
  refine ⟨hcons.wellFormed, ?_, ?_, pairwise_cons.mpr ⟨h.misses_window hunused hwin, h.misses⟩⟩
  · apply h.owned.claim (.piece hi 0) hnew ?_ ?_ (unclaimed_anti hcons hset.loaded hhosts) htaken
    · intro p hp
      simp only [own, hentry] at hp
      exact .inr (hfirst hp)
    intro owner hne p hp
    cases owner with
    | reserved =>
      obtain ⟨off, rfl, span, hspan, hoff⟩ := hp
      exact ⟨off, rfl, span, hset.loaded ▸ hspan, hoff⟩
    | image =>
      obtain ⟨off, rfl, hoff, m', hm', hmem⟩ := hp
      rcases mem_cons.mp hm' with rfl | hm'
      · exact absurd hmem (hwin.not_image hoff)
      · exact ⟨off, rfl, hoff, m', hm', hmem⟩
    | piece hi' k =>
      by_cases hkey : hi' = hi
      · subst hkey
        have hk : k ≠ 0 := fun hk => hne (by rw [hk])
        simp only [own, hentry, elim_some, hrest k hk] at hp
        exact absurd hp (notMem_empty p)
      · simpa [own, hset.other hkey] using hp
  · intro m' hm'
    rcases mem_cons.mp hm' with rfl | hm'
    · exact .inr ⟨hi, window, hentry, hwin⟩
    refine (h.placed m' hm').imp_right ?_
    rintro ⟨hi', window', hentry', hwin'⟩
    have hne : hi' ≠ hi := by
      rintro rfl
      simp [hunused] at hentry'
    exact ⟨hi', window', (hset.other hne).trans hentry', hwin'⟩

/-- A mapping answered with its arena address gives that range to the image window. -/
theorem Separated.placeImage {addr len : Nat}
    (htakes : r.space.arenas.Takes L s'.arenas addr len) (hbelow : addr + len ≤ 2 ^ 32)
    (hkeep : KeepsWindows r.space s')
    (hlibs : ∀ region ∈ r.space.loaded, Interval.Misses ⟨addr, addr + len⟩ region.span) :
    Separated L stackNext ⟨s', ⟨a64GuestVa addr, a64GuestVa addr + len⟩ :: r.mapped⟩ := by
  have hnew := arenaBytes_unclaimed htakes hlibs
  have himage : ImageMapping ⟨a64GuestVa addr, a64GuestVa addr + len⟩ := by
    simp only [ImageMapping, a64GuestVa]
    omega
  have hin : ∀ off,
      a64GuestVa off ∈ (⟨a64GuestVa addr, a64GuestVa addr + len⟩ : Interval).addresses →
        HostPtr.arena off ∈ arenaBytes addr len := by
    rintro off ⟨hlo, hhi⟩
    simp only [a64GuestVa] at hlo hhi
    exact ⟨off, rfl, by omega, by omega⟩
  refine ⟨htakes.wellFormed, ?_, ?_, ?_⟩
  · apply h.owned.claim .image hnew ?_ ?_
      (unclaimed_anti htakes.toConsumes hkeep.loaded hkeep.hostMaps.ge)
        (taken_unclaimed (arenaBytes_taken htakes))
    · rintro p ⟨off, rfl, hoff, m', hm', hmem⟩
      rcases mem_cons.mp hm' with rfl | hm'
      · exact .inr (hin off hmem)
      · exact .inl ⟨off, rfl, hoff, m', hm', hmem⟩
    intro owner hne p hp
    cases owner with
    | reserved =>
      obtain ⟨off, rfl, span, hspan, hoff⟩ := hp
      exact ⟨off, rfl, span, hkeep.loaded ▸ hspan, hoff⟩
    | image => exact absurd rfl hne
    | piece hi k => simpa [own, hkeep.aliases] using hp
  · intro m' hm'
    rcases mem_cons.mp hm' with rfl | hm'
    · exact .inl himage
    · simpa [hkeep.aliases] using h.placed m' hm'
  · refine pairwise_cons.mpr ⟨fun m' hm' => ?_, h.misses⟩
    apply misses_iff_forall.mpr
    intro x hlo hhi hlo' hhi'
    obtain ⟨off, hoff, rfl⟩ := himage.mem ⟨hlo, hhi⟩
    have hown : HostPtr.arena off ∈ r.own L stackNext .image :=
      ⟨off, rfl, hoff, m', hm', hlo', hhi'⟩
    exact h.owned.not_unclaimed hown (hnew (hin off ⟨hlo, hhi⟩))

theorem Separated.consume (hcons : r.space.arenas.Consumes L s'.arenas)
    (hkeep : KeepsWindows r.space s') : Separated L stackNext ⟨s', r.mapped⟩ := by
  refine ⟨hcons.wellFormed, h.owned.anti (fun owner p hp => ?_)
    (unclaimed_anti hcons hkeep.loaded hkeep.hostMaps.ge), ?_, h.misses⟩
  · cases owner with
    | reserved => simpa [own, hkeep.loaded] using hp
    | image => exact hp
    | piece hi k => simpa [own, hkeep.aliases] using hp
  · simpa [hkeep.aliases] using h.placed

end

theorem rangeAt_of_lt {c : MmapCall} (hlen : c.len < 2 ^ 32)
    (hwant : pageRound32 (svcArg L r.space c.len) ≠ 0) (addr : Nat) :
    c.rangeAt addr = ⟨addr, addr + pageRound32 (svcArg L r.space c.len)⟩ := by
  rw [svcArg_of_lt hlen] at hwant ⊢
  rw [MmapCall.rangeAt, pageRound32_of_ne_zero hlen hwant]

theorem windowMapping_of_call {raw : Bool} {c : MmapCall}
    (hlen : c.len < 2 ^ 32) (hwant : pageRound32 (svcArg L r.space c.len) ≠ 0)
    (hnames : NamesWindow (preferredAddr raw L r.space c))
    (hplain : PlainWindow (preferredAddr raw L r.space c))
    (hsize : window.size = pageRound32 (svcArg L r.space c.len))
    (hflat : window.lazy = false → window.overflowBase = none →
      window.base + window.size ≤ 2 ^ 32) :
    WindowMapping (hiWord (preferredAddr raw L r.space c)) window
      (c.rangeAt (pageDown (preferredAddr raw L r.space c))) := by
  have hlt := pageRound32_lt (svcArg L r.space c.len)
  refine ⟨?_, hnames.2.1, hnames.2.2, hplain.2, by omega, hflat⟩
  rw [rangeAt_of_lt hlen hwant, hplain.1, windowVa_add, zero_add, hsize]

section

variable (h : r.Separated L stackNext)
include h

theorem Separated.mmap (harm : L.isArm64) (raw : Bool)
    (env : HostEnv) (m : AnonymousMmap) (hsafe : Safe L r (.mmap raw env m)) :
    (WindowRun.step L r (.mmap raw env m)).Separated L stackNext := by
  obtain ⟨hlen, hunused, hplace⟩ := hsafe
  have hnotFixed : fixedCall L r.space m.call = false := by
    rw [fixedCall, svcArg_of_lt m.flags_lt, m.placed, Bool.and_false]
  have hrefl := Arenas.Consumes.refl h.wellFormed
  have houtcome := mmapHandler_outcome h.wellFormed raw env m.call
  rw [WindowRun.step]
  generalize mmapHandler raw L r.space env m.call = out at houtcome
  obtain ⟨answer, s'⟩ := out
  simp only at houtcome ⊢
  cases houtcome with
  | refused hcons hkeep => exact h.consume hcons hkeep
  | fixed hfixed | fixedWindow hfixed => simp [hnotFixed] at hfixed
  | lazyWindow _ _ hwindow hwant hnames harenas hhosts hset =>
    obtain ⟨hplain, hfree⟩ := hunused hwindow hnames
    refine h.openWindow (harenas ▸ hrefl) hset hhosts.ge (isNone_iff_eq_none.mp hfree)
      (windowMapping_of_call hlen hwant hnames hplain rfl (by simp)) ?_ ?_
      (empty_subset _) (empty_disjoint _)
    · simp [A64PrefAlias.piece]
    · simp [A64PrefAlias.piece]
  | overflowWindow _ _ hwindow hwant hnames hcons hhosts hset =>
    obtain ⟨hplain, hfree⟩ := hunused hwindow hnames
    refine h.openWindow hcons hset (by omega) (isNone_iff_eq_none.mp hfree)
      (windowMapping_of_call hlen hwant hnames hplain rfl (by simp)) ?_ ?_
      (hostBytes_unclaimed r.space) (taken_unclaimed (hostBytes_taken hhosts))
    · simp [A64PrefAlias.piece]
    · intro k hk
      simp [A64PrefAlias.piece, hk]
  | @arenaWindow _ addr len _ hlazy hwindow hnames hspan hhosts hset =>
    obtain ⟨hplain, hfree⟩ := hunused hwindow hnames
    obtain ⟨hheap, hfull⟩ := hplace hlazy
    obtain rfl := hspan.fullLength hfull
    refine h.openWindow hspan.toConsumes hset hhosts.ge (isNone_iff_eq_none.mp hfree)
      (windowMapping_of_call hlen hspan.want hnames hplain rfl fun _ _ => hspan.below) ?_ ?_
      (arenaBytes_unclaimed hspan.toTakes (hspan.libraries hheap))
      (taken_unclaimed (arenaBytes_taken hspan.toTakes))
    · simp [A64PrefAlias.piece]
    · intro k hk
      simp [A64PrefAlias.piece, hk]
  | @direct _ addr len _ hlazy hspan hkeep hmem =>
    obtain ⟨hheap, hfull⟩ := hplace hlazy
    obtain rfl := hspan.fullLength hfull
    rw [hspan.retAddr_eq, guestAddr, if_pos harm]
    simp only [rangeAt_of_lt hlen hspan.want]
    exact h.placeImage hspan.toTakes hspan.below hkeep (hspan.libraries hheap)

/-- A commit gives the new segment's bytes to its window. -/
theorem Separated.commit {addr len : Nat}
    (hopen : OpensSegment L r.space addr len window) {seg : A64BackingSegment}
    (hcons : r.space.arenas.Consumes L s'.arenas) (hloaded : s'.loaded = r.space.loaded)
    (hhosts : r.space.hostMaps ≤ s'.hostMaps)
    (haliases : s'.aliases = fun k => if k = hiWord addr then some (window.commit seg)
      else r.space.aliases k)
    (hnew : seg.bytes ⊆ unclaimed L r.space) (htaken : Disjoint seg.bytes (unclaimed L s')) :
    Separated L stackNext ⟨s', r.mapped⟩ := by
  have hentry : s'.aliases (hiWord addr) = some (window.commit seg) := by
    rw [haliases]
    exact if_pos rfl
  have hother : ∀ hi, hi ≠ hiWord addr → s'.aliases hi = r.space.aliases hi := by
    intro hi hne
    rw [haliases]
    exact if_neg hne
  refine ⟨hcons.wellFormed, ?_, ?_, h.misses⟩
  · apply h.owned.claim (.piece (hiWord addr) window.committed.length) hnew ?_ ?_
      (unclaimed_anti hcons hloaded hhosts) htaken
    · intro p hp
      simp only [own, hentry, elim_some, piece_commit hopen.lazy] at hp
      exact .inr hp
    intro owner hne p hp
    cases owner with
    | reserved => simpa [own, hloaded] using hp
    | image => exact hp
    | piece hi k =>
      by_cases hkey : hi = hiWord addr
      · subst hkey
        have hk : k ≠ window.committed.length := fun hk => hne (by rw [hk])
        simp only [own, hentry, elim_some, piece_commit hopen.lazy, if_neg hk] at hp
        simpa [own, hopen.entry] using hp
      · simpa [own, hother hi hkey] using hp
  · intro m hm
    refine (h.placed m hm).imp_right ?_
    rintro ⟨hi, window', hentry', hwin⟩
    by_cases hkey : hi = hiWord addr
    · subst hkey
      obtain rfl := some.inj (hopen.entry.symm.trans hentry')
      exact ⟨_, _, hentry, { hwin with }⟩
    · exact ⟨hi, window', (hother hi hkey).trans hentry', hwin⟩

theorem Separated.mprotect (env : HostEnv) (addr len : Nat)
    (hheap : HeapHalfClear L r.space.loaded) :
    (WindowRun.step L r (.mprotect env addr len)).Separated L stackNext := by
  have houtcome := svcMprotect_outcome h.wellFormed env addr len
  rw [WindowRun.step]
  generalize svcMprotect L r.space env addr len = out at houtcome
  obtain ⟨ok, s'⟩ := out
  cases houtcome with
  | passed | outside | covered => exact h
  | refused hcons => exact h.consume hcons ⟨rfl, rfl, rfl, rfl⟩
  | committedArena hopen htakes hbelow hbase hlibs =>
    exact h.commit hopen htakes.toConsumes rfl le_rfl rfl
      (arenaBytes_unclaimed htakes (hlibs hheap))
      (taken_unclaimed (arenaBytes_taken htakes))
  | committedHost hopen hcons =>
    exact h.commit hopen hcons rfl (Nat.le_succ _) rfl (hostBytes_unclaimed r.space)
      (taken_unclaimed (hostBytes_taken rfl))

/-- An access moves a segment cache, and no byte changes its owner. -/
theorem Separated.touch (va : Nat) : (WindowRun.step L r (.touch va)).Separated L stackNext := by
  obtain ⟨aliases, hspace, hsame⟩ := ptr_recached L r.space va
  simp only [WindowRun.step, hspace]
  have hback : ∀ hi window, r.space.aliases hi = some window →
      ∃ window', aliases hi = some window' ∧ window'.uncached = window.uncached := by
    intro hi window hentry
    have hkey := hsame hi
    rw [hentry] at hkey
    exact map_eq_some_iff.mp hkey
  refine ⟨h.wellFormed, h.owned.anti (fun owner p hp => ?_) fun _ hp => hp, ?_, h.misses⟩
  · cases owner with
    | reserved | image => exact hp
    | piece hi k =>
      simp only [own] at hp ⊢
      cases hold : r.space.aliases hi with
      | none =>
        have hkey := hsame hi
        rw [hold, map_none, map_eq_none_iff] at hkey
        rwa [hkey] at hp
      | some window =>
        obtain ⟨window', hnew, heq⟩ := hback hi window hold
        rw [hnew, elim_some, ← piece_uncached, heq] at hp
        exact hp
  · intro m hm
    refine (h.placed m hm).imp_right ?_
    rintro ⟨hi, window, hentry, hwin⟩
    obtain ⟨window', hnew, heq⟩ := hback hi window hentry
    rw [eq_of_uncached heq] at hnew
    exact ⟨hi, _, hnew, { hwin with }⟩

theorem Separated.step (harm : L.isArm64) (op : WindowOp)
    (hsafe : Safe L r op) : (WindowRun.step L r op).Separated L stackNext := by
  cases op with
  | mmap raw env m => exact h.mmap harm raw env m hsafe
  | mprotect env addr len => exact h.mprotect env addr len hsafe
  | touch va => exact h.touch va

end

end WindowRun

/-! ## The start and the whole run -/

theorem loadAll_frame (libs : List (Nat × List Segment)) :
    (loadAll L libs).arenas = Arenas.initial L ∧ (loadAll L libs).aliases = fun _ => none := by
  suffices hfold : ∀ s : AddressSpace,
      (libs.foldl (fun s lib => loadSegments lib.1 s lib.2) s).arenas = s.arenas ∧
        (libs.foldl (fun s lib => loadSegments lib.1 s lib.2) s).aliases = s.aliases from
    hfold (.initial L)
  induction libs with
  | nil => exact fun s => ⟨rfl, rfl⟩
  | cons lib libs ih =>
    intro s
    obtain ⟨harenas, haliases⟩ := ih _
    obtain ⟨harenas', haliases'⟩ := loadSegments_frame lib.1 s lib.2
    exact ⟨harenas.trans harenas', haliases.trans haliases'⟩

/-- On A64 the trampolines and the stacks lie below the arenas, as long as the thread
stacks have not grown into them. -/
theorem arm64_reserved_low (heapMb mmap2Base mmap2End : Int) {stackNext : Nat}
    (hstacks : stackNext ≤ mmapBase) :
    ∀ span ∈ reservedSpans (guestLayoutInit true heapMb mmap2Base mmap2End) [] stackNext,
      span.hi ≤ mmapBase := by
  simp only [reservedSpans, guestLayoutInit, map_nil, nil_append, forall_mem_cons]
  exact ⟨by decide, by decide, by decide, hstacks, by simp⟩

theorem WindowRun.separated_start {L : Layout} {stackNext : Nat}
    (hlow : ∀ span ∈ reservedSpans L [] stackNext, span.hi ≤ mmapBase)
    (libs : List (Nat × List Segment)) : (WindowRun.start L libs).Separated L stackNext := by
  obtain ⟨harenas, haliases⟩ := loadAll_frame L libs
  have hwf : (loadAll L libs).arenas.WellFormed L := harenas ▸ Arenas.wellFormed_initial L
  have hempty : ∀ owner, owner ≠ .reserved → (start L libs).own L stackNext owner = ∅ := by
    intro owner hne
    cases owner with
    | reserved => exact absurd rfl hne
    | image => simp [own, start]
    | piece hi k => simp [own, start, haliases]
  refine ⟨hwf, ⟨fun i j hne => ?_, fun i => ?_⟩, fun m hm => ?_, List.Pairwise.nil⟩
  · by_cases hi : i = .reserved
    · rw [hempty j fun hj => hne (hi.trans hj.symm)]
      exact disjoint_empty _
    · rw [hempty i hi]
      exact empty_disjoint _
  · by_cases hi : i = .reserved
    · subst hi
      apply Set.disjoint_left.mpr
      rintro p ⟨off, rfl, span, hspan, hoff⟩ ⟨hfree, hlib⟩
      rcases mem_append.mp hspan with hloaded | hruntime
      · obtain ⟨region, hregion, rfl⟩ := mem_map.mp hloaded
        exact hlib ⟨off, rfl, region, hregion, hoff⟩
      · have hbase := hwf.mmapBase_le hfree
        have htop := hlow span (mem_append_right _ hruntime)
        have hlt := hoff.2
        omega
    · rw [hempty i hi]
      exact empty_disjoint _
  · simp [start] at hm

/-- **A64 window separation.** Whatever the environment and the libraries, with thread stacks below
the arenas, every mapping made along a run of safe steps is memory of its own. -/
theorem memoryApart_of_run (heapMb mmap2Base mmap2End : Int) (libs : List (Nat × List Segment))
    (stackNext : Nat) (hstacks : stackNext ≤ mmapBase) (ops : List WindowOp)
    (hops : StepsMeet (WindowRun.Safe (guestLayoutInit true heapMb mmap2Base mmap2End))
      (WindowRun.step (guestLayoutInit true heapMb mmap2Base mmap2End))
      (.start (guestLayoutInit true heapMb mmap2Base mmap2End) libs) ops) :
    MemoryApart (guestLayoutInit true heapMb mmap2Base mmap2End) stackNext
      (run (WindowRun.step (guestLayoutInit true heapMb mmap2Base mmap2End))
        (.start (guestLayoutInit true heapMb mmap2Base mmap2End) libs) ops) := by
  have hlow := arm64_reserved_low heapMb mmap2Base mmap2End hstacks
  have harm : (guestLayoutInit true heapMb mmap2Base mmap2End).isArm64 := rfl
  have hstart := WindowRun.separated_start hlow libs
  exact (run_invariant (fun _ op h hsafe => h.step harm op hsafe) hstart hops).memoryApart

def anonymousMmap (hint len prot : Nat) : AnonymousMmap where
  call := { anonymousCall hint len with prot := prot }
  anonymous := show Nat.testBit 0x22 mapAnonymous = true by decide
  placed := show Nat.testBit 0x22 mapFixed = false by decide
  flags_lt := show 0x22 < 2 ^ 32 by decide

/-- A library, a lazy reservation with two overlapping commits, a large mapping from a
slot, and a small one. -/
def windowRun : List WindowOp :=
  [.mmap false plainHost (anonymousMmap 0x100000000 0x2000000 0),
    .mprotect plainHost 0x100000000 0x1000, .mprotect plainHost 0x100000800 0x3000,
    .mmap false plainHost (anonymousMmap 0 0x1000000 3),
    .mmap true plainHost (anonymousMmap 0 0x2000 3), .touch 0x100000900]

theorem memoryApart_windowRun : MemoryApart (guestLayoutInit true 256 0 0) 0x0D500000
      (run (WindowRun.step (guestLayoutInit true 256 0 0))
        (.start (guestLayoutInit true 256 0 0) [(0x10000, [⟨0, 0x3000, 5, [], true⟩])])
        windowRun) :=
  memoryApart_of_run 256 0 0 _ 0x0D500000 (by decide) windowRun (by decide)

/-- Two large mappings: the hint of the first is the window the second draws as a slot. -/
def sameSlotRun : List WindowOp :=
  [.mmap false plainHost (anonymousMmap 0x10000000000 0x1000000 3),
    .mmap false plainHost (anonymousMmap 0 0x1000000 3)]

/-- Both are answered with the same addresses, so they share every byte. -/
theorem not_memoryApart_sameSlotRun : ¬ MemoryApart (guestLayoutInit true 256 0 0) 0x0D500000
      (run (WindowRun.step (guestLayoutInit true 256 0 0))
        (.start (guestLayoutInit true 256 0 0) []) sameSlotRun) := by
  intro hapart
  have hpair := hapart.disjoint
  have hback : (run (WindowRun.step (guestLayoutInit true 256 0 0))
      (.start (guestLayoutInit true 256 0 0) []) sameSlotRun).space.backed 0x10000000000 := by
    decide
  exact (pairwise_cons.mp hpair).1 _ (mem_singleton_self _) 0x10000000000
    ⟨by decide, by decide⟩ 0x10000000000 ⟨by decide, by decide⟩ hback hback rfl

end Lunaria
