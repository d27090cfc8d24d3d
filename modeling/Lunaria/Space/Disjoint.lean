/-
# Disjointness of guest mappings

The live mappings of a guest are pairwise disjoint, and a mapping that was not
placed at a fixed address misses every library range recorded before it, as long
as no call takes one of the branches that break this. The invariant behind it is
that no live mapping contains an address the arenas may still hand out.

The branches that break it: a fixed mapping over free arena space is not taken out
of the arena; the halving fallback answers with less memory than it promises; the
heap fallback does not look at library ranges; an unmapped slab resets the bump
pointer although later mappings lie behind it; and a hint or slot may name a window
that is in use.
-/

import Lunaria.Space.Mappings

namespace Lunaria

open Lib List Interval

/-- The live mappings are pairwise disjoint, and each that was not fixed misses the libraries
recorded before. -/
structure MappingsDisjoint (g : MapRun) : Prop where
  pairwise : g.live.Pairwise fun m n => m.range.Misses n.range
  libraries : ∀ m ∈ g.live, m.fixed = false → ∀ r ∈ m.prior, m.range.Misses r

/-- The 4 GiB window an address lies in. -/
def windowSpan (va : Nat) : Interval := ⟨hiWord va * 2 ^ 32, (hiWord va + 1) * 2 ^ 32⟩

namespace MapRun

/-- A fixed call is answered with the address it asks for, and does not cover address
space the arenas may still hand out. -/
def FixedSafe (L : Layout) (g : MapRun) (c : MmapCall) : Prop :=
  (L.isArm64 = true →
    if opensWindow L g.space c.addr (svcArg L g.space c.addr) (svcArg L g.space c.len)
      (svcArg L g.space c.flags) then c.addr % 4096 = 0 else a64IsGuestVa c.addr = true) ∧
  ∀ s ∈ guestFreeSpans L g.space.arenas, (c.rangeAt c.addr).Misses s
  deriving Decidable

/-- The window a call would open is neither the image window nor in use, and the
mapping does not run past its end. -/
def WindowSafe (raw : Bool) (L : Layout) (g : MapRun) (c : MmapCall) : Prop :=
  let preferred := preferredAddr raw L g.space c
  windowCall L g.space c = true → NamesWindow preferred →
    hiWord preferred ≠ hiWord a64GuestBase ∧
      loWord (pageDown preferred) + roundUp c.len 4096 ≤ 2 ^ 32 ∧
      ∀ m ∈ g.live, m.range.Misses (windowSpan preferred)
  deriving Decidable

/-- The arenas answer with the full length, and no library range lies where the heap
fallback hands out memory. -/
def ArenaSafe (raw : Bool) (L : Layout) (g : MapRun) (c : MmapCall) : Prop :=
  lazyCall raw L g.space c = false →
    shortMaps L g.space.loaded g.space.arenas (svcArg L g.space c.len)
      (allowsSplit raw L g.space c) = false ∧ HeapHalfClear L g.space.loaded
  deriving Decidable

/-- A reclaimed tail is the last thing in its arena: nothing mapped lies at or behind it. -/
def ReclaimSafe (L : Layout) (g : MapRun) (addr len : Nat) : Prop :=
  lazyMunmap L g.space addr = false →
    ∀ found ∈ findReclaim L g.space.arenas (svcArg L g.space addr)
        (svcArg L g.space addr + svcArg L g.space len),
      ∀ m ∈ cutLive g.live ⟨addr, addr + roundUp len 4096⟩,
        m.range.Misses (guestSpan L
          ⟨svcArg L g.space addr, if found.2.2 then L.mmapEnd else L.mmap2EndExcl⟩)
  deriving Decidable

/-- The steps that keep the mappings disjoint. The register values are 64-bit, and a
requested length is below 4 GiB. -/
def Safe (L : Layout) (g : MapRun) : SpaceOp → Prop
  | .mmap raw _ c =>
    c.addr < 2 ^ 64 ∧ c.len < 2 ^ 32 ∧
      if fixedCall L g.space c then FixedSafe L g c
      else WindowSafe raw L g c ∧ ArenaSafe raw L g c
  | .munmap raw addr len => raw = false → ReclaimSafe L g addr len
  | .mprotect _ _ _ => True
  | .load _ _ => True
  | .store _ _ => True

instance (L : Layout) (g : MapRun) : ∀ op, Decidable (Safe L g op)
  | .mmap raw _ c =>
    inferInstanceAs (Decidable (c.addr < 2 ^ 64 ∧ c.len < 2 ^ 32 ∧
      if fixedCall L g.space c then FixedSafe L g c
      else WindowSafe raw L g c ∧ ArenaSafe raw L g c))
  | .munmap raw addr len => inferInstanceAs (Decidable (raw = false → ReclaimSafe L g addr len))
  | .mprotect _ _ _ => isTrue trivial
  | .load _ _ => isTrue trivial
  | .store _ _ => isTrue trivial

/-! ## The invariant -/

/-- No live mapping contains an address that may still be handed out. -/
structure Sound (L : Layout) (g : MapRun) : Prop extends MappingsDisjoint g where
  wellFormed : g.space.arenas.WellFormed L
  loaded_le : ∀ r ∈ g.space.loaded, r.hi ≤ 2 ^ 32
  notFree : ∀ m ∈ g.live, ∀ x ∈ m.range.addresses, ¬ GuestFree L g.space.arenas x

theorem sound_initial (L : Layout) : Sound L (initial L) where
  pairwise := List.Pairwise.nil
  libraries := by simp [initial]
  wellFormed := Arenas.wellFormed_initial L
  loaded_le := by simp [initial, AddressSpace.initial]
  notFree := by simp [initial]

variable {range : Interval}

theorem mem_cutLive {live : List Mapping} {m : Mapping} (h : m ∈ cutLive live range) :
    ∃ old ∈ live, m.fixed = old.fixed ∧ m.prior = old.prior ∧ m.range ∈ old.range.cut range := by
  obtain ⟨old, hold, hm⟩ := mem_flatMap.mp h
  obtain ⟨piece, hpiece, rfl⟩ := mem_map.mp hm
  exact ⟨old, hold, rfl, rfl, hpiece⟩

variable {L : Layout} {g : MapRun}

theorem cutLive_disjoint (hdisj : MappingsDisjoint g) (hrange : range.lo ≤ range.hi) :
    (cutLive g.live range).Pairwise (fun m n => m.range.Misses n.range) ∧
      ∀ m ∈ cutLive g.live range, m.fixed = false → ∀ r ∈ m.prior, m.range.Misses r := by
  constructor
  · refine pairwise_flatMap.mpr ⟨?_, ?_⟩
    · intro m _
      exact pairwise_map.mpr (cut_pairwise_misses m.range hrange)
    refine hdisj.pairwise.imp ?_
    intro m n hmn m' hm' n' hn'
    obtain ⟨piece, hpiece, rfl⟩ := mem_map.mp hm'
    obtain ⟨piece', hpiece', rfl⟩ := mem_map.mp hn'
    exact ((hmn.of_mem_cut hpiece).symm.of_mem_cut hpiece').symm
  · intro m hm hfixed r hr
    obtain ⟨old, hold, hf, hp, hpiece⟩ := mem_cutLive hm
    exact (hdisj.libraries old hold (hf ▸ hfixed) r (hp ▸ hr)).of_mem_cut hpiece

theorem Sound.cut_notFree (hsound : Sound L g) :
    ∀ m ∈ cutLive g.live range, ∀ x ∈ m.range.addresses, ¬ GuestFree L g.space.arenas x := by
  intro m hm x hx
  obtain ⟨old, hold, -, -, hpiece⟩ := mem_cutLive hm
  obtain ⟨hin, -⟩ := mem_of_mem_cut hpiece hx.1 hx.2
  exact hsound.notFree old hold x hin

variable {s : AddressSpace}

theorem Sound.of_cut (hsound : Sound L g) (hrange : range.lo ≤ range.hi)
    (hwf : s.arenas.WellFormed L) (hloaded : ∀ r ∈ s.loaded, r.hi ≤ 2 ^ 32)
    (hfree : ∀ x, GuestFree L s.arenas x → GuestFree L g.space.arenas x ∨
      ∀ m ∈ cutLive g.live range, x ∉ m.range.addresses) : Sound L ⟨s, cutLive g.live range⟩ where
  pairwise := (cutLive_disjoint hsound.toMappingsDisjoint hrange).1
  libraries := (cutLive_disjoint hsound.toMappingsDisjoint hrange).2
  wellFormed := hwf
  loaded_le := hloaded
  notFree m hm x hx hxfree := by
    rcases hfree x hxfree with hold | hout
    · exact hsound.cut_notFree m hm x hx hold
    · exact hout m hm hx

theorem Sound.of_consumes (hsound : Sound L g)
    (hcons : g.space.arenas.Consumes L s.arenas) (hloaded : ∀ r ∈ s.loaded, r.hi ≤ 2 ^ 32) :
    Sound L { g with space := s } where
  pairwise := hsound.pairwise
  libraries := hsound.libraries
  wellFormed := hcons.wellFormed
  loaded_le := hloaded
  notFree m hm x hx hfree := hsound.notFree m hm x hx (hfree.mono hcons.mono)

theorem Sound.add (hsound : Sound L g) {m : Mapping} (hmiss : ∀ n ∈ g.live, m.range.Misses n.range)
    (hlib : m.fixed = false → ∀ r ∈ m.prior, m.range.Misses r)
    (hnew : ∀ x ∈ m.range.addresses, ¬ GuestFree L g.space.arenas x) :
    Sound L { g with live := m :: g.live } where
  pairwise := pairwise_cons.mpr ⟨hmiss, hsound.pairwise⟩
  libraries n hn := by
    rcases mem_cons.mp hn with rfl | hold
    · exact hlib
    · exact hsound.libraries n hold
  wellFormed := hsound.wellFormed
  loaded_le := hsound.loaded_le
  notFree n hn := by
    rcases mem_cons.mp hn with rfl | hold
    · exact hnew
    · exact hsound.notFree n hold

/-! ## Steps -/

theorem free_lt {a : Arenas} (hwf : a.WellFormed L) {off : Nat} (h : a.Free L off) :
    off < 2 ^ 32 := by
  have horder := L.arenas_ordered
  have hend := L.heapEnd_lt
  have htop := hwf.small
  rw [Arenas.free_iff] at h
  omega

theorem hiWord_of_guestFree (harm : L.isArm64) {a : Arenas} (hwf : a.WellFormed L)
    {x : Nat} (h : GuestFree L a x) : a64GuestBase ≤ x ∧ x < a64GuestBase + 2 ^ 32 := by
  obtain ⟨off, rfl, hfree⟩ := guestFree_iff.mp h
  have hlt := free_lt hwf hfree
  simp only [guestAddr, harm, if_true, a64GuestVa]
  omega

theorem guestAddr_injective {x y : Nat} (h : guestAddr L x = guestAddr L y) : x = y := by
  simp only [guestAddr, a64GuestVa] at h
  split at h <;> omega

theorem windowSpan_a64GuestBase : windowSpan a64GuestBase = ⟨a64GuestBase, a64GuestBase + 2 ^ 32⟩ :=
  rfl

theorem windowSpan_misses {p q : Nat} (h : hiWord p ≠ hiWord q) :
    (windowSpan p).Misses (windowSpan q) := by
  rw [misses_iff]
  simp only [windowSpan]
  omega

theorem pageDown_window {p len : Nat} (hp : p < 2 ^ 64)
    (hfits : loWord (pageDown p) + len ≤ 2 ^ 32) :
    Interval.Within ⟨pageDown p, pageDown p + len⟩ (windowSpan p) := by
  simp only [Interval.Within, windowSpan, hiWord, loWord, pageDown, roundDown, u32] at hfits ⊢
  omega

theorem preferred_lt {hint limit : Nat} (hhint : hint < 2 ^ 64)
    (hlimit : limit ≤ 0xff) : (s.preferred hint limit).1 < 2 ^ 64 := by
  rw [AddressSpace.preferred]
  split
  · exact hhint
  · split
    · omega
    · norm_num

variable {c : MmapCall} {raw : Bool}

theorem rangeAt_guestAddr (L : Layout) (c : MmapCall) (off : Nat) :
    c.rangeAt (guestAddr L off) = guestSpan L ⟨off, off + roundUp c.len 4096⟩ := by
  simp only [MmapCall.rangeAt, guestSpan, guestAddr, a64GuestVa]
  split
  · rw [add_assoc]
  · rfl

theorem misses_guestSpan {i j : Interval} (h : i.Misses j) :
    (guestSpan L i).Misses (guestSpan L j) := by
  rw [misses_iff_forall] at h ⊢
  intro x hilo hihi hjlo hjhi
  obtain ⟨off, hoff, rfl⟩ := mem_guestSpan.mp ⟨hilo, hihi⟩
  obtain ⟨off', hoff', heq⟩ := mem_guestSpan.mp ⟨hjlo, hjhi⟩
  have hsame := guestAddr_injective heq
  subst hsame
  exact h off hoff.1 hoff.2 hoff'.1 hoff'.2

theorem guestSpan_within_image (harm : L.isArm64) {i : Interval} (hi : i.hi ≤ 2 ^ 32) :
    (guestSpan L i).Within (windowSpan a64GuestBase) := by
  rw [windowSpan_a64GuestBase]
  simp only [Interval.Within, guestSpan, guestAddr, harm, if_true, a64GuestVa]
  omega

/-- What a safe call does: it fails, keeps to the fixed address, opens a window that nobody uses
outside the image window, or takes arena memory clear of the libraries. -/
inductive Served (L : Layout) (g : MapRun) (c : MmapCall) : Option Nat → AddressSpace → Prop
  | refused {s : AddressSpace} (hcons : g.space.arenas.Consumes L s.arenas) : Served L g c none s
  | fixed {s : AddressSpace} (hfixed : fixedCall L g.space c)
      (harenas : s.arenas = g.space.arenas)
      (hfree : ∀ t ∈ guestFreeSpans L g.space.arenas, (c.rangeAt c.addr).Misses t) :
      Served L g c (some c.addr) s
  | window {s : AddressSpace} {p : Nat} (hfixed : fixedCall L g.space c = false)
      (harm : L.isArm64) (himage : hiWord p ≠ hiWord a64GuestBase)
      (hwithin : (c.rangeAt (pageDown p)).Within (windowSpan p))
      (hunused : ∀ m ∈ g.live, m.range.Misses (windowSpan p))
      (hcons : g.space.arenas.Consumes L s.arenas) : Served L g c (some (pageDown p)) s
  | arena {s : AddressSpace} {off : Nat} (hfixed : fixedCall L g.space c = false)
      (htakes : g.space.arenas.Takes L s.arenas off (roundUp c.len 4096))
      (hlibs : ∀ r ∈ g.space.loaded, Interval.Misses ⟨off, off + roundUp c.len 4096⟩ r.span) :
      Served L g c (some (guestAddr L off)) s

theorem retAddr_fixed (hfixed : fixedCall L s c) (hplace : L.isArm64 → a64IsGuestVa c.addr) :
    retAddr L (svcArg L s c.addr) = none ∨ retAddr L (svcArg L s c.addr) = some c.addr := by
  simp only [fixedCall, Bool.and_eq_true, decide_eq_true_eq] at hfixed
  cases harm : L.isArm64 with
  | false =>
    simp only [retAddr, svcArg, harm, Bool.false_eq_true, if_false]
    split
    · exact .inl rfl
    · exact .inr rfl
  | true =>
    have hva := hplace harm
    have hne := hfixed.1
    simp only [svcArg, harm, if_true, pack, a64CanonVa, hva] at hne
    simp only [a64IsGuestVa, Bool.and_eq_true, decide_eq_true_eq] at hva
    simp only [retAddr, svcArg, harm, if_true, pack, a64CanonVa, a64IsGuestVa, hva, decide_true,
      Bool.and_self, if_pos hne, a64GuestVa]
    rw [Nat.add_sub_of_le hva.1]
    exact .inr rfl

theorem served_window (hfixed : fixedCall L g.space c = false) (haddr : c.addr < 2 ^ 64)
    (hsafe : WindowSafe raw L g c) (hwindow : windowCall L g.space c)
    (hnames : NamesWindow (preferredAddr raw L g.space c))
    (hcons : g.space.arenas.Consumes L s.arenas) :
    Served L g c (some (pageDown (preferredAddr raw L g.space c))) s := by
  obtain ⟨himage, hfits, hunused⟩ := hsafe hwindow hnames
  have harm : L.isArm64 := by
    simp only [windowCall, Bool.and_eq_true] at hwindow
    exact hwindow.1.1
  have hp : preferredAddr raw L g.space c < 2 ^ 64 := by
    apply preferred_lt haddr
    rw [slotLimit]
    split <;> norm_num
  exact .window hfixed harm himage (pageDown_window hp hfits) hunused hcons

theorem served_of_safe (hwf : g.space.arenas.WellFormed L) {env : HostEnv}
    (hsafe : Safe L g (.mmap raw env c)) :
    Served L g c (mmapHandler raw L g.space env c).1 (mmapHandler raw L g.space env c).2 := by
  obtain ⟨haddr, hlen, hbranch⟩ := hsafe
  have houtcome := mmapHandler_outcome hwf raw env c
  generalize mmapHandler raw L g.space env c = out at houtcome
  obtain ⟨result, s⟩ := out
  simp only at houtcome ⊢
  have hrefl := Arenas.Consumes.refl hwf
  cases houtcome with
  | refused hcons => exact .refused hcons
  | fixed hfixed _ hopens harenas =>
    simp only [hfixed] at hbranch
    obtain ⟨hplace, hfree⟩ := hbranch
    simp only [hopens] at hplace
    rcases retAddr_fixed hfixed hplace with hnone | hsome
    · rw [hnone]
      exact .refused (harenas ▸ hrefl)
    · rw [hsome]
      exact .fixed hfixed harenas hfree
  | fixedWindow hfixed hopens harenas =>
    simp only [hfixed] at hbranch
    obtain ⟨hplace, hfree⟩ := hbranch
    have haligned := hplace ((opensWindow_iff L g.space).mp hopens).1
    rw [if_pos hopens] at haligned
    have hpage : pageDown c.addr = c.addr := by
      simp only [pageDown, roundDown]
      omega
    rw [hpage]
    exact .fixed hfixed harenas hfree
  | lazyWindow hfixed _ hwindow _ hnames harenas =>
    simp only [hfixed] at hbranch
    exact served_window hfixed haddr hbranch.1 hwindow hnames (harenas ▸ hrefl)
  | overflowWindow hfixed _ hwindow _ hnames hcons =>
    simp only [hfixed] at hbranch
    exact served_window hfixed haddr hbranch.1 hwindow hnames hcons
  | arenaWindow hfixed _ hwindow hnames hspan =>
    simp only [hfixed] at hbranch
    exact served_window hfixed haddr hbranch.1 hwindow hnames hspan.toConsumes
  | @direct _ off len hfixed hlazy hspan =>
    simp only [hfixed] at hbranch
    obtain ⟨hshort, hclear⟩ := hbranch.2 hlazy
    have hlenArg : svcArg L g.space c.len = c.len := svcArg_of_lt hlen
    have hlenEq : len = roundUp c.len 4096 := by
      rw [hspan.fullLength hshort, hlenArg]
      exact pageRound32_of_ne_zero hlen (hlenArg ▸ hspan.want)
    subst hlenEq
    rw [hspan.retAddr_eq]
    exact .arena hfixed hspan.toTakes (hspan.libraries hclear)

theorem Sound.record (hsound : Sound L g) {result : Option Nat} (hserved : Served L g c result s)
    (hloaded : s.loaded = g.space.loaded) : Sound L ⟨s, g.liveAfter L c result⟩ := by
  have hle : ∀ r ∈ s.loaded, r.hi ≤ 2 ^ 32 := hloaded ▸ hsound.loaded_le
  cases hserved with
  | refused hcons => exact hsound.of_consumes hcons hle
  | fixed hfixed harenas hfree =>
    have hcut : Sound L ⟨s, cutLive g.live (c.rangeAt c.addr)⟩ :=
      hsound.of_cut (Nat.le_add_right ..) (harenas ▸ hsound.wellFormed) hle
        fun x hx => .inl (harenas ▸ hx)
    simp only [liveAfter, hfixed]
    refine hcut.add ?_ (by simp) ?_
    · intro n hn
      obtain ⟨old, -, -, -, hpiece⟩ := mem_cutLive hn
      exact (misses_of_mem_cut hpiece).symm
    · rintro x hx ⟨t, ht, hxt⟩
      rw [harenas] at ht
      exact misses_iff_forall.mp (hfree t ht) x hx.1 hx.2 hxt.1 hxt.2
  | window hfixed harm himage hwithin hunused hcons =>
    have hnotImage := (windowSpan_misses himage).of_within hwithin
    simp only [liveAfter, hfixed]
    refine (hsound.of_consumes hcons hle).add ?_ ?_ ?_
    · intro n hn
      exact (hunused n hn).symm.of_within hwithin
    · intro _ r hr
      obtain ⟨region, hregion, rfl⟩ := mem_map.mp hr
      have himage :=
        guestSpan_within_image (i := region.span) harm (hsound.loaded_le region hregion)
      exact (hnotImage.symm.of_within himage).symm
    · intro x hx hxfree
      obtain ⟨hlo, hhi⟩ := hiWord_of_guestFree harm hcons.wellFormed hxfree
      exact misses_iff_forall.mp hnotImage x hx.1 hx.2 hlo hhi
  | arena hfixed htakes hlibs =>
    simp only [liveAfter, hfixed, rangeAt_guestAddr]
    refine (hsound.of_consumes htakes.toConsumes hle).add ?_ ?_ ?_
    · intro n hn
      rw [misses_iff_forall]
      intro x hlo hhi hnlo hnhi
      obtain ⟨off, hoff, rfl⟩ := mem_guestSpan.mp ⟨hlo, hhi⟩
      exact hsound.notFree n hn _ ⟨hnlo, hnhi⟩
        (guestFree_iff.mpr ⟨off, rfl, htakes.free off hoff.1 hoff.2⟩)
    · intro _ r hr
      obtain ⟨region, hregion, rfl⟩ := mem_map.mp hr
      exact misses_guestSpan (hlibs region hregion)
    · intro x hx hxfree
      obtain ⟨off, hoff, rfl⟩ := mem_guestSpan.mp hx
      obtain ⟨off', heq, hfree⟩ := guestFree_iff.mp hxfree
      have hsame := guestAddr_injective heq
      subst hsame
      exact htakes.taken off hoff.1 hoff.2 hfree

theorem Sound.munmap (hsound : Sound L g) {addr len : Nat}
    (hsafe : Safe L g (.munmap raw addr len)) : Sound L (step L g (.munmap raw addr len)) := by
  have hrange : addr ≤ addr + roundUp len 4096 := Nat.le_add_right ..
  simp only [step, AddressSpace.step]
  cases raw with
  | true => exact hsound.of_cut hrange hsound.wellFormed hsound.loaded_le fun x hx => .inl hx
  | false =>
    have hloaded := (svcLibcMunmap_frame L g.space addr len).1
    simp only [Bool.false_eq_true, if_false]
    rcases svcLibcMunmap_arenas L g.space addr len with
      hsame | ⟨hlazy, i, slab, primary, hfind, harenas⟩
    · exact hsound.of_cut hrange (hsame ▸ hsound.wellFormed) (hloaded ▸ hsound.loaded_le)
        fun x hx => .inl (hsame ▸ hx)
    have hclear := hsafe rfl hlazy _ hfind
    obtain ⟨hwf, hfree⟩ := reclaim_spec hsound.wellFormed hfind
    refine hsound.of_cut hrange (harenas ▸ hwf) (hloaded ▸ hsound.loaded_le) ?_
    intro x hx
    rw [harenas] at hx
    obtain ⟨off, rfl, hoff⟩ := guestFree_iff.mp hx
    rcases hfree off hoff with hold | hnew
    · exact .inl (guestFree_iff.mpr ⟨off, rfl, hold⟩)
    · refine .inr fun m hm hmem => ?_
      have hin := (mem_guestSpan (L := L)).mpr ⟨off, hnew, rfl⟩
      exact misses_iff_forall.mp (hclear m hm) _ hmem.1 hmem.2 hin.1 hin.2

theorem Sound.step (hsound : Sound L g) (op : SpaceOp) (hsafe : Safe L g op) :
    Sound L (MapRun.step L g op) := by
  cases op with
  | mmap raw env c =>
    exact hsound.record (served_of_safe hsound.wellFormed hsafe)
      (mmapHandler_outcome hsound.wellFormed raw env c).loaded
  | munmap raw addr len => exact hsound.munmap hsafe
  | mprotect env addr len =>
    obtain ⟨hcons, hloaded⟩ := svcMprotect_arenas hsound.wellFormed env addr len
    exact hsound.of_consumes hcons (hloaded ▸ hsound.loaded_le)
  | load base segs =>
    obtain ⟨harenas, -⟩ := loadSegments_frame base g.space segs
    have hloaded := loadSegments_loaded_le hsound.loaded_le base segs
    refine hsound.of_consumes ?_ hloaded
    rw [AddressSpace.step, harenas]
    exact .refl hsound.wellFormed
  | store va value =>
    obtain ⟨harenas, hloaded⟩ := guestStore_frame L g.space va value
    refine hsound.of_consumes ?_ (hloaded ▸ hsound.loaded_le)
    rw [AddressSpace.step, harenas]
    exact .refl hsound.wellFormed

end MapRun

/-- **Mapping disjointness.** In every layout, along every run of mapping calls and
library loads whose steps are safe, the live mappings are pairwise disjoint and clear of
the libraries recorded before them. -/
theorem mappingsDisjoint_of_run (isArm64 : Bool) (heapMb mmap2Base mmap2End : Int)
    (ops : List SpaceOp)
    (hops : StepsMeet (MapRun.Safe (guestLayoutInit isArm64 heapMb mmap2Base mmap2End))
      (MapRun.step (guestLayoutInit isArm64 heapMb mmap2Base mmap2End))
      (MapRun.initial (guestLayoutInit isArm64 heapMb mmap2Base mmap2End)) ops) :
    MappingsDisjoint (run (MapRun.step (guestLayoutInit isArm64 heapMb mmap2Base mmap2End))
      (MapRun.initial (guestLayoutInit isArm64 heapMb mmap2Base mmap2End)) ops) := by
  generalize guestLayoutInit isArm64 heapMb mmap2Base mmap2End = L at hops
  have hend := run_invariant (fun _ op h hsafe => h.step op hsafe) (MapRun.sound_initial L) hops
  exact hend.toMappingsDisjoint

/-- An A64 run with a library, a reclaimed tail, a fixed replacement, a window at a hint
and one from a slot. -/
def mappingRun : List SpaceOp :=
  [.load 0x10000 [⟨0, 0x3000, 5, [], true⟩], .mmap false plainHost (anonymousCall 0 0x2000),
    .munmap false (a64GuestVa 0x10001000) 0x1000,
    .mmap false plainHost (fixedAnonymousCall (a64GuestVa 0x10000000) 0x1000),
    .mmap false plainHost (anonymousCall 0x200000000 0x2000000),
    .mmap false plainHost (anonymousCall 0 0x1000000)]

theorem mappingsDisjoint_mappingRun : StepsMeet (MapRun.Safe (guestLayoutInit true 256 0 0))
        (MapRun.step (guestLayoutInit true 256 0 0)) (MapRun.initial (guestLayoutInit true 256 0 0))
        mappingRun ∧
      MappingsDisjoint (run (MapRun.step (guestLayoutInit true 256 0 0))
        (MapRun.initial (guestLayoutInit true 256 0 0)) mappingRun) :=
  (and_iff_left_of_imp (mappingsDisjoint_of_run true 256 0 0 mappingRun)).mpr (by decide)

/-- The tail of an old slab is unmapped while a newer mapping lies behind it, and the next call
overlaps that. -/
def tailReclaimRun : List SpaceOp :=
  [.mmap false plainHost (anonymousCall 0 0x2000), .munmap false 0x10001000 0x1000,
    .mmap false plainHost (anonymousCall 0 0x1000), .munmap false 0x10000000 0x1000,
    .mmap false plainHost (anonymousCall 0 0x2000)]

theorem not_mappingsDisjoint_tailReclaimRun :
    ¬ MappingsDisjoint (run (MapRun.step (defaultLayout false))
      (MapRun.initial (defaultLayout false)) tailReclaimRun) := by
  intro h
  exact absurd h.pairwise (by decide)

end Lunaria
