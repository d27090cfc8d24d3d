/-
# The memory law of lazy reservations

An A64 guest reserves address space without access rights and commits parts of it
later. Seen from the guest a reservation is a plain byte array: a load returns what was
last stored at its offset, or zero. That array is the abstract memory here, and the
address space implements it as long as no two segments cover one offset. Overlapping
commits break it, because the lookup cache decides which segment answers.
-/

import Lunaria.Space.FreshContents
import Lunaria.Space.WindowBytes

namespace Lunaria

open Lib List Option A64PrefAlias

/-- What a guest does with one reservation, at offsets into its window. -/
inductive LazyOp
  | commit (env : HostEnv) (off len : Nat)
  | store (off : Nat) (value : UInt8)
  | load (off : Nat)

/-- The address space, and what the guest should see: the value last stored at each offset, or zero.
-/
structure LazyRun where
  space : AddressSpace
  stored : ByteMemory

namespace LazyRun

def step (L : Layout) (hi : Nat) (r : LazyRun) : LazyOp → LazyRun
  | .commit env off len => { r with space := (svcMprotect L r.space env (windowVa hi off) len).2 }
  | .store off value => ⟨guestStore L r.space (windowVa hi off) value, r.stored.writeByte off value⟩
  | .load off => { r with space := (guestLoad L r.space (windowVa hi off)).2 }

end LazyRun

/-- The offset lies in a committed part of the reservation. -/
def AddressSpace.committedAt (s : AddressSpace) (hi off : Nat) : Bool :=
  (s.aliases hi).any fun window => window.committed.any (·.covers off)

/-- Every load from a committed part returns the value last stored there. -/
def LoadsLatest (L : Layout) (hi : Nat) (r : LazyRun) : Prop :=
  ∀ off, r.space.committedAt hi off = true →
    (guestLoad L r.space (windowVa hi off)).1 = r.stored off

/-- The range is committed by one segment already, or no segment touches it. -/
def A64PrefAlias.commitsApart (window : A64PrefAlias) (off size : Nat) : Bool :=
  window.coversRange off size || window.committed.all fun seg =>
    decide (Interval.Misses ⟨off, off + size⟩ ⟨seg.guestOff, seg.guestOff + seg.size⟩)

/-- The steps of the law: accesses in committed parts, stores past the write guard, and no commit
that overlaps an earlier one in part. -/
def LazyRun.Safe (L : Layout) (hi : Nat) (r : LazyRun) : LazyOp → Prop
  | .commit _ off len => off < 2 ^ 32 ∧
      (r.space.aliases hi).all (·.commitsApart off (commitSize len)) = true
  | .store off _ => r.space.committedAt hi off = true ∧
      writeBlocked L r.space (windowVa hi off) 1 = false
  | .load off => r.space.committedAt hi off = true

instance LazyRun.decidableSafe (L : Layout) (hi : Nat) (r : LazyRun) :
    ∀ op, Decidable (LazyRun.Safe L hi r op)
  | .commit _ _ _ => inferInstanceAs (Decidable (_ ∧ _))
  | .store _ _ => inferInstanceAs (Decidable (_ ∧ _))
  | .load off => inferInstanceAs (Decidable (r.space.committedAt hi off = true))

/-! ## The refinement -/

/-- The address space implements the reservation: each offset is in one segment at most, segments
own their bytes, and those hold what was stored. What is still to be handed out or committed is
zero. -/
structure LazyRun.Faithful (L : Layout) (hi : Nat) (window : A64PrefAlias) (r : LazyRun) :
    Prop where
  wellFormed : r.space.arenas.WellFormed L
  entry : r.space.aliases hi = some window
  lazy : window.lazy = true
  size_le : window.size ≤ 2 ^ 32
  inside : ∀ seg ∈ window.committed, seg.guestOff + seg.size ≤ window.size
  fresh : ∀ p ∈ freshBytes L r.space, r.space.mem.read p = 0
  owned : Owned window.piece (freshBytes L r.space)
  single : ∀ {k k' off p p'}, window.Places k off p → window.Places k' off p' → k = k'
  reads : ∀ {k off p}, window.Places k off p → r.space.mem.read p = r.stored off
  unstored : ∀ off, window.committed.any (·.covers off) = false → r.stored off = 0

namespace A64PrefAlias

variable {window : A64PrefAlias}

variable {k off : Nat} {p : HostPtr}

section

variable (hlazy : window.lazy)
include hlazy

theorem places_lazy : window.Places k off p ↔
      ∃ seg, window.committed[k]? = some seg ∧ seg.covers off ∧ p = seg.hostPtr off := by
  constructor
  · intro h
    cases h with
    | segment _ hseg hcovers => exact ⟨_, hseg, hcovers, rfl⟩
    | host hlazy' | flat hlazy' => simp [hlazy] at hlazy'
  · rintro ⟨seg, hseg, hcovers, rfl⟩
    exact .segment hlazy hseg hcovers

theorem places_functional {p' : HostPtr}
    (h : window.Places k off p) (h' : window.Places k off p') : p = p' := by
  obtain ⟨seg, hseg, -, rfl⟩ := (places_lazy hlazy).mp h
  obtain ⟨seg', hseg', -, rfl⟩ := (places_lazy hlazy).mp h'
  rw [some.inj (hseg.symm.trans hseg')]

theorem places_recache (cache : Option Nat) :
    A64PrefAlias.Places { window with lastSegIdx := cache } k off p ↔ window.Places k off p := by
  have hlazy' : A64PrefAlias.lazy { window with lastSegIdx := cache } := hlazy
  rw [places_lazy hlazy, places_lazy hlazy']

theorem places_commit {seg : A64BackingSegment} : (window.commit seg).Places k off p ↔
    window.Places k off p ∨
      (k = window.committed.length ∧ seg.covers off ∧ p = seg.hostPtr off) := by
  have hlazy' : (window.commit seg).lazy := hlazy
  rw [places_lazy hlazy, places_lazy hlazy', commit]
  constructor
  · rintro ⟨seg', hseg, hcovers, rfl⟩
    rcases lt_trichotomy k window.committed.length with hlt | heq | hgt
    · rw [getElem?_append_left hlt] at hseg
      exact .inl ⟨seg', hseg, hcovers, rfl⟩
    · subst heq
      rw [getElem?_append_right le_rfl, Nat.sub_self] at hseg
      cases hseg
      exact .inr ⟨rfl, hcovers, rfl⟩
    · rw [getElem?_eq_none (by rw [length_append, length_singleton]; omega)] at hseg
      simp at hseg
  · rintro (⟨seg', hseg, hcovers, rfl⟩ | ⟨rfl, hcovers, rfl⟩)
    · have hlt := (List.getElem?_eq_some_iff.mp hseg).1
      exact ⟨seg', by rw [getElem?_append_left hlt, hseg], hcovers, rfl⟩
    · exact ⟨seg, by simp, hcovers, rfl⟩

theorem Places.covered (h : window.Places k off p) : window.committed.any (·.covers off) := by
  obtain ⟨seg, hseg, hcovers, -⟩ := (places_lazy hlazy).mp h
  exact any_eq_true.mpr ⟨seg, mem_of_getElem? hseg, hcovers⟩

end

end A64PrefAlias

/-- An ordinary window that a 64-bit address can name. -/
structure WindowKey (hi : Nat) : Prop where
  ne_zero : hi ≠ 0
  lt : hi < 2 ^ 32
  plain : hi ≠ imageWindow

namespace LazyRun

variable {L : Layout} {hi : Nat} {window : A64PrefAlias} {r : LazyRun}

section

variable (h : r.Faithful L hi window)
include h

theorem Faithful.committed_iff (off : Nat) :
    r.space.committedAt hi off = window.committed.any (·.covers off) := by
  rw [AddressSpace.committedAt, h.entry, any_some]

theorem Faithful.off_lt {off : Nat} (hoff : r.space.committedAt hi off) : off < window.size := by
  rw [h.committed_iff] at hoff
  obtain ⟨seg, hseg, hcovers⟩ := any_eq_true.mp hoff
  have hinside := h.inside seg hseg
  have hrange := covers_iff.mp hcovers
  omega

theorem Faithful.ptr_places (hkey : WindowKey hi) {off : Nat} (hoff : r.space.committedAt hi off) :
    ∃ k, window.Places k off (r.space.ptr L (windowVa hi off)).1 := by
  have hlt := h.off_lt hoff
  have hsize := h.size_le
  rw [ptr_window h.entry hkey.ne_zero hkey.lt hkey.plain (by omega) fun _ _ => hlt]
  apply resolve_places _ hlt
  · intro hlazy
    simp [h.lazy] at hlazy
  · rw [h.committed_iff] at hoff
    rw [A64PrefAlias.backs, hoff, Bool.or_true]

theorem Faithful.loadsLatest (harm : L.isArm64) (hkey : WindowKey hi) : LoadsLatest L hi r := by
  intro off hoff
  obtain ⟨k, hplaces⟩ := h.ptr_places hkey hoff
  rw [guestLoad_arm64 harm]
  exact h.reads hplaces

/-- Lookups only move the cache. -/
theorem Faithful.recached {s' : AddressSpace} (hcache : r.space.Recached s') :
    ∃ cache, Faithful L hi { window with lastSegIdx := cache } ⟨s', r.stored⟩ := by
  obtain ⟨aliases, rfl, hsame⟩ := hcache
  have hentry := hsame hi
  rw [h.entry] at hentry
  obtain ⟨window', hnew, heq⟩ := map_eq_some_iff.mp hentry
  rw [eq_of_uncached heq] at hnew
  refine ⟨window'.lastSegIdx, { h with
    entry := hnew, single := fun hp hp' => ?_, reads := fun hp => ?_ }⟩
  · rw [places_recache h.lazy] at hp hp'
    exact h.single hp hp'
  · rw [places_recache h.lazy] at hp
    exact h.reads hp

/-- Writing the byte of an offset is storing at that offset, and at no other. -/
theorem Faithful.write {k off : Nat} {p : HostPtr}
    (hplaces : window.Places k off p) (value : UInt8) : Faithful L hi window
      ⟨{ r.space with mem := r.space.mem.write p value }, r.stored.writeByte off value⟩ := by
  refine { h with
    fresh := fun q hq => ?_
    reads := fun {k' off' q} hplaces' => ?_
    unstored := fun off' hoff' => ?_ }
  · have hne : q ≠ p := by
      rintro rfl
      exact h.owned.not_unclaimed hplaces.mem_piece hq
    rw [HostMemory.read_write_of_ne _ _ hne]
    exact h.fresh q hq
  · simp only [ByteMemory.writeByte]
    by_cases hoff : off' = off
    · subst hoff
      have hk := h.single hplaces hplaces'
      subst hk
      rw [places_functional h.lazy hplaces' hplaces, HostMemory.read_write_self, if_pos rfl]
    · have hne : q ≠ p := by
        rintro rfl
        have hk := h.owned.owner_unique hplaces'.mem_piece hplaces.mem_piece
        subst hk
        exact hoff (hplaces'.inj hplaces)
      rw [HostMemory.read_write_of_ne _ _ hne, if_neg hoff]
      exact h.reads hplaces'
  · have hne : off' ≠ off := by
      rintro rfl
      rw [hplaces.covered h.lazy] at hoff'
      simp at hoff'
    simp only [ByteMemory.writeByte, if_neg hne]
    exact h.unstored off' hoff'

/-- A commit of an untouched range adds a segment of zero bytes. -/
theorem Faithful.addSegment {s' : AddressSpace}
    {seg : A64BackingSegment} (hcons : r.space.arenas.Consumes L s'.arenas)
    (hhosts : r.space.hostMaps ≤ s'.hostMaps) (hmem : s'.mem = r.space.mem)
    (hentry : s'.aliases hi = some (window.commit seg))
    (hfits : seg.guestOff + seg.size ≤ window.size)
    (hapart : ∀ old ∈ window.committed, Interval.Misses ⟨seg.guestOff, seg.guestOff + seg.size⟩
      ⟨old.guestOff, old.guestOff + old.size⟩)
    (hnew : seg.bytes ⊆ freshBytes L r.space) (htaken : Disjoint seg.bytes (freshBytes L s')) :
    Faithful L hi (window.commit seg) ⟨s', r.stored⟩ := by
  have hfresh := freshBytes_anti (L := L) hcons hhosts
  have huncovered : ∀ off, seg.covers off → window.committed.any (·.covers off) = false := by
    intro off hcovers
    rw [← Bool.not_eq_true]
    intro hold
    obtain ⟨old, hmem, hcovers'⟩ := any_eq_true.mp hold
    obtain ⟨hlo, hhi⟩ := covers_iff.mp hcovers
    obtain ⟨hlo', hhi'⟩ := covers_iff.mp hcovers'
    exact Interval.misses_iff_forall.mp (hapart old hmem) off hlo hhi hlo' hhi'
  have hclash : ∀ {k off p}, window.Places k off p → seg.covers off → False := by
    intro k off p hplaces hcovers
    have hcovered := hplaces.covered h.lazy
    rw [huncovered off hcovers] at hcovered
    simp at hcovered
  refine ⟨hcons.wellFormed, hentry, h.lazy, h.size_le, fun old hold => ?_, fun q hq => ?_, ?_,
    fun hp hp' => ?_, fun {k off p} hp => ?_, fun off hoff => ?_⟩
  · rcases mem_append.mp hold with hold | hold
    · exact h.inside old hold
    · rw [mem_singleton.mp hold]
      exact hfits
  · rw [hmem]
    exact h.fresh q (hfresh hq)
  · apply h.owned.claim window.committed.length hnew ?_ ?_ hfresh htaken
    · rw [piece_commit h.lazy, if_pos rfl]
      exact Set.subset_union_right
    · intro k hk
      rw [piece_commit h.lazy, if_neg hk]
  · rw [places_commit h.lazy] at hp hp'
    rcases hp with hp | ⟨rfl, hcovers, -⟩
    · rcases hp' with hp' | ⟨-, hcovers', -⟩
      · exact h.single hp hp'
      · exact absurd hcovers' (hclash hp)
    · rcases hp' with hp' | ⟨rfl, -, -⟩
      · exact absurd hcovers (hclash hp')
      · rfl
  · rw [hmem]
    rcases (places_commit h.lazy).mp hp with hp | ⟨-, hcovers, rfl⟩
    · exact h.reads hp
    · rw [h.fresh _ (hnew (hostPtr_mem_bytes hcovers))]
      exact (h.unstored off (huncovered off hcovers)).symm
  · apply h.unstored
    rw [A64PrefAlias.commit, any_append, Bool.or_eq_false_iff] at hoff
    exact hoff.1

theorem Faithful.commit (hkey : WindowKey hi) (env : HostEnv)
    (off len : Nat) (hsafe : Safe L hi r (.commit env off len)) :
    ∃ window', Faithful L hi window' (LazyRun.step L hi r (.commit env off len)) := by
  obtain ⟨hoff, hall⟩ := hsafe
  rw [h.entry, all_some] at hall
  have houtcome := svcMprotect_outcome h.wellFormed env (windowVa hi off) len
  rw [LazyRun.step]
  generalize svcMprotect L r.space env (windowVa hi off) len = out at houtcome
  obtain ⟨ok, s'⟩ := out
  have hopened : ∀ {window'}, OpensSegment L r.space (windowVa hi off) len window' →
      window' = window ∧ off + commitSize len ≤ window.size ∧
        ∀ old ∈ window.committed, Interval.Misses ⟨off, off + commitSize len⟩
          ⟨old.guestOff, old.guestOff + old.size⟩ := by
    rintro window' ⟨-, hentry, -, -, hfits, huncovered⟩
    rw [hiWord_windowVa hkey.lt hoff] at hentry
    obtain rfl := some.inj (hentry.symm.trans h.entry)
    rw [loWord_windowVa hoff] at hfits huncovered
    rw [A64PrefAlias.commitsApart, huncovered] at hall
    exact ⟨rfl, hfits, fun old hold => of_decide_eq_true (all_eq_true.mp hall old hold)⟩
  cases houtcome with
  | passed | outside | covered => exact ⟨window, h⟩
  | @refused a hcons =>
    have hfresh : freshBytes L { r.space with arenas := a } ⊆ freshBytes L r.space :=
      freshBytes_anti hcons le_rfl
    exact ⟨window, { h with
      wellFormed := hcons.wellFormed
      fresh := fun q hq => h.fresh q (hfresh hq)
      owned := h.owned.anti (fun _ _ hp => hp) hfresh }⟩
  | committedArena hopen htakes =>
    obtain ⟨rfl, hfits, hapart⟩ := hopened hopen
    rw [hiWord_windowVa hkey.lt hoff, loWord_windowVa hoff]
    exact ⟨_, h.addSegment htakes.toConsumes le_rfl rfl (if_pos rfl) hfits hapart
      (arenaBytes_fresh htakes) (arenaBytes_taken htakes)⟩
  | committedHost hopen hcons =>
    obtain ⟨rfl, hfits, hapart⟩ := hopened hopen
    rw [hiWord_windowVa hkey.lt hoff, loWord_windowVa hoff]
    exact ⟨_, h.addSegment hcons (Nat.le_succ _) rfl (if_pos rfl) hfits hapart
      (hostBytes_fresh r.space) (hostBytes_taken rfl)⟩

theorem Faithful.store (harm : L.isArm64) (hkey : WindowKey hi) (off : Nat) (value : UInt8)
    (hsafe : Safe L hi r (.store off value)) :
    ∃ window', Faithful L hi window' (LazyRun.step L hi r (.store off value)) := by
  obtain ⟨hoff, hguard⟩ := hsafe
  obtain ⟨k, hplaces⟩ := h.ptr_places hkey hoff
  obtain ⟨s₁, hcache, hstore⟩ := guestStore_spec L r.space _ value
  have htarget : storeTarget L r.space (windowVa hi off) =
      some (r.space.ptr L (windowVa hi off)).1 := by
    rw [storeTarget, if_pos harm, if_neg (by simp [hguard])]
  obtain ⟨cache, hrecached⟩ := h.recached hcache
  rw [LazyRun.step, hstore, htarget, elim_some, ← hcache.mem]
  exact ⟨_, hrecached.write ((places_recache h.lazy cache).mpr hplaces) value⟩

/-- Every safe step keeps the refinement. -/
theorem Faithful.step (harm : L.isArm64)
    (hkey : WindowKey hi) (op : LazyOp) (hsafe : Safe L hi r op) :
    ∃ window', Faithful L hi window' (LazyRun.step L hi r op) := by
  cases op with
  | commit env off len => exact h.commit hkey env off len hsafe
  | store off value => exact h.store harm hkey off value hsafe
  | load off =>
    obtain ⟨cache, hrecached⟩ := h.recached (guestLoad_recached L r.space _)
    exact ⟨_, hrecached⟩

end

end LazyRun

/-! ## Reservations -/

theorem hiWord_pageDown (va : Nat) : hiWord (pageDown va) = hiWord va := by
  simp only [hiWord, pageDown, roundDown, u32]
  omega

/-- A lazy call that is answered opens an empty window, and nothing else changes. -/
theorem reservation_faithful {L : Layout} {s : AddressSpace} (hblank : Blank L s) (env : HostEnv)
    (c : MmapCall) (hfixed : fixedCall L s c = false) (hlazy : lazyCall false L s c)
    {addr : Nat} (hret : (svcLibcMmap L s env c).1 = some addr)
    (hplain : hiWord addr ≠ imageWindow) : WindowKey (hiWord addr) ∧ ∃ window,
      LazyRun.Faithful L (hiWord addr) window ⟨(svcLibcMmap L s env c).2, fun _ => 0⟩ := by
  have houtcome := mmapHandler_outcome hblank.wellFormed false env c
  rw [svcLibcMmap] at hret ⊢
  generalize mmapHandler false L s env c = out at houtcome hret
  obtain ⟨answer, s'⟩ := out
  cases houtcome with
  | refused => simp at hret
  | fixed hfixed' | fixedWindow hfixed' => simp [hfixed] at hfixed'
  | overflowWindow _ hlazy' | arenaWindow _ hlazy' | direct _ hlazy' => simp [hlazy] at hlazy'
  | lazyWindow _ _ _ _ hnames harenas hhosts hset =>
    cases hret
    rw [hiWord_pageDown] at hplain ⊢
    have hle := hnames.2.2
    refine ⟨⟨hnames.2.1, by omega, hplain⟩,
      { size := pageRound32 (svcArg L s c.len), lazy := true }, ?_, ?_, rfl, (pageRound32_lt _).le,
      ?_, ?_, ?_, ?_, ?_, fun _ _ => rfl⟩
    · rw [harenas]
      exact hblank.wellFormed
    · exact hset.entry
    · simp
    · intro p hp
      rw [hset.mem]
      cases p with
      | arena off => exact hblank.free off (harenas ▸ hp)
      | overflow host off => exact hblank.unmade host (hhosts ▸ hp) off
    · have hempty : ∀ k, A64PrefAlias.piece
          { size := pageRound32 (svcArg L s c.len), lazy := true } k = ∅ := by
        simp [A64PrefAlias.piece]
      exact ⟨fun i j _ => by rw [hempty i]; exact Set.empty_disjoint _,
        fun i => by rw [hempty i]; exact Set.empty_disjoint _⟩
    · intro k k' off p p' hp
      obtain ⟨seg, hseg, -⟩ := (places_lazy rfl).mp hp
      simp at hseg
    · intro k off p hp
      obtain ⟨seg, hseg, -⟩ := (places_lazy rfl).mp hp
      simp at hseg

/-- **The memory law of lazy reservations.** After any history that keeps unclaimed memory blank, an
A64 reservation outside the image window is plain memory along every run of safe steps. -/
theorem loadsLatest_of_run (heapMb mmap2Base mmap2End : Int) (before : List SpaceOp)
    (hbefore : StepsMeet (FreshSafe (guestLayoutInit true heapMb mmap2Base mmap2End))
      (AddressSpace.step (guestLayoutInit true heapMb mmap2Base mmap2End))
      (.initial (guestLayoutInit true heapMb mmap2Base mmap2End)) before)
    (s : AddressSpace) (hs : s = run (AddressSpace.step
      (guestLayoutInit true heapMb mmap2Base mmap2End))
      (.initial (guestLayoutInit true heapMb mmap2Base mmap2End)) before)
    (env : HostEnv) (c : MmapCall)
    (hfixed : fixedCall (guestLayoutInit true heapMb mmap2Base mmap2End) s c = false)
    (hlazy : lazyCall false (guestLayoutInit true heapMb mmap2Base mmap2End) s c = true)
    (addr : Nat)
    (hret : (svcLibcMmap (guestLayoutInit true heapMb mmap2Base mmap2End) s env c).1 = some addr)
    (hplain : hiWord addr ≠ imageWindow) (ops : List LazyOp)
    (hops : StepsMeet (LazyRun.Safe (guestLayoutInit true heapMb mmap2Base mmap2End) (hiWord addr))
      (LazyRun.step (guestLayoutInit true heapMb mmap2Base mmap2End) (hiWord addr))
      ⟨(svcLibcMmap (guestLayoutInit true heapMb mmap2Base mmap2End) s env c).2, fun _ => 0⟩ ops) :
    LoadsLatest (guestLayoutInit true heapMb mmap2Base mmap2End) (hiWord addr)
      (run (LazyRun.step (guestLayoutInit true heapMb mmap2Base mmap2End) (hiWord addr))
        ⟨(svcLibcMmap (guestLayoutInit true heapMb mmap2Base mmap2End) s env c).2, fun _ => 0⟩
        ops) := by
  have harm : (guestLayoutInit true heapMb mmap2Base mmap2End).isArm64 := rfl
  generalize guestLayoutInit true heapMb mmap2Base mmap2End = L at *
  have hblank : Blank L s :=
    hs ▸ run_invariant (fun _ op h hsafe => h.step op hsafe) (blank_initial L) hbefore
  obtain ⟨hkey, hstart⟩ := reservation_faithful hblank env c hfixed hlazy hret hplain
  have preserved : ∀ r op, (∃ window, LazyRun.Faithful L (hiWord addr) window r) →
      LazyRun.Safe L (hiWord addr) r op →
      ∃ window, LazyRun.Faithful L (hiWord addr) window (LazyRun.step L (hiWord addr) r op) := by
    rintro r op ⟨window, h⟩ hsafe
    exact h.step harm hkey op hsafe
  obtain ⟨window, hend⟩ := run_invariant preserved hstart hops
  exact hend.loadsLatest harm hkey

def reservationCall : MmapCall := { anonymousCall 0x100000000 0x2000000 with prot := 0 }

/-- Two commits side by side, with stores into both. -/
def adjacentCommits : List LazyOp :=
  [.commit plainHost 0 0x1000, .store 0x10 7, .commit plainHost 0x1000 0x1800, .store 0x1800 9,
    .load 0x10]

theorem loadsLatest_adjacentCommits : LoadsLatest (guestLayoutInit true 256 0 0) 1
      (run (LazyRun.step (guestLayoutInit true 256 0 0) 1)
        ⟨(svcLibcMmap (guestLayoutInit true 256 0 0) (.initial (guestLayoutInit true 256 0 0))
          plainHost reservationCall).2, fun _ => 0⟩ adjacentCommits) :=
  loadsLatest_of_run 256 0 0 [] trivial _ rfl plainHost reservationCall (by decide) (by decide)
    0x100000000 (by decide) (by decide) adjacentCommits (by decide)

/-- The second commit contains the first. The access to its tail moves the cache. -/
def overlappingCommits : List LazyOp :=
  [.commit plainHost 0 0x1000, .commit plainHost 0 0x2000, .store 0x800 7, .load 0x1800]

/-- The byte stored through the first segment is then looked up in the second. -/
theorem not_loadsLatest_overlappingCommits : ¬ LoadsLatest (guestLayoutInit true 256 0 0) 1
      (run (LazyRun.step (guestLayoutInit true 256 0 0) 1)
        ⟨(svcLibcMmap (guestLayoutInit true 256 0 0) (.initial (guestLayoutInit true 256 0 0))
          plainHost reservationCall).2, fun _ => 0⟩ overlappingCommits) := by
  intro hlaw
  have hbyte := hlaw 0x800 (by decide)
  revert hbyte
  decide

end Lunaria
