/-
# The bytes behind a window

A window is made of pieces: its one arena range or host mapping, or the committed
segments of a lazy reservation. A lookup leads into one piece, and inside a piece
different offsets are different bytes. What a lookup finds therefore depends on the
piece alone, and separation of all windows reduces to ownership of the pieces.
-/

import Lunaria.Space.Resolve
import Lunaria.Lib.Ownership

namespace Lunaria

open Lib List Option

def arenaBytes (lo len : Nat) : Set HostPtr :=
  {p | ∃ off, p = .arena off ∧ lo ≤ off ∧ off < lo + len}

def hostBytes (host : Nat) : Set HostPtr := {p | ∃ off, p = .overflow host off}

/-- The bytes a later step may hand out: free arena space and host mappings still to be
made. -/
def freshBytes (L : Layout) (s : AddressSpace) : Set HostPtr
  | .arena off => s.arenas.Free L off
  | .overflow host _ => s.hostMaps ≤ host

section Fresh

variable {L : Layout} {s s' : AddressSpace} {a : Arenas} {addr len : Nat}

theorem freshBytes_anti (hcons : s.arenas.Consumes L s'.arenas)
    (hhosts : s.hostMaps ≤ s'.hostMaps) : freshBytes L s' ⊆ freshBytes L s := by
  intro p hp
  cases p with
  | arena off => exact hcons.mono off hp
  | overflow host off => exact hhosts.trans hp

theorem arenaBytes_fresh (htakes : s.arenas.Takes L a addr len) :
    arenaBytes addr len ⊆ freshBytes L s := by
  rintro p ⟨off, rfl, hlo, hhi⟩
  exact htakes.free off hlo hhi

theorem arenaBytes_taken (htakes : s.arenas.Takes L s'.arenas addr len) :
    Disjoint (arenaBytes addr len) (freshBytes L s') := by
  apply Set.disjoint_left.mpr
  rintro p ⟨off, rfl, hlo, hhi⟩ hp
  exact htakes.taken off hlo hhi hp

theorem hostBytes_fresh (s : AddressSpace) : hostBytes s.hostMaps ⊆ freshBytes L s := by
  rintro p ⟨off, rfl⟩
  exact le_refl s.hostMaps

theorem hostBytes_taken (hhosts : s'.hostMaps = s.hostMaps + 1) :
    Disjoint (hostBytes s.hostMaps) (freshBytes L s') := by
  apply Set.disjoint_left.mpr
  rintro p ⟨off, rfl⟩ hp
  have hle : s'.hostMaps ≤ s.hostMaps := hp
  omega

end Fresh

def A64BackingSegment.bytes (seg : A64BackingSegment) : Set HostPtr :=
  match seg.overflowHost with
  | some host => hostBytes host
  | none => arenaBytes seg.backing seg.size

namespace A64PrefAlias

/-- The bytes of the `k`-th piece of a window. -/
def piece (window : A64PrefAlias) (k : Nat) : Set HostPtr :=
  if window.lazy then
    match window.committed[k]? with
    | some seg => seg.bytes
    | none => ∅
  else if k = 0 then
    match window.overflowBase with
    | some host => hostBytes host
    | none => arenaBytes window.base window.size
  else ∅

/-- Offset `lo` of the window is byte `p` of its `k`-th piece. -/
inductive Places (window : A64PrefAlias) : Nat → Nat → HostPtr → Prop
  | segment {k lo : Nat} {seg : A64BackingSegment} (hlazy : window.lazy = true)
      (hseg : window.committed[k]? = some seg) (hcovers : seg.covers lo = true) :
      Places window k lo (seg.hostPtr lo)
  | host {lo host : Nat} (hlazy : window.lazy = false)
      (hover : window.overflowBase = some host) : Places window 0 lo (.overflow host lo)
  | flat {lo : Nat} (hlazy : window.lazy = false) (hover : window.overflowBase = none)
      (hlo : lo < window.size) : Places window 0 lo (.arena (window.base + lo))

/-- The offset has a byte behind it: in a lazy reservation, a committed one. -/
def backs (window : A64PrefAlias) (lo : Nat) : Bool :=
  !window.lazy || window.committed.any (·.covers lo)

variable {window : A64PrefAlias}

variable {lo : Nat}

theorem covers_iff {seg : A64BackingSegment} :
    seg.covers lo ↔ seg.guestOff ≤ lo ∧ lo < seg.guestOff + seg.size := by
  rw [A64BackingSegment.covers, Bool.and_eq_true, decide_eq_true_iff, decide_eq_true_iff]

theorem hostPtr_mem_bytes {seg : A64BackingSegment} (hcovers : seg.covers lo) :
    seg.hostPtr lo ∈ seg.bytes := by
  obtain ⟨hlo, hhi⟩ := covers_iff.mp hcovers
  rw [A64BackingSegment.hostPtr, A64BackingSegment.bytes]
  cases seg.overflowHost with
  | some host => exact ⟨lo - seg.guestOff, rfl⟩
  | none => exact ⟨seg.backing + (lo - seg.guestOff), rfl, by omega, by omega⟩

theorem Places.mem_piece {k : Nat} {p : HostPtr} (h : window.Places k lo p) :
    p ∈ window.piece k := by
  cases h with
  | segment hlazy hseg hcovers =>
    rw [piece, if_pos hlazy, hseg]
    exact hostPtr_mem_bytes hcovers
  | host hlazy hover =>
    rw [piece, if_neg (by simp [hlazy]), hover]
    exact ⟨lo, rfl⟩
  | flat hlazy hover hlo =>
    rw [piece, if_neg (by simp [hlazy]), hover]
    exact ⟨window.base + lo, rfl, by omega, by omega⟩

/-- Inside one piece, different offsets are different bytes. -/
theorem Places.inj {k lo' : Nat} {p : HostPtr} (h : window.Places k lo p)
    (h' : window.Places k lo' p) : lo = lo' := by
  cases h with
  | @segment _ _ seg hlazy hseg hcovers =>
    generalize hp : seg.hostPtr lo = p at h'
    cases h' with
    | segment _ hseg' hcovers' =>
      obtain rfl := some.inj (hseg.symm.trans hseg')
      have hlo := covers_iff.mp hcovers
      have hlo' := covers_iff.mp hcovers'
      simp only [A64BackingSegment.hostPtr] at hp
      cases hover : seg.overflowHost with
      | some host =>
        simp only [hover, HostPtr.overflow.injEq] at hp
        omega
      | none =>
        simp only [hover, HostPtr.arena.injEq] at hp
        omega
    | host hlazy' | flat hlazy' => simp [hlazy] at hlazy'
  | @host _ host hlazy hover =>
    generalize hp : HostPtr.overflow host lo = p at h'
    cases h' with
    | segment hlazy' => simp [hlazy] at hlazy'
    | host =>
      simp only [HostPtr.overflow.injEq] at hp
      exact hp.2
    | flat _ hover' => simp [hover] at hover'
  | flat hlazy hover hlo =>
    generalize hp : HostPtr.arena (window.base + lo) = p at h'
    cases h' with
    | segment hlazy' => simp [hlazy] at hlazy'
    | host hlazy' hover' => simp [hover] at hover'
    | flat =>
      simp only [HostPtr.arena.injEq] at hp
      omega

theorem segmentAt_spec {i : Nat} (h : window.segmentAt lo = some i) :
    ∃ seg, window.committed[i]? = some seg ∧ seg.covers lo := by
  have hscan : window.committed.findIdx? (·.covers lo) = some i →
      ∃ seg, window.committed[i]? = some seg ∧ seg.covers lo := by
    intro hfind
    obtain ⟨hlt, hcovers, -⟩ := findIdx?_eq_some_iff_getElem.mp hfind
    exact ⟨window.committed[i], getElem?_eq_getElem hlt, hcovers⟩
  rw [segmentAt] at h
  split at h
  · rename_i j _
    split at h
    · rename_i hcached
      obtain rfl := some.inj h
      cases hget : window.committed[j]? with
      | none => simp [hget] at hcached
      | some seg => exact ⟨seg, rfl, by simpa [hget] using hcached⟩
    · exact hscan h
  · exact hscan h

theorem segmentAt_isSome (h : window.committed.any (·.covers lo)) :
    ∃ i, window.segmentAt lo = some i := by
  have hscan : ∃ i, window.committed.findIdx? (·.covers lo) = some i := by
    apply isSome_iff_exists.mp
    rw [findIdx?_isSome]
    exact h
  rw [segmentAt]
  split
  · split
    · exact ⟨_, rfl⟩
    · exact hscan
  · exact hscan

theorem resolve_places (hback : window.backs lo) (hlo : lo < window.size)
    (hflat : window.lazy = false → window.overflowBase = none → window.base + lo < 2 ^ 32) :
    ∃ k, window.Places k lo (window.resolve lo) := by
  rw [resolve]
  cases hlazy : window.lazy with
  | true =>
    rw [backs, hlazy] at hback
    obtain ⟨i, hi⟩ := segmentAt_isSome (by simpa using hback)
    obtain ⟨seg, hseg, hcovers⟩ := segmentAt_spec hi
    simp only [hi, bind_some, hseg]
    exact ⟨i, .segment hlazy hseg hcovers⟩
  | false =>
    cases hover : window.overflowBase with
    | some host => exact ⟨0, .host hlazy hover⟩
    | none =>
      simp only [u32_of_lt (hflat hlazy hover)]
      exact ⟨0, .flat hlazy hover hlo⟩

theorem piece_commit (hlazy : window.lazy) (seg : A64BackingSegment) (k : Nat) :
    (window.commit seg).piece k =
      if k = window.committed.length then seg.bytes else window.piece k := by
  have hlazy' : (window.commit seg).lazy := hlazy
  rw [piece, if_pos hlazy', piece, if_pos hlazy, commit]
  rcases lt_trichotomy k window.committed.length with hlt | heq | hgt
  · rw [getElem?_append_left hlt, if_neg (by omega)]
  · subst heq
    simp
  · rw [getElem?_eq_none (by simp; omega), getElem?_eq_none (by omega), if_neg (by omega)]

theorem piece_uncached (k : Nat) : window.uncached.piece k = window.piece k := rfl

end A64PrefAlias

end Lunaria
