/-
# Resolving addresses

What `ArmMemory::ptr` answers for an address of the image window and for an
address of an aliased window, and what a lookup may change: nothing but the
segment cache of one lazy reservation. Loads and stores are then a read and a
write at the resolved host byte.
-/

import Lunaria.Space.Outcomes

namespace Lunaria

open Lib Option

/-- The key of the fixed image window. -/
def imageWindow : Nat := 0x7000

/-- The address at offset `lo` of the window keyed `hi`. -/
def windowVa (hi lo : Nat) : Nat := hi * 2 ^ 32 + lo

/-- The preferred address is the start of a window, and not of the image window. -/
def PlainWindow (preferred : Nat) : Prop :=
  pageDown preferred = windowVa (hiWord preferred) 0 ∧ hiWord preferred ≠ imageWindow
  deriving Decidable

/-- The host byte a window has at an offset. -/
def A64PrefAlias.resolve (window : A64PrefAlias) (lo : Nat) : HostPtr :=
  if window.lazy then
    match (window.segmentAt lo).bind (window.committed[·]?) with
    | some seg => seg.hostPtr lo
    | none => .arena 0
  else
    match window.overflowBase with
    | some host => .overflow host lo
    | none => .arena (u32 (window.base + lo))

/-- The window without its lookup cache. -/
def A64PrefAlias.uncached (window : A64PrefAlias) : A64PrefAlias :=
  { window with lastSegIdx := none }

theorem A64PrefAlias.eq_of_uncached {window window' : A64PrefAlias}
    (h : window'.uncached = window.uncached) :
    window' = { window with lastSegIdx := window'.lastSegIdx } := by
  cases window'
  simp only [uncached, mk.injEq] at h ⊢
  exact ⟨h.1, h.2.1, h.2.2.1, h.2.2.2.1, h.2.2.2.2.1, trivial⟩

/-- Nothing but segment caches differs. -/
def AddressSpace.Recached (s s' : AddressSpace) : Prop :=
  ∃ aliases, s' = { s with aliases := aliases } ∧
    ∀ hi, (aliases hi).map A64PrefAlias.uncached = (s.aliases hi).map A64PrefAlias.uncached

section Words

variable {hi lo : Nat}

theorem hiWord_windowVa (hhi : hi < 2 ^ 32) (hlo : lo < 2 ^ 32) : hiWord (windowVa hi lo) = hi := by
  rw [hiWord, windowVa, u32]
  omega

theorem loWord_windowVa (hlo : lo < 2 ^ 32) : loWord (windowVa hi lo) = lo := by
  rw [loWord, windowVa, u32]
  omega

theorem a64IsGuestVa_iff {va : Nat} :
    a64IsGuestVa va ↔ a64GuestBase ≤ va ∧ va < a64GuestBase + a64GuestSize := by
  rw [a64IsGuestVa, Bool.and_eq_true, decide_eq_true_iff, decide_eq_true_iff]

theorem a64IsGuestVa_windowVa (hhi : hi ≠ imageWindow) (hlo : lo < 2 ^ 32) :
    a64IsGuestVa (windowVa hi lo) = false := by
  rw [imageWindow] at hhi
  rw [← Bool.not_eq_true, a64IsGuestVa_iff, windowVa, a64GuestBase, a64GuestSize]
  omega

theorem a64IsGuestVa_a64GuestVa {off : Nat} (hoff : off < 2 ^ 32) :
    a64IsGuestVa (a64GuestVa off) := by
  rw [a64IsGuestVa_iff, a64GuestVa, a64GuestSize]
  omega

theorem windowVa_add (hi lo i : Nat) : windowVa hi lo + i = windowVa hi (lo + i) := by
  rw [windowVa, windowVa, add_assoc]

theorem a64GuestVa_add (off i : Nat) : a64GuestVa off + i = a64GuestVa (off + i) := by
  rw [a64GuestVa, a64GuestVa, add_assoc]

end Words

/-! ## What is packed is a word -/

section

variable (L : Layout) (s : AddressSpace)

theorem canonUnaliased_lt (hi : Nat) {lo : Nat}
    (hlo : lo < 2 ^ 32) : canonUnaliased L s hi lo < 2 ^ 32 := by
  rw [canonUnaliased]
  split
  · exact hlo
  split
  · split
    · exact u32_lt _
    split
    · exact u32_lt _
    simp only
    generalize L.mmap2Base + _ = slot
    split
    · exact hlo
    · exact u32_lt _
  · exact hlo

theorem a64CanonVa_lt (va : Nat) : a64CanonVa L s va < 2 ^ 32 := by
  rw [a64CanonVa]
  split
  · rename_i h
    rw [a64IsGuestVa_iff, a64GuestSize] at h
    omega
  simp only
  split
  · exact u32_lt _
  split
  · exact canonUnaliased_lt L s _ (u32_lt _)
  split
  · split
    · exact u32_lt _
    · norm_num
  split
  · exact u32_lt _
  · split
    · exact u32_lt _
    · exact canonUnaliased_lt L s _ (u32_lt _)

theorem pack_lt (y : Nat) : pack L s y < 2 ^ 32 := by
  rw [pack]
  split
  · exact a64CanonVa_lt L s y
  split
  · exact u32_lt _
  · split
    · exact a64CanonVa_lt L s y
    · exact u32_lt _

end

section Lookup

variable {L : Layout} {s : AddressSpace}

theorem ptr_image {off : Nat} (hoff : off < 2 ^ 32) :
    s.ptr L (a64GuestVa off) = (.arena off, s) := by
  rw [AddressSpace.ptr, if_pos (a64IsGuestVa_a64GuestVa hoff), a64GuestVa, Nat.add_sub_cancel_left]

theorem ptr_window {hi lo : Nat} {window : A64PrefAlias} (hentry : s.aliases hi = some window)
    (hhi : hi ≠ 0) (hlt : hi < 2 ^ 32) (hplain : hi ≠ imageWindow) (hlo : lo < 2 ^ 32)
    (hspan : window.lazy = false → window.overflowBase = none → lo < window.size) :
    (s.ptr L (windowVa hi lo)).1 = window.resolve lo := by
  have himage := a64IsGuestVa_windowVa hplain hlo
  rw [AddressSpace.ptr, A64PrefAlias.resolve]
  simp only [himage, hiWord_windowVa hlt hlo, loWord_windowVa hlo, if_neg hhi, hentry]
  cases hlazy : window.lazy with
  | true =>
    cases window.segmentAt lo with
    | none => rfl
    | some i =>
      simp only [bind_some]
      cases window.committed[i]? with
      | none | some _ => rfl
  | false =>
    cases hover : window.overflowBase with
    | some host => rfl
    | none =>
      simp [a64CanonVa, himage, hiWord_windowVa hlt hlo, loWord_windowVa hlo, if_neg hhi, hentry,
        hlazy, if_pos (hspan hlazy hover)]

theorem AddressSpace.Recached.refl (s : AddressSpace) : s.Recached s :=
  ⟨s.aliases, rfl, fun _ => rfl⟩

theorem ptr_recached (L : Layout) (s : AddressSpace) (va : Nat) : s.Recached (s.ptr L va).2 := by
  rw [AddressSpace.ptr]
  split
  · exact .refl s
  simp only
  split
  · rename_i window hentry
    split
    · split
      · split
        · refine ⟨_, rfl, fun hi => ?_⟩
          by_cases hkey : hi = hiWord va
          · subst hkey
            have hfound : s.aliases (hiWord va) = some window := by
              split at hentry
              · simp at hentry
              · exact hentry
            simp only [hfound]
            rfl
          · simp [if_neg hkey]
        · exact .refl s
      · exact .refl s
    · split <;> exact .refl s
  · exact .refl s

section

variable {s' : AddressSpace}

theorem AddressSpace.Recached.mem (h : s.Recached s') : s'.mem = s.mem := by
  obtain ⟨aliases, rfl, -⟩ := h
  rfl

theorem AddressSpace.Recached.symm (h : s.Recached s') : s'.Recached s := by
  obtain ⟨aliases, rfl, hsame⟩ := h
  exact ⟨s.aliases, rfl, fun hi => (hsame hi).symm⟩

theorem AddressSpace.Recached.trans {s'' : AddressSpace} (h : s.Recached s')
    (h' : s'.Recached s'') : s.Recached s'' := by
  obtain ⟨aliases, rfl, hsame⟩ := h
  obtain ⟨aliases', rfl, hsame'⟩ := h'
  exact ⟨aliases', rfl, fun hi => (hsame' hi).trans (hsame hi)⟩

/-- The canonical address of a lazy window is that of the first segment, whatever the cache. -/
theorem a64CanonVa_recached (h : s.Recached s') (va : Nat) :
    a64CanonVa L s' va = a64CanonVa L s va := by
  obtain ⟨aliases, rfl, hsame⟩ := h
  have hkey := hsame (hiWord va)
  simp only [a64CanonVa]
  cases hold : s.aliases (hiWord va) with
  | none =>
    rw [hold, map_none, map_eq_none_iff] at hkey
    rw [hkey]
    rfl
  | some window =>
    rw [hold] at hkey
    obtain ⟨window', hnew, heq⟩ := map_eq_some_iff.mp hkey
    rw [hnew, A64PrefAlias.eq_of_uncached heq]
    rfl

end

theorem guestLoad_arm64 (harm : L.isArm64) (va : Nat) :
    (guestLoad L s va).1 = s.mem.read (s.ptr L va).1 := by
  rw [guestLoad, if_pos harm]
  simp [(ptr_recached L s va).mem]

theorem guestLoad_recached (L : Layout) (s : AddressSpace) (va : Nat) :
    s.Recached (guestLoad L s va).2 := by
  rw [guestLoad]
  split
  · exact ptr_recached L s va
  · exact .refl s

/-- The host byte a store writes; `none` when the write guard drops it. -/
def storeTarget (L : Layout) (s : AddressSpace) (va : Nat) : Option HostPtr :=
  if L.isArm64 then if writeBlocked L s va 1 then none else some (s.ptr L va).1
  else some (.arena va)

theorem guestStore_spec (L : Layout) (s : AddressSpace) (va : Nat) (v : UInt8) :
    ∃ s₁, s.Recached s₁ ∧ guestStore L s va v =
      { s₁ with mem := (storeTarget L s va).elim s.mem fun p => s.mem.write p v } := by
  have hcache := ptr_recached L s va
  rw [guestStore, storeTarget]
  cases L.isArm64 with
  | false => exact ⟨s, .refl s, rfl⟩
  | true =>
    cases writeBlocked L s va 1 with
    | true => exact ⟨s, .refl s, rfl⟩
    | false =>
      refine ⟨(s.ptr L va).2, hcache, ?_⟩
      simp [hcache.mem]

theorem guestStore_frame (L : Layout) (s : AddressSpace) (va : Nat) (v : UInt8) :
    (guestStore L s va v).arenas = s.arenas ∧ (guestStore L s va v).loaded = s.loaded := by
  obtain ⟨s₁, ⟨aliases, rfl, -⟩, hstore⟩ := guestStore_spec L s va v
  rw [hstore]
  exact ⟨rfl, rfl⟩

end Lookup

end Lunaria
