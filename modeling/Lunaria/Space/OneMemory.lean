/-
# One memory for the guest and its libc

A64 code reaches memory through the JIT callbacks, which resolve 64-bit addresses. The
libc functions run on the host and see the same addresses packed to 32 bits, as offsets
into the arena. The two agree on a range exactly when the range is backed by consecutive
arena bytes and no write guard is in the way. They disagree about windows on host
mappings of their own, which have no arena address at all.
-/

import Lunaria.Space.WindowBytes

namespace Lunaria

open Lib List Option

/-- The widths of `MemoryRead8` to `MemoryRead128`, in bytes. -/
def accessWidths : List Nat := [1, 2, 4, 8, 16]

/-- The same address space over other contents. -/
def AddressSpace.withMem (s : AddressSpace) (mem : HostMemory) : AddressSpace :=
  { s with mem := mem }

/-- The bytes of a range as guest code reads them, one by one. -/
def jitRead (L : Layout) (s : AddressSpace) (va n : Nat) : List UInt8 :=
  (List.range n).map fun i => (guestLoad L s (va + i)).1

/-- Whatever the memory holds, libc reads the bytes guest code reads. -/
def SameBytes (L : Layout) (s : AddressSpace) (va n : Nat) : Prop :=
  ∀ mem, svcRead L (s.withMem mem) va n = jitRead L (s.withMem mem) va n

/-- A range that can be the other argument of a libc call. -/
structure Partner (L : Layout) (s : AddressSpace) (vb n : Nat) : Prop where
  same : SameBytes L s vb n
  nonnull : svcArg L s vb ≠ 0
  inside : svcArg L s vb + n ≤ 2 ^ 32

/-- Guest code and libc share the range: what one stores the other reads. -/
structure OneMemory (L : Layout) (s : AddressSpace) (va n : Nat) : Prop where
  loads : n ∈ accessWidths → ∀ mem data, data.length = n →
    (memoryRead L (memoryWrite L (s.withMem mem) va data) va n).1 = data
  same : SameBytes L s va n
  memset : ∀ mem (c : UInt8),
    jitRead L (svcMemset L (s.withMem mem) va c.toNat n) va n = List.replicate n c
  memcpyTo : ∀ vb, Partner L s vb n → ∀ mem,
    jitRead L (svcMemcpy L (s.withMem mem) va vb n) va n = jitRead L (s.withMem mem) vb n
  memcpyFrom : ∀ vb, Partner L s vb n → guestClampWriteN L s.loaded (svcArg L s vb) n = n →
    ∀ mem, jitRead L (svcMemcpy L (s.withMem mem) vb va n) vb n = jitRead L (s.withMem mem) va n
  memcmp : ∀ vb, Partner L s vb n → ∀ mem, svcMemcmp L (s.withMem mem) va vb n =
    memcmpOrder (jitRead L (s.withMem mem) va n) (jitRead L (s.withMem mem) vb n)
  strlen : n ≤ 65536 → ∀ mem, 0 ∈ jitRead L (s.withMem mem) va n →
    svcStrlen L (s.withMem mem) va = (jitRead L (s.withMem mem) va n).findIdx (· == 0)

/-- A range inside a live mapping: image addresses, a window with a backing, or a part of a lazy
reservation whose bytes all lie in committed segments. -/
inductive LiveRange (s : AddressSpace) : Nat → Nat → Prop
  | image {off n : Nat} (hpos : 0 < off) (hend : off + n ≤ 2 ^ 32) :
      LiveRange s (a64GuestVa off) n
  | window {hi lo n : Nat} {window : A64PrefAlias} (hkey : hi ≠ 0) (hlt : hi < 2 ^ 32)
      (hentry : s.aliases hi = some window) (hlazy : window.lazy = false)
      (hend : lo + n ≤ window.size) (hsize : window.size < 2 ^ 32) :
      LiveRange s (windowVa hi lo) n
  | committed {hi lo n : Nat} {window : A64PrefAlias} (hkey : hi ≠ 0) (hlt : hi < 2 ^ 32)
      (hentry : s.aliases hi = some window) (hlazy : window.lazy = true)
      (hcovered : ∀ i < n, window.committed.any (·.covers (lo + i))) (hend : lo + n < 2 ^ 32) :
      LiveRange s (windowVa hi lo) n

/-- The window's range is consecutive arena bytes: no host mapping, and each segment of a lazy
reservation continues the first. -/
def A64PrefAlias.arenaRun (window : A64PrefAlias) (lo n : Nat) : Bool :=
  if window.lazy then
    (window.committed.find? (·.covers lo)).any fun first =>
      (List.range n).all fun i =>
        ((window.segmentAt (lo + i)).bind (window.committed[·]?)).any fun seg =>
          seg.overflowHost.isNone && seg.backing + (lo + i - seg.guestOff) ==
            u32 (first.backing + (lo - first.guestOff)) + i
  else window.overflowBase.isNone && u32 (window.base + lo) + n ≤ 2 ^ 32

/-- The range is backed by consecutive arena bytes. -/
def arenaBacked (s : AddressSpace) (va n : Nat) : Bool :=
  a64IsGuestVa va || (s.aliases (hiWord va)).any (·.arenaRun (loWord va) n)

/-- A range is shared if it has arena backing, not at byte 0, which libc takes for null, and no
guard drops or cuts a write. -/
structure Shared (L : Layout) (s : AddressSpace) (va n : Nat) : Prop where
  backed : arenaBacked s va n = true
  nonnull : svcArg L s va ≠ 0
  unguarded : n ∈ accessWidths → writeBlocked L s va n = false
  unclamped : guestClampWriteN L s.loaded (svcArg L s va) n = n

section Contents

variable {L : Layout} {s : AddressSpace} {va n : Nat}

theorem ptr_withMem (L : Layout) (s : AddressSpace) (mem : HostMemory) (va : Nat) :
    (s.withMem mem).ptr L va = ((s.ptr L va).1, (s.ptr L va).2.withMem mem) := by
  rw [AddressSpace.ptr, AddressSpace.ptr]
  split
  · rfl
  simp only [AddressSpace.withMem]
  split
  · split
    · split
      · split <;> rfl
      · rfl
    · split <;> rfl
  · rfl

/-- Looking an address up again finds the same byte. -/
theorem ptr_again (L : Layout) (s : AddressSpace) (va : Nat) :
    ((s.ptr L va).2.ptr L va).1 = (s.ptr L va).1 := by
  by_cases himage : a64IsGuestVa va
  · simp [AddressSpace.ptr, if_pos himage]
  cases hentry : (if hiWord va = 0 then none else s.aliases (hiWord va)) with
  | none => simp [AddressSpace.ptr, if_neg himage, hentry]
  | some window =>
    have hne : hiWord va ≠ 0 := by
      intro hzero
      simp [hzero] at hentry
    cases hlazy : window.lazy with
    | false =>
      cases hover : window.overflowBase with
      | none | some _ => simp [AddressSpace.ptr, if_neg himage, hentry, hlazy, hover]
    | true =>
      cases hseg : window.segmentAt (loWord va) with
      | none => simp [AddressSpace.ptr, if_neg himage, hentry, hlazy, hseg]
      | some i =>
        obtain ⟨seg, hget, hcovers⟩ := A64PrefAlias.segmentAt_spec hseg
        have hcached : A64PrefAlias.segmentAt { window with lastSegIdx := some i }
            (loWord va) = some i := by
          simp [A64PrefAlias.segmentAt, hget, hcovers]
        rw [hlazy] at hcached
        simp [AddressSpace.ptr, if_neg himage, hentry, hlazy, hseg, hget, AddressSpace.setAlias,
          if_neg hne, hcached]

theorem jitRead_withMem (harm : L.isArm64) (mem : HostMemory) :
    jitRead L (s.withMem mem) va n = (range n).map fun i => mem.read (s.ptr L (va + i)).1 := by
  apply map_congr_left
  intro i _
  rw [guestLoad_arm64 harm, ptr_withMem]
  rfl

/-- Libc and guest code read the same bytes when they use the same host addresses. -/
theorem sameBytes_iff (harm : L.isArm64) :
    SameBytes L s va n ↔ ∀ i, i < n → (s.ptr L (va + i)).1 = .arena (svcArg L s va + i) := by
  constructor
  · intro hsame i hi
    apply HostMemory.eq_of_read
    intro mem
    have hread := hsame mem
    rw [jitRead_withMem harm, svcRead, map_inj_left] at hread
    exact (hread i (mem_range.mpr hi)).symm
  · intro hptr mem
    rw [jitRead_withMem harm, svcRead, map_inj_left]
    intro i hi
    rw [hptr i (mem_range.mp hi)]
    rfl

end Contents

/-! ## Backing -/

section Backing

variable {L : Layout} {s : AddressSpace} {n : Nat}

theorem svcArg_image (harm : L.isArm64) {off : Nat} (hoff : off < 2 ^ 32) :
    svcArg L s (a64GuestVa off) = off := by
  have himage := a64IsGuestVa_a64GuestVa hoff
  rw [svcArg, if_pos harm, pack, if_pos himage, a64CanonVa, if_pos himage, a64GuestVa,
    Nat.add_sub_cancel_left]

variable {hi lo : Nat} {window : A64PrefAlias}

theorem svcArg_window (harm : L.isArm64) (hkey : hi ≠ 0) (hlt : hi < 2 ^ 32) (hlo : lo < 2 ^ 32)
    (hentry : s.aliases hi = some window) :
    svcArg L s (windowVa hi lo) = a64CanonVa L s (windowVa hi lo) := by
  rw [svcArg, if_pos harm, pack, hiWord_windowVa hlt hlo, hentry]
  simp [hkey]

theorem arenaBacked_window (hlt : hi < 2 ^ 32)
    (hplain : hi ≠ imageWindow) (hlo : lo < 2 ^ 32) (hentry : s.aliases hi = some window) :
    arenaBacked s (windowVa hi lo) n = window.arenaRun lo n := by
  rw [arenaBacked, a64IsGuestVa_windowVa hplain hlo, Bool.false_or, hiWord_windowVa hlt hlo,
    loWord_windowVa hlo, hentry, any_some]

theorem image_ptr (harm : L.isArm64) {off : Nat} (hend : off + n ≤ 2 ^ 32) :
    ∀ i, i < n → (s.ptr L (a64GuestVa off + i)).1 = .arena (svcArg L s (a64GuestVa off) + i) := by
  intro i hi
  rw [a64GuestVa_add, ptr_image (by omega), svcArg_image harm (by omega)]

section

variable (harm : L.isArm64) (hn : 0 < n) (hkey : hi ≠ 0) (hlt : hi < 2 ^ 32)
    (hplain : hi ≠ imageWindow) (hentry : s.aliases hi = some window)
include harm hn hkey hlt hplain hentry

/-- A window with one backing is consecutive when it has no host mapping and does not wrap. -/
theorem flat_ptr_iff (hlazy : window.lazy = false)
    (hend : lo + n ≤ window.size) (hsize : window.size < 2 ^ 32) :
    window.arenaRun lo n ↔ ∀ i, i < n →
      (s.ptr L (windowVa hi lo + i)).1 = .arena (svcArg L s (windowVa hi lo) + i) := by
  have hptr : ∀ i, i < n → (s.ptr L (windowVa hi lo + i)).1 = window.resolve (lo + i) := by
    intro i hi
    rw [windowVa_add]
    exact ptr_window hentry hkey hlt hplain (by omega) fun _ _ => by omega
  have harg : svcArg L s (windowVa hi lo) = u32 (window.base + lo) := by
    rw [svcArg_window harm hkey hlt (by omega) hentry, a64CanonVa]
    simp only [a64IsGuestVa_windowVa hplain (show lo < 2 ^ 32 by omega), Bool.false_eq_true,
      if_false, hiWord_windowVa hlt (show lo < 2 ^ 32 by omega),
      loWord_windowVa (show lo < 2 ^ 32 by omega), if_neg hkey, hentry, hlazy]
    rw [if_pos (by omega)]
  rw [A64PrefAlias.arenaRun, if_neg (by simp [hlazy]), harg]
  cases hover : window.overflowBase with
  | some host =>
    constructor
    · intro h
      simp at h
    · intro h
      have hfirst := h 0 hn
      rw [hptr 0 hn] at hfirst
      simp [A64PrefAlias.resolve, hlazy, hover] at hfirst
  | none =>
    have hresolve : ∀ i, window.resolve (lo + i) = .arena (u32 (window.base + (lo + i))) := by
      simp [A64PrefAlias.resolve, hlazy, hover]
    rw [isNone_none, Bool.true_and, decide_eq_true_iff]
    constructor
    · intro hfit i hi
      rw [hptr i hi, hresolve, HostPtr.arena.injEq]
      simp only [u32] at hfit ⊢
      omega
    · intro h
      have hlast := h (n - 1) (by omega)
      rw [hptr _ (by omega), hresolve, HostPtr.arena.injEq] at hlast
      have hbound := u32_lt (window.base + (lo + (n - 1)))
      omega

/-- A committed range is consecutive when every segment the lookup uses continues the canonical
address. -/
theorem committed_ptr_iff (hlazy : window.lazy)
    (hcovered : ∀ i < n, window.committed.any (·.covers (lo + i))) (hend : lo + n < 2 ^ 32) :
    window.arenaRun lo n ↔ ∀ i, i < n →
      (s.ptr L (windowVa hi lo + i)).1 = .arena (svcArg L s (windowVa hi lo) + i) := by
  obtain ⟨first, hfirst⟩ : ∃ first, window.committed.find? (·.covers lo) = some first := by
    apply isSome_iff_exists.mp
    rw [find?_isSome]
    exact any_eq_true.mp (hcovered 0 hn)
  have harg : svcArg L s (windowVa hi lo) = u32 (first.backing + (lo - first.guestOff)) := by
    rw [svcArg_window harm hkey hlt (by omega) hentry, a64CanonVa]
    simp [a64IsGuestVa_windowVa hplain (show lo < 2 ^ 32 by omega),
      hiWord_windowVa hlt (show lo < 2 ^ 32 by omega), loWord_windowVa (show lo < 2 ^ 32 by omega),
      if_neg hkey, hentry, hlazy, hfirst]
  rw [A64PrefAlias.arenaRun, if_pos hlazy, hfirst, any_some, harg, List.all_eq_true]
  simp only [mem_range]
  apply forall_congr'
  intro i
  apply imp_congr_right
  intro hin
  obtain ⟨k, hk⟩ := A64PrefAlias.segmentAt_isSome (hcovered i hin)
  obtain ⟨used, hused, -⟩ := A64PrefAlias.segmentAt_spec hk
  have hptr : (s.ptr L (windowVa hi lo + i)).1 = used.hostPtr (lo + i) := by
    rw [windowVa_add, ptr_window hentry hkey hlt hplain (by omega)
      fun hflat => by simp [hlazy] at hflat, A64PrefAlias.resolve, if_pos hlazy, hk,
      bind_some, hused]
  rw [hptr, hk, bind_some, hused, any_some, A64BackingSegment.hostPtr]
  cases used.overflowHost with
  | some _ | none => simp

end

/-- **Arena backing** of a live range is what makes libc and guest code use the same host
addresses. -/
theorem LiveRange.backed_iff (harm : L.isArm64) {va : Nat} (hlive : LiveRange s va n)
    (hn : 0 < n) : arenaBacked s va n ↔ SameBytes L s va n := by
  rw [sameBytes_iff harm]
  have himage : ∀ off, off + n ≤ 2 ^ 32 → (arenaBacked s (a64GuestVa off) n ↔ ∀ i, i < n →
      (s.ptr L (a64GuestVa off + i)).1 = .arena (svcArg L s (a64GuestVa off) + i)) := by
    intro off hend
    have htrue : arenaBacked s (a64GuestVa off) n := by
      rw [arenaBacked, a64IsGuestVa_a64GuestVa (by omega), Bool.true_or]
    exact iff_of_true htrue (image_ptr harm hend)
  cases hlive with
  | image hpos hend => exact himage _ hend
  | @window hi lo _ window hkey hlt hentry hlazy hend hsize =>
    by_cases hplain : hi = imageWindow
    · subst hplain
      exact himage lo (by omega)
    · rw [arenaBacked_window hlt hplain (by omega) hentry]
      exact flat_ptr_iff harm hn hkey hlt hplain hentry hlazy hend hsize
  | @committed hi lo _ window hkey hlt hentry hlazy hcovered hend =>
    by_cases hplain : hi = imageWindow
    · subst hplain
      exact himage lo (by omega)
    · rw [arenaBacked_window hlt hplain (by omega) hentry]
      exact committed_ptr_iff harm hn hkey hlt hplain hentry hlazy hcovered hend

theorem LiveRange.length_lt {va : Nat} (hlive : LiveRange s va n) : n < 2 ^ 32 := by
  cases hlive with
  | image _ _ | window _ _ _ _ _ _ | committed _ _ _ _ _ _ => omega

end Backing

/-! ## Stores and the libc functions -/

section Functions

variable {L : Layout} {s : AddressSpace} {va vb n : Nat}

theorem readBytes_writeBytes (m : HostMemory) (p : HostPtr) (data : List UInt8) :
    (m.writeBytes p data).readBytes p data.length = data := by
  apply ext_getElem
  · simp [HostMemory.readBytes]
  intro i hi hi'
  cases p with
  | arena _ | overflow _ _ =>
    simp [HostMemory.readBytes, HostMemory.writeBytes, HostPtr.add, HostMemory.read,
      ByteMemory.writeBytes, hi']

theorem memoryRead_memoryWrite {data : List UInt8}
    (hguard : writeBlocked L s va data.length = false) :
    (memoryRead L (memoryWrite L s va data) va data.length).1 = data := by
  have hmem := (ptr_recached L s va).mem
  rw [memoryWrite, if_neg (by simp [hguard])]
  simp only [memoryRead, hmem]
  have hptr := ptr_withMem L (s.ptr L va).2 (s.mem.writeBytes (s.ptr L va).1 data) va
  rw [AddressSpace.withMem] at hptr
  rw [hptr]
  simp only [ptr_again]
  exact readBytes_writeBytes s.mem (s.ptr L va).1 data

theorem guestClampWriteN_le (L : Layout) (loaded : List LoadedRegion) (dst n : Nat) :
    guestClampWriteN L loaded dst n ≤ min n (2 ^ 32 - dst) := by
  rcases Nat.eq_zero_or_pos (guestClampWriteN L loaded dst n) with hzero | hpos
  · omega
  · have hle := ((le_guestClampWriteN hpos).mp le_rfl).1
    omega

theorem jitRead_memset (harm : L.isArm64) (hn : n < 2 ^ 32) (hsame : SameBytes L s va n)
    (mem : HostMemory) (c : UInt8) :
    jitRead L (svcMemset L (s.withMem mem) va c.toNat n) va n = (range n).map fun i =>
      if i < guestClampWriteN L s.loaded (svcArg L s va) n then c
      else mem.arena (svcArg L s va + i) := by
  have hc : c.toNat < 2 ^ 32 := by
    have := c.toNat_lt
    omega
  have hstate : svcMemset L (s.withMem mem) va c.toNat n = s.withMem { mem with
      arena := mem.arena.fill (svcArg L s va) (guestClampWriteN L s.loaded (svcArg L s va)
        (svcArg L _ n)) _ } := rfl
  rw [hstate, jitRead_withMem harm, svcArg_of_lt hn, svcArg_of_lt hc, UInt8.ofNat_toNat]
  apply map_congr_left
  intro i hi
  rw [(sameBytes_iff harm).mp hsame i (mem_range.mp hi)]
  simp only [HostMemory.read, ByteMemory.fill]
  by_cases hlt : i < guestClampWriteN L s.loaded (svcArg L s va) n
  · rw [if_pos (by omega), if_pos hlt]
  · rw [if_neg (by omega), if_neg hlt]

/-- Copying between two ranges that libc and guest code agree on. -/
theorem jitRead_memcpy (harm : L.isArm64) (hpos : 0 < n) (hn : n < 2 ^ 32)
    (hdst : SameBytes L s va n) (hsrc : SameBytes L s vb n)
    (hclamp : guestClampWriteN L s.loaded (svcArg L s va) n = n)
    (hinside : svcArg L s vb + n ≤ 2 ^ 32) (mem : HostMemory) :
    jitRead L (svcMemcpy L (s.withMem mem) va vb n) va n = jitRead L (s.withMem mem) vb n := by
  have hstate : svcMemcpy L (s.withMem mem) va vb n = s.withMem { mem with
      arena := mem.arena.move (svcArg L s va) (svcArg L s vb) n } := by
    simp only [svcMemcpy, svcArg_of_lt hn]
    rw [if_neg (by
      simp only [not_or, not_lt]
      exact ⟨by omega, hinside⟩)]
    have hcount : guestClampWriteN L (s.withMem mem).loaded (svcArg L (s.withMem mem) va) n = n :=
      hclamp
    rw [hcount]
    rfl
  rw [hstate, jitRead_withMem harm, jitRead_withMem harm]
  apply map_congr_left
  intro i hi
  have hlt := mem_range.mp hi
  rw [(sameBytes_iff harm).mp hdst i hlt, (sameBytes_iff harm).mp hsrc i hlt]
  simp only [HostMemory.read, ByteMemory.move]
  rw [if_pos (by omega), Nat.add_sub_cancel_left]

theorem svcStrlen_eq (hsame : SameBytes L s va n) (hnonnull : svcArg L s va ≠ 0)
    (hn : n ≤ 65536) (mem : HostMemory) (hzero : 0 ∈ jitRead L (s.withMem mem) va n) :
    svcStrlen L (s.withMem mem) va = (jitRead L (s.withMem mem) va n).findIdx (· == 0) := by
  have hne : svcArg L (s.withMem mem) va ≠ 0 := hnonnull
  rw [svcStrlen, if_pos hne, ← hsame mem] at *
  have hsplit : svcRead L (s.withMem mem) va 65536 = svcRead L (s.withMem mem) va n ++
      ((range (65536 - n)).map (n + ·)).map fun i =>
        (s.withMem mem).mem.arena (svcArg L (s.withMem mem) va + i) := by
    rw [svcRead, svcRead, ← map_append, ← range_add, Nat.add_sub_cancel' hn]
  rw [hsplit, findIdx_append, if_pos]
  exact findIdx_lt_length_of_exists ⟨0, hzero, by simp⟩

/-- An image address other than the null byte can be the other argument of a libc call. -/
theorem partner_image (harm : L.isArm64) {off : Nat} (hpos : 0 < off) (hn : 0 < n)
    (hend : off + n ≤ 2 ^ 32) : Partner L s (a64GuestVa off) n where
  same := (sameBytes_iff harm).mpr (image_ptr harm hend)
  nonnull := by
    rw [svcArg_image harm (by omega)]
    omega
  inside := by
    rw [svcArg_image harm (by omega)]
    exact hend

end Functions

/-! ## The condition is exact -/

section Exact

variable {L : Layout} {s : AddressSpace} {va n : Nat}

theorem Shared.oneMemory (h : Shared L s va n) (harm : L.isArm64)
    (hlive : LiveRange s va n) (hn : 0 < n) : OneMemory L s va n := by
  have hlt := hlive.length_lt
  have hsame := (hlive.backed_iff harm hn).mp h.backed
  have hinside : svcArg L s va + n ≤ 2 ^ 32 := by
    have hclamp := guestClampWriteN_le L s.loaded (svcArg L s va) n
    rw [h.unclamped] at hclamp
    omega
  constructor
  · rintro hwidth mem data rfl
    exact memoryRead_memoryWrite (h.unguarded hwidth)
  · exact hsame
  · intro mem c
    rw [jitRead_memset harm hlt hsame, h.unclamped, eq_replicate_iff]
    refine ⟨by simp, fun b hb => ?_⟩
    obtain ⟨i, hi, rfl⟩ := mem_map.mp hb
    rw [if_pos (mem_range.mp hi)]
  · intro vb hpartner mem
    exact jitRead_memcpy harm hn hlt hsame hpartner.same h.unclamped hpartner.inside mem
  · intro vb hpartner hclamp mem
    exact jitRead_memcpy harm hn hlt hpartner.same hsame hclamp hinside mem
  · intro vb hpartner mem
    have hnonnull : svcArg L (s.withMem mem) va ≠ 0 ∧ svcArg L (s.withMem mem) vb ≠ 0 :=
      ⟨h.nonnull, hpartner.nonnull⟩
    rw [svcMemcmp, if_pos hnonnull, svcArg_of_lt hlt, hsame mem, hpartner.same mem]
  · intro hshort mem hzero
    exact svcStrlen_eq hsame h.nonnull hshort mem hzero

theorem OneMemory.nonnull (h : OneMemory L s va n) (harm : L.isArm64)
    (hlive : LiveRange s va n) (hn : 0 < n) : svcArg L s va ≠ 0 := by
  intro hnull
  have hlt := hlive.length_lt
  have hpartner : Partner L s (a64GuestVa 1) n := partner_image harm one_pos hn (by omega)
  -- libc calls the two ranges equal, though the first bytes are 0 and 1
  have hcmp := h.memcmp _ hpartner (HostMemory.zero.write (.arena 1) 1)
  have hptr := (sameBytes_iff harm).mp h.same 0 hn
  have hptr' := (sameBytes_iff harm).mp hpartner.same 0 hn
  rw [hnull] at hptr
  rw [svcArg_image harm (by norm_num)] at hptr'
  have heq : svcMemcmp L (s.withMem (HostMemory.zero.write (.arena 1) 1)) va (a64GuestVa 1) n =
      .eq := by
    have hzero : svcArg L (s.withMem (HostMemory.zero.write (.arena 1) 1)) va = 0 := hnull
    rw [svcMemcmp, if_neg (by simp [hzero])]
  obtain ⟨k, rfl⟩ : ∃ k, n = k + 1 := ⟨n - 1, by omega⟩
  rw [heq, jitRead_withMem harm, jitRead_withMem harm, range_succ_eq_map, map_cons,
    map_cons, hptr, hptr'] at hcmp
  have hzero : (HostMemory.zero.write (.arena 1) 1).read (.arena (0 + 0)) = 0 := by decide
  rw [hzero, memcmpOrder] at hcmp
  simp at hcmp

theorem OneMemory.unguarded (h : OneMemory L s va n) (hn : 0 < n) (hwidth : n ∈ accessWidths) :
    writeBlocked L s va n = false := by
  rw [← Bool.not_eq_true]
  intro hblocked
  have hload := h.loads hwidth .zero (replicate n 1) length_replicate
  have hblocked' : writeBlocked L (s.withMem .zero) va (replicate n (1 : UInt8)).length = true := by
    rw [length_replicate]
    exact hblocked
  rw [memoryWrite, if_pos hblocked', memoryRead, ptr_withMem] at hload
  simp only [AddressSpace.withMem, HostMemory.readBytes] at hload
  have hbyte : (1 : UInt8) ∈ (range n).map fun i =>
      HostMemory.zero.read ((s.ptr L va).1.add i) := by
    rw [hload]
    exact mem_replicate.mpr ⟨by omega, rfl⟩
  obtain ⟨i, -, hi⟩ := mem_map.mp hbyte
  cases hp : (s.ptr L va).1.add i with
  | arena _ | overflow _ _ => simp [hp, HostMemory.zero, HostMemory.read] at hi

theorem OneMemory.unclamped (h : OneMemory L s va n) (harm : L.isArm64)
    (hlive : LiveRange s va n) (hn : 0 < n) :
    guestClampWriteN L s.loaded (svcArg L s va) n = n := by
  have hle := guestClampWriteN_le L s.loaded (svcArg L s va) n
  have hset := h.memset .zero 1
  rw [jitRead_memset harm hlive.length_lt h.same, eq_replicate_iff] at hset
  have hlast := hset.2 _ (mem_map.mpr ⟨n - 1, mem_range.mpr (by omega), rfl⟩)
  by_cases hcut : n - 1 < guestClampWriteN L s.loaded (svcArg L s va) n
  · omega
  · rw [if_neg hcut] at hlast
    simp [HostMemory.zero] at hlast

end Exact

/-- **One A64 memory.** Guest code and libc share a live range if and only if it is backed by
consecutive arena bytes other than byte 0 and no write guard is in the way. -/
theorem oneMemory_iff (heapMb mmap2Base mmap2End : Int) (s : AddressSpace) (va n : Nat)
    (hlive : LiveRange s va n) (hn : 0 < n) :
    OneMemory (guestLayoutInit true heapMb mmap2Base mmap2End) s va n ↔
      Shared (guestLayoutInit true heapMb mmap2Base mmap2End) s va n := by
  have harm : (guestLayoutInit true heapMb mmap2Base mmap2End).isArm64 := rfl
  constructor
  · intro h
    exact ⟨(hlive.backed_iff harm hn).mpr h.same, h.nonnull harm hlive hn, h.unguarded hn,
      h.unclamped harm hlive hn⟩
  · intro h
    exact h.oneMemory harm hlive hn

/-- A guest that has mapped 16 MiB, which the arenas can back. -/
def arenaGuest : AddressSpace :=
  (svcLibcMmap (guestLayoutInit true 256 0 0) (.initial (guestLayoutInit true 256 0 0)) plainHost
    (anonymousCall 0 0x1000000)).2

theorem liveRange_arenaGuest : LiveRange arenaGuest (windowVa 0x100 0x1000) 8 :=
  .window (by decide) (by decide) (show arenaGuest.aliases 0x100 =
    some { base := 0x10000000, size := 0x1000000 } by decide) rfl (by decide) (by decide)

theorem oneMemory_arenaGuest :
    OneMemory (guestLayoutInit true 256 0 0) arenaGuest (windowVa 0x100 0x1000) 8 :=
  (oneMemory_iff 256 0 0 arenaGuest _ 8 liveRange_arenaGuest (by decide)).mpr
    ⟨by decide, by decide, by decide, by decide⟩

/-- A guest that has mapped 768 MiB, which no arena can back: the host makes a mapping of
its own for it. -/
def overflowGuest : AddressSpace :=
  (svcLibcMmap (guestLayoutInit true 256 0 0) (.initial (guestLayoutInit true 256 0 0)) plainHost
    (anonymousCall 0 0x30000000)).2

/-- Libc takes the mapping's addresses for the bottom of the arena. -/
theorem not_oneMemory_overflowGuest : LiveRange overflowGuest (windowVa 0x100 0x1000) 8 ∧
      ¬ OneMemory (guestLayoutInit true 256 0 0) overflowGuest (windowVa 0x100 0x1000) 8 := by
  constructor
  · exact .window (by decide) (by decide) (show overflowGuest.aliases 0x100 =
      some { size := 0x30000000, overflowBase := some 0 } by decide) rfl (by decide) (by decide)
  · intro h
    have hread := h.same (HostMemory.zero.write (.overflow 0 0x1000) 1)
    revert hread
    decide

end Lunaria
