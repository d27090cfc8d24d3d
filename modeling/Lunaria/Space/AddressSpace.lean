/-
# The guest address space

Everything that decides which host byte a guest address means: the arenas, the
recorded library ranges, the table of A64 windows, and the bytes themselves. A
32-bit guest address is an offset into the 4 GiB arena. A 64-bit one either lies
in the fixed image window, which is the arena again, or in a window whose upper
32 bits key the alias table. A window is backed by one arena range, by one host
mapping of its own, or, for a lazy reservation, by a list of committed segments
of either kind.
-/

import Lunaria.Mmap.Bump
import Lunaria.Lib.ByteMemory

namespace Lunaria

open Lib

/-- `A64_GUEST_BASE`: start of the image window. -/
def a64GuestBase : Nat := 0x0000700000000000

def a64GuestSize : Nat := 0x0000000100000000

variable (L : Layout) (s : AddressSpace) (va : Nat)

def a64IsGuestVa : Bool := a64GuestBase ≤ va && va < a64GuestBase + a64GuestSize

def a64GuestVa (backing : Nat) : Nat := a64GuestBase + backing

/-- The key of the window a 64-bit address lies in. -/
def hiWord : Nat := u32 (va / 2 ^ 32)

/-- The offset of a 64-bit address in its window. -/
def loWord : Nat := u32 va

/-- A committed part of a lazy reservation. `overflowHost` names the host mapping
that backs it when the arenas could not. -/
structure A64BackingSegment where
  guestOff : Nat
  backing : Nat
  size : Nat
  overflowHost : Option Nat
  deriving DecidableEq, Repr

def A64BackingSegment.covers (seg : A64BackingSegment) (lo : Nat) : Bool :=
  seg.guestOff ≤ lo && lo < seg.guestOff + seg.size

/-- One window. `overflowBase` names the host mapping that backs all of it. -/
structure A64PrefAlias where
  base : Nat := 0
  size : Nat := 0
  lazy : Bool := false
  overflowBase : Option Nat := none
  committed : List A64BackingSegment := []
  lastSegIdx : Option Nat := none
  deriving DecidableEq, Repr

/-- A host address: an arena offset, or an offset into one of the host mappings
made after the arenas were exhausted. -/
inductive HostPtr
  | arena (off : Nat)
  | overflow (host off : Nat)
  deriving DecidableEq, Repr

/-- The host bytes behind the guest. -/
structure HostMemory where
  arena : ByteMemory
  overflow : Nat → ByteMemory

namespace HostMemory

/-- Everything reads as zero: the arena and each host mapping are anonymous. -/
def zero : HostMemory := ⟨fun _ => 0, fun _ _ => 0⟩

variable (m : HostMemory)

def read : HostPtr → UInt8
  | .arena off => m.arena off
  | .overflow host off => m.overflow host off

def write (p : HostPtr) (v : UInt8) : HostMemory :=
  match p with
  | .arena off => { m with arena := m.arena.writeByte off v }
  | .overflow host off =>
    { m with overflow := fun h => if h = host then (m.overflow h).writeByte off v
                                  else m.overflow h }

/-- Copy a buffer into the arena. -/
def copyIn (addr : Nat) (bytes : List UInt8) : HostMemory :=
  { m with arena := m.arena.writeBytes addr bytes }

@[simp]
theorem copyIn_nil (addr : Nat) : m.copyIn addr [] = m := by rw [copyIn, ByteMemory.writeBytes_nil]

theorem read_write (p q : HostPtr) (v : UInt8) :
    (m.write p v).read q = if q = p then v else m.read q := by
  cases p with
  | arena off =>
    cases q with
    | arena off' => simp [read, write, ByteMemory.writeByte]
    | overflow host' off' => simp [read, write]
  | overflow host off =>
    cases q with
    | arena off' => simp [read, write]
    | overflow host' off' =>
      simp only [read, write]
      by_cases hhost : host' = host
      · subst hhost
        simp [ByteMemory.writeByte]
      · simp [hhost]

@[simp]
theorem read_write_self (p : HostPtr) (v : UInt8) : (m.write p v).read p = v := by
  rw [read_write, if_pos rfl]

theorem read_write_of_ne {p q : HostPtr} (v : UInt8) (h : q ≠ p) :
    (m.write p v).read q = m.read q := by
  rw [read_write, if_neg h]

@[simp]
theorem read_zero (p : HostPtr) : zero.read p = 0 := by
  cases p with
  | arena _ | overflow _ _ => rfl

theorem eq_of_read {p q : HostPtr} (h : ∀ mem : HostMemory, mem.read p = mem.read q) : p = q := by
  have hread := h (zero.write p 1)
  rw [read_write_self, read_write] at hread
  by_contra hne
  rw [if_neg (Ne.symm hne), read_zero] at hread
  exact absurd hread (by decide)

end HostMemory

/-- The guest memory. `aliases` is `g_a64_pref_aliases`; `hostMaps` counts the host mappings, which
are named by their number. -/
structure AddressSpace where
  arenas : Arenas
  loaded : List LoadedRegion
  libLoadEnd : Nat
  aliases : Nat → Option A64PrefAlias
  mmapSlot : Nat
  protNoneBytes : Nat
  hostMaps : Nat
  mem : HostMemory

namespace AddressSpace

/-- The state after the layout is initialised: a zero-filled arena, no library,
no mapping. -/
def initial (L : Layout) : AddressSpace where
  arenas := Arenas.initial L
  loaded := []
  libLoadEnd := 0
  aliases := fun _ => none
  mmapSlot := 1
  protNoneBytes := 0
  hostMaps := 0
  mem := .zero

def setAlias (s : AddressSpace) (hi : Nat) (window : A64PrefAlias) : AddressSpace :=
  { s with aliases := fun k => if k = hi then some window else s.aliases k }

end AddressSpace

/-! ## Resolving addresses -/

/-- The tail of `a64_canon_va`, for an offset no alias claims: library pointers stay, and the first
windows fall back to fixed 512 MiB slots. -/
def canonUnaliased (hi lo : Nat) : Nat :=
  if 0x10000 ≤ lo ∧ s.libLoadEnd ≠ 0 ∧ lo < s.libLoadEnd ∧
      (s.loaded.any fun r => r.flags.testBit 0 && r.lo ≤ lo && lo < r.hi) then lo
  else if 1 ≤ hi ∧ hi ≤ 16 ∧ lo < 0x20000000 then
    if hi = 1 then u32 (mmapBase + lo)
    else if mmapBase + 0x40000000 ≤ L.mmapEnd ∧ hi = 2 then u32 (mmapBase + 0x20000000 + lo)
    else
      let idx := if mmapBase + 0x40000000 ≤ L.mmapEnd then hi - 3 else hi - 2
      let b64 := L.mmap2Base + idx * 0x20000000
      if L.mmap2EndExcl ≤ b64 then lo else u32 (u32 b64 + lo)
  else lo

def a64CanonVa : Nat :=
  if a64IsGuestVa va then va - a64GuestBase
  else
    let lo := loWord va
    let hi := hiWord va
    if hi = 0 then lo
    else
      match s.aliases hi with
      | none => canonUnaliased L s hi lo
      | some window =>
        if window.lazy then
          match window.committed.find? (·.covers lo) with
          | some seg => u32 (seg.backing + (lo - seg.guestOff))
          | none => 0
        else if lo < window.size then u32 (window.base + lo)
        else if window.base ≤ lo ∧ lo < window.base + window.size then lo
        else canonUnaliased L s hi lo

/-- The host byte of a window offset inside a committed segment. -/
def A64BackingSegment.hostPtr (seg : A64BackingSegment) (lo : Nat) : HostPtr :=
  match seg.overflowHost with
  | some host => .overflow host (lo - seg.guestOff)
  | none => .arena (seg.backing + (lo - seg.guestOff))

/-- The segment a lazy lookup uses: the cached one when it covers the offset, and
otherwise the first that does. -/
def A64PrefAlias.segmentAt (window : A64PrefAlias) (lo : Nat) : Option Nat :=
  match window.lastSegIdx with
  | some i =>
    if (window.committed[i]?).any (·.covers lo) then some i
    else window.committed.findIdx? (·.covers lo)
  | none => window.committed.findIdx? (·.covers lo)

/-- `ArmMemory::ptr` on a 64-bit address. A lazy lookup moves the segment cache. -/
def AddressSpace.ptr : HostPtr × AddressSpace :=
  if a64IsGuestVa va then (.arena (va - a64GuestBase), s)
  else
    let lo := loWord va
    let hi := hiWord va
    match if hi = 0 then none else s.aliases hi with
    | some window =>
      if window.lazy then
        match window.segmentAt lo with
        | some i =>
          match window.committed[i]? with
          | some seg => (seg.hostPtr lo, s.setAlias hi { window with lastSegIdx := some i })
          | none => (.arena 0, s)
        | none => (.arena 0, s)
      else
        match window.overflowBase with
        | some host => (.overflow host lo, s)
        | none => (.arena (a64CanonVa L s va), s)
    | none => (.arena (a64CanonVa L s va), s)

/-- `pack` of the SVC adapter: a 64-bit argument as the 32-bit handlers see it. -/
def pack (x : Nat) : Nat :=
  if a64IsGuestVa x then a64CanonVa L s x
  else if hiWord x = 0 then loWord x
  else if loWord x < 0x10000 ∨ (s.aliases (hiWord x)).isSome then a64CanonVa L s x
  else loWord x

/-- An argument register as the shared handlers see it: packed on A64. -/
def svcArg (x : Nat) : Nat :=
  if L.isArm64 then pack L s x else x

theorem a64IsGuestVa_of_lt {x : Nat} (h : x < 2 ^ 32) : a64IsGuestVa x = false := by
  have hlt : ¬ a64GuestBase ≤ x := by
    rw [a64GuestBase]
    omega
  simp [a64IsGuestVa, hlt]

theorem hiWord_of_lt {x : Nat} (h : x < 2 ^ 32) : hiWord x = 0 := by
  rw [hiWord, Nat.div_eq_of_lt h]
  rfl

theorem svcArg_of_lt {L : Layout} {s : AddressSpace} {x : Nat} (h : x < 2 ^ 32) :
    svcArg L s x = x := by
  simp only [svcArg, pack, a64IsGuestVa_of_lt h, hiWord_of_lt h, loWord, u32_of_lt h]
  simp

theorem ptr_of_lt {L : Layout} {s : AddressSpace} {x : Nat} (h : x < 2 ^ 32) :
    s.ptr L x = (.arena x, s) := by
  simp [AddressSpace.ptr, a64CanonVa, a64IsGuestVa_of_lt h, hiWord_of_lt h, loWord, u32_of_lt h]

end Lunaria
