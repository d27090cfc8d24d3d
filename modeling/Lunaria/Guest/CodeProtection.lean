/-
# Protection of guest code

The arena has no page protection, so the code of the libraries and the runtime's trampolines
are safe only as far as every host function that writes for the guest stays away from them.
`memcpy`, `memmove` and `memset` cut their length with `guest_clamp_write_n`, and so do the
`__aeabi_` names that are bound to the first two. The string functions, the other `__aeabi_`
functions, the wide ones, `sprintf` and `read` store whatever they are asked to store.

This module has all these writers, what each of them stores where, and for which of them the
protected bytes are safe.
-/

import Lunaria.Space.Resolve

namespace Lunaria

open Lib List ByteMemory

/-! ## The writers -/

/-- The bytes behind the guest's arena: 4 GiB and a guard of 64 KiB. -/
def arenaSize : Nat := 0x100010000

def hostStrlen (m : ByteMemory) (a : Nat) : Nat := m.strnlen a (arenaSize - a)

/-- One `memcpy` or assignment of a handler. -/
structure HostStore where
  ptr : HostPtr
  bytes : List UInt8

/-- Carry out the stores of a handler in order. -/
def AddressSpace.carryOut (s : AddressSpace) (stores : List HostStore) : AddressSpace :=
  { s with mem := stores.foldl (fun mem st => mem.writeBytes st.ptr st.bytes) s.mem }

section Handlers

variable (L : Layout) (s : AddressSpace)

def svcStrcpy (dst src : Nat) : List HostStore :=
  let r0 := svcArg L s dst
  let r1 := svcArg L s src
  if r0 ≠ 0 ∧ r1 ≠ 0 then
    let n := s.mem.arena.strnlen r1 65536
    [⟨.arena r0, s.mem.arena.bytesAt r1 n⟩, ⟨.arena (r0 + n), [0]⟩]
  else []

/-- `SVC_STRNCPY`: the string, padded with zero bytes to the length asked for. -/
def svcStrncpy (dst src n : Nat) : List HostStore :=
  let r0 := svcArg L s dst
  let r1 := svcArg L s src
  let r2 := svcArg L s n
  if r0 ≠ 0 ∧ r1 ≠ 0 then
    let len := s.mem.arena.strnlen r1 r2
    [⟨.arena r0, s.mem.arena.bytesAt r1 len ++ List.replicate (r2 - len) 0⟩]
  else []

def svcStrcat (dst src : Nat) : List HostStore :=
  let r0 := svcArg L s dst
  let r1 := svcArg L s src
  if r0 ≠ 0 ∧ r1 ≠ 0 then
    [⟨.arena (r0 + hostStrlen s.mem.arena r0),
      s.mem.arena.bytesAt r1 (hostStrlen s.mem.arena r1) ++ [0]⟩]
  else []

def svcStrncat (dst src n : Nat) : List HostStore :=
  let r0 := svcArg L s dst
  let r1 := svcArg L s src
  if r0 ≠ 0 ∧ r1 ≠ 0 then
    [⟨.arena (r0 + hostStrlen s.mem.arena r0),
      s.mem.arena.bytesAt r1 (s.mem.arena.strnlen r1 (svcArg L s n)) ++ [0]⟩]
  else []

/-- `SVC_STRLCPY`. The address of the terminator is computed in 64 bits. -/
def svcStrlcpy (dst src n : Nat) : List HostStore :=
  let r0 := svcArg L s dst
  let r1 := svcArg L s src
  let r2 := svcArg L s n
  if r1 = 0 then []
  else if r0 ≠ 0 ∧ r2 ≠ 0 then
    let len := min (hostStrlen s.mem.arena r1) (r2 - 1)
    [⟨.arena r0, s.mem.arena.bytesAt r1 len⟩, ⟨(s.ptr L (r0 + len)).1, [0]⟩]
  else []

/-- `SVC_AEABI_MEMSET`, whose length comes before the value. -/
def svcAeabiMemset (dst n c : Nat) : List HostStore :=
  [⟨.arena (svcArg L s dst), List.replicate (svcArg L s n) (UInt8.ofNat (svcArg L s c))⟩]

def svcAeabiMemclr (dst n : Nat) : List HostStore :=
  [⟨.arena (svcArg L s dst), List.replicate (svcArg L s n) 0⟩]

/-- `SVC_WMEMCPY` and `SVC_WMEMMOVE`: a call with wild arguments is skipped. -/
def svcWmemcpy (dst src n : Nat) : List HostStore :=
  let r0 := svcArg L s dst
  let r1 := svcArg L s src
  let r2 := svcArg L s n
  if r0 ≠ 0 ∧ r1 ≠ 0 ∧ r2 ≠ 0 then
    let bytes := r2 * 4
    if 0x10000000 < bytes ∨ 0xfffff000 < r0 + bytes ∨ 0xfffff000 < r1 + bytes then []
    else [⟨.arena r0, s.mem.arena.bytesAt r1 bytes⟩]
  else []

/-- The bytes of a 32-bit value, lowest first. -/
def word32 (v : Nat) : List UInt8 := (List.range 4).map fun i => UInt8.ofNat (v / 256 ^ i)

/-- `SVC_WMEMSET`: one word at a time, at addresses that wrap around. -/
def svcWmemset (dst c n : Nat) : List HostStore :=
  (List.range (svcArg L s n)).map fun i =>
    ⟨.arena (u32 (svcArg L s dst + i * 4)), word32 (svcArg L s c)⟩

/-- `arm_format_to`: the formatted text, cut to the buffer, and a terminator. -/
def armFormatTo (buf size : Nat) (text : List UInt8) : List HostStore :=
  if buf ≠ 0 ∧ size ≠ 0 then
    let n := if u32 text.length < size - 1 then u32 text.length else size - 1
    [⟨.arena buf, text.take n⟩, ⟨.arena (u32 (buf + n)), [0]⟩]
  else []

/-- `SVC_SPRINTF`, with the text its format and arguments give. -/
def svcSprintf (dst : Nat) (text : List UInt8) : List HostStore :=
  armFormatTo (svcArg L s dst) 0xffffffff text

/-- `SVC_LIBC_READ`, with the bytes the host has for the descriptor. -/
def svcLibcRead (buf count : Nat) (data : List UInt8) : List HostStore :=
  [⟨.arena (svcArg L s buf), data.take (svcArg L s count)⟩]

end Handlers

/-- The functions a guest can call that make the host write to guest memory. -/
inductive Writer
  | memcpy | memmove | memset | strcpy | strncpy | strcat | strncat | strlcpy
  | aeabiMemcpy | aeabiMemmove | aeabiMemset | aeabiMemclr | wmemcpy | wmemset | sprintf | read
  deriving DecidableEq

/-- A call: three argument registers, the formatted text of `sprintf` and the file's bytes of
`read`. -/
structure WriteCall where
  writer : Writer
  x0 : Nat
  x1 : Nat
  x2 : Nat
  data : List UInt8

/-- The writers whose handler asks `guest_clamp_write_n`. -/
def Writer.clamps : Writer → Bool
  | .memcpy | .memmove | .memset | .aeabiMemcpy | .aeabiMemmove => true
  | _ => false

namespace WriteCall

/-- What the handler of a writer that does not clamp stores. -/
def stores (L : Layout) (s : AddressSpace) (c : WriteCall) : List HostStore :=
  match c.writer with
  | .memcpy | .memmove | .memset | .aeabiMemcpy | .aeabiMemmove => []
  | .strcpy => svcStrcpy L s c.x0 c.x1
  | .strncpy => svcStrncpy L s c.x0 c.x1 c.x2
  | .strcat => svcStrcat L s c.x0 c.x1
  | .strncat => svcStrncat L s c.x0 c.x1 c.x2
  | .strlcpy => svcStrlcpy L s c.x0 c.x1 c.x2
  | .aeabiMemset => svcAeabiMemset L s c.x0 c.x1 c.x2
  | .aeabiMemclr => svcAeabiMemclr L s c.x0 c.x1
  | .wmemcpy => svcWmemcpy L s c.x0 c.x1 c.x2
  | .wmemset => svcWmemset L s c.x0 c.x1 c.x2
  | .sprintf => svcSprintf L s c.x0 c.data
  | .read => svcLibcRead L s c.x1 c.x2 c.data

/-- The call. -/
def run (L : Layout) (s : AddressSpace) (c : WriteCall) : AddressSpace :=
  match c.writer with
  | .memcpy | .memmove | .aeabiMemcpy | .aeabiMemmove => svcMemcpy L s c.x0 c.x1 c.x2
  | .memset => svcMemset L s c.x0 c.x1 c.x2
  | _ => s.carryOut (c.stores L s)

end WriteCall

/-! ## Protected bytes -/

/-- A range of code that is not writable. -/
def LoadedRegion.readOnlyCode (r : LoadedRegion) : Bool := r.flags.testBit 0 && !r.flags.testBit 1

variable (L : Layout) (loaded : List LoadedRegion)

/-- A byte of read-only code, or of the trampolines and JNI tables. -/
def ProtectedByte (x : Nat) : Prop :=
  (∃ r ∈ loaded, r.readOnlyCode = true ∧ x ∈ r.span.addresses) ∨
    (L.trampBase ≤ x ∧ x < L.stackBase)

/-- The call leaves every protected byte as it was. -/
def WriteCall.KeepsCode (s : AddressSpace) (c : WriteCall) : Prop :=
  ∀ x, ProtectedByte L s.loaded x → (c.run L s).mem.arena x = s.mem.arena x

/-- A store does not touch a protected byte. -/
def HostStore.Spares (st : HostStore) : Prop :=
  ∀ off, st.ptr = .arena off → ∀ i < st.bytes.length, ¬ ProtectedByte L loaded (off + i)

/-! ## The clamp -/

theorem LoadedRegion.admits_iff {r : LoadedRegion} {dst m : Nat} :
    r.Admits dst m ↔ (r.readOnlyCode →
      ¬ (r.lo ≤ dst ∧ dst < r.hi) ∧ (dst < r.lo → dst + m ≤ r.lo)) := by
  rw [Admits, readOnlyCode]
  cases r.flags.testBit 0 <;> cases r.flags.testBit 1 <;> simp

variable {x : Nat} {w : Writer}

theorem guestClampWriteN_spares {dst n : Nat}
    (hlo : dst ≤ x) (hhi : x < dst + guestClampWriteN L loaded dst n) :
    ¬ ProtectedByte L loaded x := by
  have hm : x - dst + 1 ≤ guestClampWriteN L loaded dst n := by omega
  obtain ⟨-, hregions, htables, hfront⟩ := (le_guestClampWriteN (Nat.succ_pos _)).mp hm
  rintro (⟨r, hr, hcode, hmem⟩ | htable)
  · have hadmits := LoadedRegion.admits_iff.mp (hregions r hr) hcode
    rw [Interval.mem_addresses, LoadedRegion.span] at hmem
    simp only at hmem
    omega
  · omega

/-- **The clamp is the longest safe part of a write** where no region of code is
empty. -/
theorem guestClampWriteN_isGreatest (isArm64 : Bool) (heapMb mmap2Base mmap2End : Int)
    (hne : ∀ r ∈ loaded, r.readOnlyCode → r.lo < r.hi) (dst n : Nat) :
    IsGreatest { m | m ≤ n ∧ ∀ x, dst ≤ x → x < dst + m → x < 2 ^ 32 ∧
        ¬ ProtectedByte (guestLayoutInit isArm64 heapMb mmap2Base mmap2End) loaded x }
      (guestClampWriteN (guestLayoutInit isArm64 heapMb mmap2Base mmap2End) loaded dst n) := by
  set L := guestLayoutInit isArm64 heapMb mmap2Base mmap2End with hL
  have htramp : L.trampBase < L.stackBase := by
    cases isArm64 <;> simp [hL, guestLayoutInit]
  constructor
  · have hle (hpos : 0 < guestClampWriteN L loaded dst n) :=
      ((le_guestClampWriteN hpos).mp le_rfl).1
    refine ⟨by omega, fun x hlo hhi => ⟨by omega, guestClampWriteN_spares L loaded hlo hhi⟩⟩
  · rintro m ⟨hmn, hsafe⟩
    rcases Nat.eq_zero_or_pos m with rfl | hm
    · exact Nat.zero_le _
    have hfirst := (hsafe dst le_rfl (by omega)).2
    have hlast := (hsafe (dst + m - 1) (by omega) (by omega)).1
    have hcut {y : Nat} (hy : ProtectedByte L loaded y) (hlt : dst < y) : dst + m ≤ y := by
      by_contra hover
      exact (hsafe y hlt.le (by omega)).2 hy
    refine (le_guestClampWriteN hm).mpr ⟨⟨hmn, by omega⟩, fun r hr => ?_, fun h => hfirst (.inr h),
      hcut (.inr ⟨le_rfl, htramp⟩)⟩
    exact LoadedRegion.admits_iff.mpr fun hcode =>
      ⟨fun h => hfirst (.inl ⟨r, hr, hcode, h⟩), hcut (.inl ⟨r, hr, hcode, le_rfl, hne r hr hcode⟩)⟩

/-- A write over a region of code of one page is cut in front of it. -/
theorem guestClampWriteN_page :
    (∀ r ∈ [(⟨0x10001000, 0x10002000, 5⟩ : LoadedRegion)], r.readOnlyCode → r.lo < r.hi) ∧
      IsGreatest { m | m ≤ 0x2000 ∧ ∀ x, 0x10000000 ≤ x → x < 0x10000000 + m → x < 2 ^ 32 ∧
          ¬ ProtectedByte (guestLayoutInit true 256 0 0) [⟨0x10001000, 0x10002000, 5⟩] x }
        (guestClampWriteN (guestLayoutInit true 256 0 0) [⟨0x10001000, 0x10002000, 5⟩]
          0x10000000 0x2000) :=
  ⟨by decide, guestClampWriteN_isGreatest _ true 256 0 0 (by decide) _ _⟩

/-- An empty region has no byte that could be written, and still cuts the write. -/
theorem guestClampWriteN_empty :
    guestClampWriteN (guestLayoutInit true 256 0 0) [⟨0x10001000, 0x10001000, 5⟩]
        0x10000000 0x2000 = 0x1000 ∧
      ∀ x, 0x10000000 ≤ x → x < 0x10002000 →
        ¬ ProtectedByte (guestLayoutInit true 256 0 0) [⟨0x10001000, 0x10001000, 5⟩] x := by
  refine ⟨by decide, fun x hlo hhi => ?_⟩
  rintro (⟨r, hr, -, hmem⟩ | htable)
  · rw [mem_singleton.mp hr, Interval.mem_addresses] at hmem
    simp [LoadedRegion.span] at hmem
    omega
  · simp [guestLayoutInit] at htable
    omega

/-! ## Which writers keep the code -/

namespace WriteCall

variable {L : Layout} {s : AddressSpace} {c : WriteCall}

theorem carryOut_arena {stores : List HostStore}
    (h : ∀ st ∈ stores, ∀ off, st.ptr = .arena off → ∀ i < st.bytes.length, off + i ≠ x) :
    (s.carryOut stores).mem.arena x = s.mem.arena x := by
  simp only [AddressSpace.carryOut]
  generalize s.mem = mem
  induction stores generalizing mem with
  | nil => rfl
  | cons st stores ih =>
    rw [foldl_cons, ih (forall_mem_cons.mp h).2]
    obtain ⟨ptr, bytes⟩ := st
    cases ptr with
    | arena off =>
      have hhead := h ⟨.arena off, bytes⟩ mem_cons_self off rfl
      apply writeBytes_agreeOutside
      by_contra hin
      obtain ⟨hlo, hhi⟩ := not_or.mp hin
      simp only at hhi
      have hindex : x - off < bytes.length := by omega
      exact hhead _ hindex (by omega)
    | overflow host off => rfl

theorem carryOut_cons (st : HostStore) (stores : List HostStore) :
    s.carryOut (st :: stores) = (s.carryOut [st]).carryOut stores := rfl

theorem run_of_not_clamps (hclamps : c.writer.clamps = false) :
    c.run L s = s.carryOut (c.stores L s) := by
  rw [run]
  cases hw : c.writer <;> simp only [hw] at hclamps ⊢ <;> cases hclamps

theorem keepsCode_of_spares (hclamps : c.writer.clamps = false)
    (h : ∀ st ∈ c.stores L s, st.Spares L s.loaded) : c.KeepsCode L s := by
  intro x hx
  rw [run_of_not_clamps hclamps]
  apply carryOut_arena
  rintro st hst off hptr i hi rfl
  exact h st hst off hptr i hi hx

theorem keepsCode_memcpy (dst src n : Nat) (hx : ProtectedByte L s.loaded x) :
    (svcMemcpy L s dst src n).mem.arena x = s.mem.arena x := by
  rw [svcMemcpy]
  split
  · rfl
  · apply move_agreeOutside
    by_contra hin
    obtain ⟨hlo, hhi⟩ := not_or.mp hin
    exact guestClampWriteN_spares L s.loaded (not_lt.mp hlo) (not_le.mp hhi) hx

theorem keepsCode_memset (dst c n : Nat) (hx : ProtectedByte L s.loaded x) :
    (svcMemset L s dst c n).mem.arena x = s.mem.arena x := by
  apply fill_agreeOutside
  by_contra hin
  obtain ⟨hlo, hhi⟩ := not_or.mp hin
  exact guestClampWriteN_spares L s.loaded (not_lt.mp hlo) (not_le.mp hhi) hx

/-- The writers that ask the clamp keep the code for every destination and length. -/
theorem keepsCode_of_clamps (hclamps : c.writer.clamps) : c.KeepsCode L s := by
  intro x hx
  rw [run]
  cases hw : c.writer <;> simp only [hw, Writer.clamps, Bool.false_eq_true] at hclamps
  case memset => exact keepsCode_memset c.x0 c.x1 c.x2 hx
  all_goals exact keepsCode_memcpy c.x0 c.x1 c.x2 hx

/-- An arena with the string `A` at `0x1000`, and a byte 1 in the trampolines. -/
def probeSpace (L : Layout) : AddressSpace :=
  { AddressSpace.initial L with
    mem := ⟨fun x => if x = 0x1000 then 65 else if x = L.trampBase + 1 then 1 else 0,
      fun _ _ => 0⟩ }

/-- A call of the writer that stores to the trampolines. -/
def probeCall (L : Layout) : Writer → WriteCall
  | .aeabiMemset => ⟨.aeabiMemset, L.trampBase, 1, 65, []⟩
  | .aeabiMemclr => ⟨.aeabiMemclr, L.trampBase + 1, 1, 0, []⟩
  | .wmemset => ⟨.wmemset, L.trampBase, 65, 1, []⟩
  | .read => ⟨.read, 3, L.trampBase, 1, [65]⟩
  | .strlcpy => ⟨.strlcpy, L.trampBase, 0x1000, 2, []⟩
  | w => ⟨w, L.trampBase, 0x1000, 1, [65]⟩

theorem probe_clear {a : Nat} (ha : 0x1000 < a) (hle : a ≤ L.trampBase) :
    (probeSpace L).mem.arena a = 0 := by
  simp only [probeSpace]
  rw [if_neg (by omega), if_neg (by omega)]

theorem probe_source (hlo : 0x2000 ≤ L.trampBase) {limit : Nat} (hlimit : 0 < limit) :
    (probeSpace L).mem.arena.strnlen 0x1000 limit = 1 := by
  have hnext : (probeSpace L).mem.arena (0x1000 + 1) = 0 := probe_clear (by omega) (by omega)
  rw [strnlen_of_ne_zero _ hlimit, strnlen_of_zero hnext]
  simp [probeSpace]

theorem probe_bytes : (probeSpace L).mem.arena.bytesAt 0x1000 1 = [65] := by
  simp [ByteMemory.bytesAt, probeSpace]

theorem probeCall_writer (L : Layout) (w : Writer) : (probeCall L w).writer = w := by
  cases w <;> rfl

/-- The first byte lands in the trampolines and differs from what was there; the other stores begin
behind it. -/
def ProbeHits (L : Layout) (w : Writer) : Prop :=
  ∃ off b rest more, (probeCall L w).stores L (probeSpace L) =
      ⟨.arena off, b :: rest⟩ :: more ∧ (off = L.trampBase ∨ off = L.trampBase + 1) ∧
    b ≠ (probeSpace L).mem.arena off ∧
      ∀ st ∈ more, ∀ off', st.ptr = .arena off' → off < off'

theorem probeHits (hlo : 0x2000 ≤ L.trampBase) (hhi : L.trampBase < 0x80000000)
    (hclamps : w.clamps = false) : ProbeHits L w := by
  have harg : ∀ v, v < 0x2000 → svcArg L (probeSpace L) v = v := fun v hv => svcArg_of_lt (by omega)
  have htramp : svcArg L (probeSpace L) L.trampBase = L.trampBase := svcArg_of_lt (by omega)
  have hnext : svcArg L (probeSpace L) (L.trampBase + 1) = L.trampBase + 1 :=
    svcArg_of_lt (by omega)
  have hptr : (probeSpace L).ptr L (L.trampBase + 1) = (.arena (L.trampBase + 1), _) :=
    ptr_of_lt (by omega)
  have hne : L.trampBase ≠ 0 := by omega
  have hwrap : ∀ v, v ≤ L.trampBase + 1 → u32 v = v := fun v hv => u32_of_lt (by omega)
  have htarget : (probeSpace L).mem.arena L.trampBase = 0 := probe_clear (by omega) le_rfl
  have hempty := strnlen_of_zero htarget
  have hsource : ∀ limit, 0 < limit → (probeSpace L).mem.arena.strnlen 0x1000 limit = 1 :=
    fun limit => probe_source hlo
  cases w <;> simp only [Writer.clamps, Bool.true_eq_false] at hclamps
  -- All calls but one put an `A` at the start of the trampolines.
  case strcpy | strncpy | strcat | strncat | strlcpy =>
    simp [ProbeHits, probeCall, stores, svcStrcpy, svcStrncpy, svcStrcat, svcStrncat, svcStrlcpy,
      hostStrlen, arenaSize, harg, htramp, hne, hempty, hsource, probe_bytes, hptr, htarget]
  case aeabiMemset | read =>
    simp [ProbeHits, probeCall, stores, svcAeabiMemset, svcLibcRead, harg, htramp, htarget]
  case aeabiMemclr =>
    have hone : (probeSpace L).mem.arena (L.trampBase + 1) = 1 := by simp [probeSpace]; omega
    simp [ProbeHits, probeCall, stores, svcAeabiMemclr, harg, hnext, hone]
  case wmemcpy =>
    obtain ⟨rest, hbytes⟩ :
        ∃ rest, (probeSpace L).mem.arena.bytesAt 0x1000 4 = 65 :: rest := ⟨_, rfl⟩
    have hguard : ¬ 0xfffff000 < L.trampBase + 4 := by omega
    simp [ProbeHits, probeCall, stores, svcWmemcpy, harg, htramp, hne, hguard, hbytes,
      htarget]
  case wmemset =>
    have hword : word32 65 = [65, 0, 0, 0] := rfl
    simp [ProbeHits, probeCall, stores, svcWmemset, harg, htramp, hwrap, hword, htarget]
  case sprintf =>
    simp [ProbeHits, probeCall, stores, svcSprintf, armFormatTo, htramp, hne, hwrap, htarget]

theorem not_keepsCode_probe (hlo : 0x2000 ≤ L.trampBase) (hhi : L.trampBase < 0x80000000)
    (htables : L.trampBase + 1 < L.stackBase) (hclamps : w.clamps = false) :
    ¬ (probeCall L w).KeepsCode L (probeSpace L) := by
  obtain ⟨off, b, rest, more, hstores, hoff, hnew, hmore⟩ := probeHits hlo hhi hclamps
  intro hkeeps
  have hprotected : ProtectedByte L (probeSpace L).loaded off := by
    apply Or.inr
    omega
  apply hnew
  rw [← hkeeps off hprotected, run_of_not_clamps ((probeCall_writer L w).symm ▸ hclamps), hstores]
  -- The later stores begin behind the byte, so it is the first one's.
  rw [carryOut_cons, carryOut_arena]
  · simp [AddressSpace.carryOut, HostMemory.writeBytes, ByteMemory.writeBytes]
  · intro st hst off' hptr i _
    have := hmore st hst off' hptr
    omega

end WriteCall

theorem trampolines_bounds (isArm64 : Bool) (heapMb mmap2Base mmap2End : Int) :
    0x2000 ≤ (guestLayoutInit isArm64 heapMb mmap2Base mmap2End).trampBase ∧
      (guestLayoutInit isArm64 heapMb mmap2Base mmap2End).trampBase < 0x80000000 ∧
        (guestLayoutInit isArm64 heapMb mmap2Base mmap2End).trampBase + 1 <
          (guestLayoutInit isArm64 heapMb mmap2Base mmap2End).stackBase := by
  cases isArm64 <;> simp [guestLayoutInit]

/-- `strcpy(0x41000000, "A")` puts the string over the first trampoline of the 32-bit layout. -/
theorem not_keepsCode_strcpy :
    ¬ (⟨.strcpy, 0x41000000, 0x1000, 1, [65]⟩ : WriteCall).KeepsCode (defaultLayout false)
      (WriteCall.probeSpace (defaultLayout false)) := by
  obtain ⟨hlo, hhi, htables⟩ := trampolines_bounds false 256 0 0
  exact WriteCall.not_keepsCode_probe (w := .strcpy) hlo hhi htables rfl

/-- **Code write protection.** In both layouts a writer keeps every byte of read-only code and of
the runtime's tables exactly if its handler asks the clamp; and so does any call that does not store
to a protected byte. -/
theorem keepsCode_iff_clamps (isArm64 : Bool) (heapMb mmap2Base mmap2End : Int) (w : Writer) :
    ((∀ (s : AddressSpace) (c : WriteCall), c.writer = w →
        c.KeepsCode (guestLayoutInit isArm64 heapMb mmap2Base mmap2End) s) ↔ w.clamps = true) ∧
      ∀ (s : AddressSpace) (c : WriteCall), c.writer = w →
        (∀ st ∈ c.stores (guestLayoutInit isArm64 heapMb mmap2Base mmap2End) s,
          st.Spares (guestLayoutInit isArm64 heapMb mmap2Base mmap2End) s.loaded) →
        c.KeepsCode (guestLayoutInit isArm64 heapMb mmap2Base mmap2End) s := by
  refine ⟨⟨?_, ?_⟩, ?_⟩
  · intro hkeeps
    by_contra hclamps
    obtain ⟨hlo, hhi, htables⟩ := trampolines_bounds isArm64 heapMb mmap2Base mmap2End
    apply WriteCall.not_keepsCode_probe hlo hhi htables (Bool.not_eq_true _ ▸ hclamps)
    exact hkeeps _ _ (WriteCall.probeCall_writer _ w)
  · intro hclamps s c hw
    exact WriteCall.keepsCode_of_clamps (hw ▸ hclamps)
  · intro s c hw hspares
    cases hclamps : w.clamps with
    | true => exact WriteCall.keepsCode_of_clamps (hw ▸ hclamps)
    | false => exact WriteCall.keepsCode_of_spares (hw ▸ hclamps) hspares

end Lunaria
