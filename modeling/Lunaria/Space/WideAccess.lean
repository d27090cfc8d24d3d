/-
# Wide accesses and single bytes

A wide A64 access resolves the address of its first byte and copies from there, and its
write guard judges the whole range at once. A program that moves the same bytes one at a
time has every address resolved and judged on its own. The two agree exactly where the
host bytes behind the range are consecutive and the guard treats each byte like the range.
Two neighbouring segments of a lazy reservation are committed, and yet not consecutive.
-/

import Lunaria.Lib.Run
import Lunaria.Space.OneMemory

namespace Lunaria

open Lib List ByteMemory HostMemory

/-- Single-byte reads of a range, one after another. -/
def readEach (L : Layout) : AddressSpace → Nat → Nat → List UInt8 × AddressSpace
  | s, _, 0 => ([], s)
  | s, va, n + 1 =>
    let (byte, s) := memoryRead L s va 1
    let (rest, s) := readEach L s (va + 1) n
    (byte ++ rest, s)

/-- Single-byte writes of a value's bytes, one after another. -/
def writeEach (L : Layout) : AddressSpace → Nat → List UInt8 → AddressSpace
  | s, _, [] => s
  | s, va, byte :: bytes => writeEach L (memoryWrite L s va [byte]) (va + 1) bytes

/-- A wide access is its single-byte accesses, in what is read and, but for the segment caches, in
the state a write leaves. -/
structure Bytewise (L : Layout) (s : AddressSpace) (va n : Nat) : Prop where
  read : ∀ mem, (memoryRead L (s.withMem mem) va n).1 = (readEach L (s.withMem mem) va n).1
  write : ∀ mem data, data.length = n →
    (memoryWrite L (s.withMem mem) va data).Recached (writeEach L (s.withMem mem) va data)

/-- The host bytes behind a range, each address looked up after the one before it. -/
def hostTrail (L : Layout) : AddressSpace → Nat → Nat → List HostPtr
  | _, _, 0 => []
  | s, va, n + 1 => (s.ptr L va).1 :: hostTrail L (s.ptr L va).2 (va + 1) n

def HostPtr.consecutive (p : HostPtr) (n : Nat) : List HostPtr := (List.range n).map p.add

/-- The tables back the range with consecutive host bytes, and the write guard answers alike for all
of them. -/
structure Uniform (L : Layout) (s : AddressSpace) (va n : Nat) : Prop where
  contiguous : hostTrail L s va n = (s.ptr L va).1.consecutive n
  guarded : ∀ i < n, writeBlocked L s (va + i) 1 = writeBlocked L s va n

/-! ## Copies, byte by byte -/

namespace HostPtr

variable (p : HostPtr)

@[simp]
theorem add_zero : p.add 0 = p := by
  cases p with
  | arena _ | overflow _ _ => rfl

theorem add_add (i j : Nat) : (p.add i).add j = p.add (i + j) := by
  cases p with
  | arena off => exact congrArg arena (add_assoc off i j)
  | overflow host off => exact congrArg (overflow host) (add_assoc off i j)

theorem consecutive_succ (n : Nat) : p.consecutive (n + 1) = p :: (p.add 1).consecutive n := by
  rw [consecutive, range_succ_eq_map, map_cons, add_zero, map_map]
  congr 1
  apply map_congr_left
  intro i _
  rw [Function.comp_apply, add_add, add_comm 1 i]

end HostPtr

namespace HostMemory

variable (m : HostMemory) (p : HostPtr)

theorem readBytes_eq (n : Nat) : m.readBytes p n = (p.consecutive n).map m.read := by
  rw [HostPtr.consecutive, map_map]
  rfl

theorem writeBytes_nil : m.writeBytes p [] = m := by
  cases p with
  | arena off => rw [writeBytes, writeBytes_nil]
  | overflow host off => simp [writeBytes, writeBytes_nil]

theorem writeBytes_cons (byte : UInt8) (bytes : List UInt8) :
    m.writeBytes p (byte :: bytes) = (m.write p byte).writeBytes (p.add 1) bytes := by
  cases p with
  | arena off => simp [writeBytes, write, HostPtr.add, writeBytes_cons]
  | overflow host off =>
    simp only [writeBytes, write, writeBytes_cons]
    congr 1
    funext host'
    by_cases hhost : host' = host
    · simp [hhost]
    · simp [hhost]

theorem writeBytes_singleton (byte : UInt8) : m.writeBytes p [byte] = m.write p byte := by
  rw [writeBytes_cons, writeBytes_nil]

end HostMemory

theorem trail_eq_of_read {xs ys : List HostPtr}
    (h : ∀ mem : HostMemory, xs.map mem.read = ys.map mem.read) : xs = ys := by
  have hlength : xs.length = ys.length := by simpa using congrArg length (h HostMemory.zero)
  apply ext_getElem hlength
  intro i hi hi'
  apply eq_of_read
  intro mem
  have hbyte := congrArg (·[i]?) (h mem)
  simpa [hi, hi'] using hbyte

/-! ## Reads -/

section Reads

variable {L : Layout} {s : AddressSpace} {va n : Nat}

theorem memoryRead_withMem (mem : HostMemory) : memoryRead L (s.withMem mem) va n =
    (mem.readBytes (s.ptr L va).1 n, (s.ptr L va).2.withMem mem) := by
  rw [memoryRead, ptr_withMem]
  rfl

theorem readEach_withMem (mem : HostMemory) :
    (readEach L (s.withMem mem) va n).1 = (hostTrail L s va n).map mem.read := by
  induction n generalizing s va with
  | zero => rfl
  | succ n ih =>
    have hbyte : mem.readBytes (s.ptr L va).1 1 = [mem.read (s.ptr L va).1] := by
      rw [readBytes_eq, HostPtr.consecutive_succ]
      rfl
    simp only [readEach, memoryRead_withMem, hbyte, ih]
    rfl

theorem reads_iff_contiguous :
    (∀ mem, (memoryRead L (s.withMem mem) va n).1 = (readEach L (s.withMem mem) va n).1) ↔
      hostTrail L s va n = (s.ptr L va).1.consecutive n := by
  simp only [memoryRead_withMem, readEach_withMem, readBytes_eq]
  constructor
  · intro h
    exact (trail_eq_of_read h).symm
  · intro h mem
    rw [h]

end Reads

/-! ## Writes -/

section Writes

variable {L : Layout} {s : AddressSpace} {va n : Nat}

theorem writeBlocked_recached {s' : AddressSpace} (h : s.Recached s') :
    writeBlocked L s' va n = writeBlocked L s va n := by
  have hcanon := a64CanonVa_recached (L := L) h va
  obtain ⟨aliases, rfl, -⟩ := h
  rw [writeBlocked, writeBlocked, hcanon]

theorem recached_withMem {s' : AddressSpace} (h : s.Recached s') (mem : HostMemory) :
    (s.withMem mem).Recached (s'.withMem mem) := by
  obtain ⟨aliases, rfl, hsame⟩ := h
  exact ⟨aliases, rfl, hsame⟩

theorem forall_range_succ (P : Nat → Prop) (h : ∀ i < n + 1, P (va + i)) :
    P va ∧ ∀ i < n, P (va + 1 + i) := by
  refine ⟨h 0 (by omega), fun i hi => ?_⟩
  rw [add_assoc]
  exact h _ (by omega)

variable (data : List UInt8) (byte : UInt8)

theorem memoryWrite_of_open (hopen : writeBlocked L s va data.length = false)
    (mem : HostMemory) : memoryWrite L (s.withMem mem) va data =
      (s.ptr L va).2.withMem (mem.writeBytes (s.ptr L va).1 data) := by
  have hguard : writeBlocked L (s.withMem mem) va data.length = false := hopen
  rw [memoryWrite, hguard, ptr_withMem]
  rfl

theorem memoryWrite_of_blocked
    (hblocked : writeBlocked L s va data.length) : memoryWrite L s va data = s := by
  rw [memoryWrite, if_pos hblocked]

theorem memoryWrite_byte_of_open (hopen : writeBlocked L s va 1 = false)
    (mem : HostMemory) : memoryWrite L (s.withMem mem) va [byte] =
      (s.ptr L va).2.withMem (mem.write (s.ptr L va).1 byte) := by
  rw [memoryWrite_of_open [byte] hopen, writeBytes_singleton]

theorem mem_memoryWrite_byte : (memoryWrite L s va [byte]).mem =
    if writeBlocked L s va 1 then s.mem else s.mem.write (s.ptr L va).1 byte := by
  cases hguard : writeBlocked L s va 1 with
  | true => rw [memoryWrite_of_blocked [byte] hguard, if_pos rfl]
  | false => exact congrArg AddressSpace.mem (memoryWrite_byte_of_open byte hguard s.mem)

theorem writeBlocked_memoryWrite (va' n' : Nat) :
    writeBlocked L (memoryWrite L s va data) va' n' = writeBlocked L s va' n' := by
  cases hguard : writeBlocked L s va data.length with
  | true => rw [memoryWrite_of_blocked data hguard]
  | false =>
    have hwrite : memoryWrite L s va data = _ := memoryWrite_of_open data hguard s.mem
    have hcache : writeBlocked L (s.ptr L va).2 va' n' = writeBlocked L s va' n' :=
      writeBlocked_recached (ptr_recached L s va)
    rw [hwrite]
    exact hcache

variable {data : List UInt8} {i : Nat}

theorem writeEach_of_blocked
    (hblocked : ∀ i < data.length, writeBlocked L s (va + i) 1) : writeEach L s va data = s := by
  induction data generalizing va with
  | nil => rfl
  | cons byte data ih =>
    obtain ⟨hfirst, hrest⟩ := forall_range_succ (writeBlocked L s · 1) hblocked
    rw [writeEach, memoryWrite_of_blocked [byte] hfirst]
    exact ih hrest

/-- Where the guard lets every byte pass and the trail is consecutive, the single bytes end
up as one copy. -/
theorem writeEach_of_open {p : HostPtr}
    (hopen : ∀ i < data.length, writeBlocked L s (va + i) 1 = false)
    (htrail : hostTrail L s va data.length = p.consecutive data.length) (mem : HostMemory) :
    ∃ s₁, s.Recached s₁ ∧
      writeEach L (s.withMem mem) va data = s₁.withMem (mem.writeBytes p data) := by
  induction data generalizing s va p mem with
  | nil => exact ⟨s, .refl s, by rw [HostMemory.writeBytes_nil]; rfl⟩
  | cons byte data ih =>
    rw [length_cons, hostTrail, HostPtr.consecutive_succ, cons.injEq] at htrail
    obtain ⟨hptr, htrail⟩ := htrail
    obtain ⟨hfirst, hrest⟩ := forall_range_succ (writeBlocked L s · 1 = false) hopen
    have hcache := ptr_recached L s va
    have hrest' : ∀ i < data.length, writeBlocked L (s.ptr L va).2 (va + 1 + i) 1 = false := by
      intro i hi
      rw [writeBlocked_recached hcache]
      exact hrest i hi
    obtain ⟨s₁, hs₁, hwrite⟩ := ih hrest' htrail _
    refine ⟨s₁, hcache.trans hs₁, ?_⟩
    rw [writeEach, memoryWrite_byte_of_open byte hfirst, hptr, hwrite, HostMemory.writeBytes_cons]

/-- On a uniform range a wide write and its single-byte writes leave the same state. -/
theorem Uniform.write (h : Uniform L s va n) (mem : HostMemory) (hlength : data.length = n) :
    (memoryWrite L (s.withMem mem) va data).Recached (writeEach L (s.withMem mem) va data) := by
  subst hlength
  cases hguard : writeBlocked L s va data.length with
  | true =>
    have hwide : memoryWrite L (s.withMem mem) va data = s.withMem mem :=
      memoryWrite_of_blocked data hguard
    have heach : writeEach L (s.withMem mem) va data = s.withMem mem :=
      writeEach_of_blocked fun i hi => (h.guarded i hi).trans hguard
    rw [hwide, heach]
    exact .refl _
  | false =>
    obtain ⟨s₁, hs₁, heach⟩ := writeEach_of_open
      (fun i hi => (h.guarded i hi).trans hguard) h.contiguous mem
    rw [memoryWrite_of_open data hguard, heach]
    exact recached_withMem ((ptr_recached L s va).symm.trans hs₁) _

end Writes

/-! ## What the guard gives away -/

section Guards

variable {L : Layout} {s : AddressSpace} {va n : Nat}

/-- Writing ones clears no one. -/
theorem writeEach_ones {q : HostPtr} (hone : s.mem.read q = 1) :
    (writeEach L s va (replicate n 1)).mem.read q = 1 := by
  induction n generalizing s va with
  | zero => exact hone
  | succ n ih =>
    apply ih
    rw [mem_memoryWrite_byte]
    split
    · exact hone
    · rw [read_write]
      split
      · rfl
      · exact hone

theorem exists_one_of_open (hi : i < n) (hopen : writeBlocked L s (va + i) 1 = false) :
    ∃ q, (writeEach L s va (replicate n 1)).mem.read q = 1 := by
  induction n generalizing s va i with
  | zero => exact absurd hi (Nat.not_lt_zero i)
  | succ n ih =>
    rw [replicate_succ]
    cases i with
    | zero =>
      refine ⟨(s.ptr L va).1, writeEach_ones ?_⟩
      rw [mem_memoryWrite_byte, if_neg (by simpa using hopen), read_write_self]
    | succ i =>
      apply ih (Nat.lt_of_succ_lt_succ hi)
      rw [writeBlocked_memoryWrite, add_assoc, add_comm 1 i]
      exact hopen

/-- Writes that are zero wherever the guard lets them pass keep a blank memory blank. -/
theorem writeEach_blank
    (hdata : ∀ i byte, data[i]? = some byte → byte = 0 ∨ writeBlocked L s (va + i) 1)
    (hblank : ∀ q, s.mem.read q = 0) (q : HostPtr) : (writeEach L s va data).mem.read q = 0 := by
  induction data generalizing s va with
  | nil => exact hblank q
  | cons byte data ih =>
    apply ih
    · intro i byte' hbyte'
      rw [writeBlocked_memoryWrite, add_assoc, add_comm 1 i]
      exact hdata _ byte' hbyte'
    intro q'
    rw [mem_memoryWrite_byte]
    split
    · exact hblank q'
    · rename_i hopen
      have hbyte : byte = 0 := (hdata 0 byte rfl).resolve_right hopen
      rw [read_write, hblank, hbyte, ite_self]

theorem read_writeBytes (m : HostMemory) (p : HostPtr) {byte : UInt8}
    (hbyte : data[i]? = some byte) : (m.writeBytes p data).read (p.add i) = byte := by
  obtain ⟨hi, rfl⟩ := List.getElem?_eq_some_iff.mp hbyte
  have hcopy := congrArg (·[i]?) (readBytes_writeBytes m p data)
  simpa [HostMemory.readBytes, hi] using hcopy

theorem exists_single_one (hi : i < n) : ∃ data : List UInt8, data.length = n ∧
    data[i]? = some 1 ∧ ∀ j byte, data[j]? = some byte → byte = 0 ∨ j = i := by
  refine ⟨(replicate n 0).set i 1, by simp, by simp [hi], fun j byte hj => ?_⟩
  by_cases hij : i = j
  · exact .inr hij.symm
  · rw [getElem?_set_ne hij, getElem?_replicate] at hj
    split at hj
    · exact .inl (Option.some.inj hj).symm
    · cases hj

/-- Where wide writes are bytewise, the guard treats each byte like the range. -/
theorem Bytewise.guarded (h : Bytewise L s va n) (hi : i < n) :
    writeBlocked L s (va + i) 1 = writeBlocked L s va n := by
  cases hwide : writeBlocked L s va n with
  | true =>
    -- the wide write is dropped, so the byte's own write must be dropped too
    rw [← Bool.not_eq_false]
    intro hopen
    have hones : (replicate n (1 : UInt8)).length = n := length_replicate
    obtain ⟨q, hq⟩ := exists_one_of_open (s := s.withMem .zero) hi hopen
    have hsame := (h.write .zero _ hones).mem
    rw [memoryWrite_of_blocked _ (by rw [hones]; exact hwide)] at hsame
    rw [hsame] at hq
    exact absurd ((read_zero q).symm.trans hq) (by decide)
  | false =>
    -- the wide write stores this byte, and the byte's own write is the only one that could
    rw [← Bool.not_eq_true]
    intro hblocked
    obtain ⟨data, hlength, hbyte, hother⟩ := exists_single_one hi
    have hsame := (h.write .zero data hlength).mem
    rw [memoryWrite_of_open data (by rw [hlength]; exact hwide)] at hsame
    have hblank : (writeEach L (s.withMem .zero) va data).mem.read ((s.ptr L va).1.add i) = 0 := by
      refine writeEach_blank (fun j byte hj => ?_) read_zero _
      rcases hother j byte hj with hzero | rfl
      · exact .inl hzero
      · exact .inr hblocked
    rw [hsame] at hblank
    have hstored := read_writeBytes .zero (s.ptr L va).1 hbyte
    exact absurd (hblank.symm.trans hstored) (by decide)

/-- **A wide access is its single-byte accesses exactly on uniform ranges.** -/
theorem bytewise_iff_uniform (L : Layout) (s : AddressSpace) (va n : Nat) :
    Bytewise L s va n ↔ Uniform L s va n := by
  constructor
  · intro h
    exact ⟨reads_iff_contiguous.mp h.read, fun i hi => h.guarded hi⟩
  · intro h
    exact ⟨reads_iff_contiguous.mpr h.contiguous, fun mem data hlength => h.write mem hlength⟩

end Guards

/-! ## Two neighbouring commits -/

/-- An A64 guest reserves 32 MiB, commits two pages next to each other and stores into the
second. Each commit gets a 64 KiB slab of the arena. -/
def neighbourCommits : List SpaceOp :=
  [.mmap false plainHost ⟨0, 0x2000000, 0, 0x22, 0xffffffff, 0, false⟩,
    .mprotect plainHost 0x10000000000 0x1000, .mprotect plainHost 0x10000001000 0x1000,
    .store 0x10000001000 1]

/-- The state these calls lead to. -/
def neighbourSpace : AddressSpace :=
  run (AddressSpace.step (defaultLayout true)) (.initial (defaultLayout true)) neighbourCommits

theorem not_bytewise_of_read {L : Layout} {s : AddressSpace} {va n : Nat}
    (h : (memoryRead L s va n).1 ≠ (readEach L s va n).1) : ¬ Bytewise L s va n :=
  fun hbytes => h (hbytes.read s.mem)

/-- Both bytes around the page boundary are committed, and a 16-bit read there misses the
second. -/
theorem not_bytewise_neighbourSpace :
    (∀ i < 2, (neighbourSpace.aliases (hiWord (0x10000000fff + i))).any
      (·.backs (loWord (0x10000000fff + i))) = true) ∧
    (memoryRead (defaultLayout true) neighbourSpace 0x10000000fff 2).1 = [0, 0] ∧
    (readEach (defaultLayout true) neighbourSpace 0x10000000fff 2).1 = [0, 1] ∧
    ¬ Bytewise (defaultLayout true) neighbourSpace 0x10000000fff 2 := by
  refine ⟨by decide +kernel, by decide +kernel, by decide +kernel, not_bytewise_of_read ?_⟩
  decide +kernel

end Lunaria
