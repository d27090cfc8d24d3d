/-
# Byte-addressed memory with little-endian words

The store is a total function from addresses to bytes. Words of any width are
read and written little-endian, and the bulk operations are the usual fill and
move. Every operation is described by the bytes it leaves alone and the bytes it
sets, which is the form in which the frame arguments of a development use it.
-/

import Mathlib.Tactic.Common
import Mathlib.Tactic.Ring

namespace Lunaria.Lib

open List UInt8

/-- A total byte store. -/
abbrev ByteMemory := Nat → UInt8

namespace ByteMemory

def writeByte (m : ByteMemory) (a : Nat) (v : UInt8) : ByteMemory :=
  fun x => if x = a then v else m x

/-- The `width`-byte little-endian number at `a`. -/
def readLE (m : ByteMemory) (a : Nat) : Nat → Nat
  | 0 => 0
  | width + 1 => (m a).toNat + 256 * readLE m (a + 1) width

/-- Store the low `width` bytes of `v` at `a`, least significant byte first. -/
def writeLE (m : ByteMemory) (a width v : Nat) : ByteMemory :=
  fun x => if a ≤ x ∧ x < a + width then UInt8.ofNat (v / 256 ^ (x - a)) else m x

def read32 (m : ByteMemory) (a : Nat) : Nat := m.readLE a 4

def write32 (m : ByteMemory) (a v : Nat) : ByteMemory := m.writeLE a 4 v

/-- `memset`: set `n` bytes from `a` on. -/
def fill (m : ByteMemory) (a n : Nat) (v : UInt8) : ByteMemory :=
  fun x => if a ≤ x ∧ x < a + n then v else m x

/-- `memmove`: the `n` bytes at `src`, as they were before, appear at `dst`. -/
def move (m : ByteMemory) (dst src n : Nat) : ByteMemory :=
  fun x => if dst ≤ x ∧ x < dst + n then m (src + (x - dst)) else m x

/-- `memcpy` from a buffer: the bytes appear at `a`. -/
def writeBytes (m : ByteMemory) (a : Nat) (bytes : List UInt8) : ByteMemory :=
  fun x => if a ≤ x then (bytes[x - a]?).getD (m x) else m x

def bytesAt (m : ByteMemory) (a n : Nat) : List UInt8 := (List.range n).map fun i => m (a + i)

/-- `strnlen`: the bytes in front of the first zero byte, at most the limit. -/
def strnlen (m : ByteMemory) (a : Nat) : Nat → Nat
  | 0 => 0
  | limit + 1 => if m a = 0 then 0 else strnlen m (a + 1) limit + 1

section

variable {m : ByteMemory} {a : Nat}

theorem strnlen_of_zero (h : m a = 0) (limit : Nat) : m.strnlen a limit = 0 := by
  cases limit with
  | zero => rfl
  | succ limit => rw [strnlen, if_pos h]

theorem strnlen_of_ne_zero {limit : Nat} (h : m a ≠ 0) (hlimit : 0 < limit) :
    m.strnlen a limit = m.strnlen (a + 1) (limit - 1) + 1 := by
  cases limit with
  | zero => cases hlimit
  | succ limit => rw [strnlen, if_neg h, Nat.add_sub_cancel]

/-- A C string is as long as its bytes in front of the zero byte. -/
theorem strnlen_eq {n limit : Nat} (hne : ∀ i < n, m (a + i) ≠ 0)
    (hzero : m (a + n) = 0) (hn : n ≤ limit) : m.strnlen a limit = n := by
  induction n generalizing a limit with
  | zero => exact strnlen_of_zero hzero limit
  | succ n ih =>
    have hfirst : m a ≠ 0 := hne 0 n.succ_pos
    rw [strnlen_of_ne_zero hfirst (by omega), ih]
    · intro i hi
      rw [add_assoc]
      exact hne _ (by omega)
    · rw [add_assoc, add_comm 1 n]
      exact hzero
    · omega

theorem bytesAt_eq_iff {n : Nat} {bytes : List UInt8} :
    m.bytesAt a n = bytes ↔ bytes.length = n ∧ ∀ i < n, bytes[i]? = some (m (a + i)) := by
  constructor
  · rintro rfl
    refine ⟨by simp [bytesAt], fun i hi => ?_⟩
    simp [bytesAt, hi]
  rintro ⟨hlength, hbytes⟩
  apply ext_getElem?
  intro i
  by_cases hi : i < n
  · rw [hbytes i hi]
    simp [bytesAt, hi]
  · have hbehind : (m.bytesAt a n).length ≤ i := by simpa [bytesAt] using hi
    rw [getElem?_eq_none hbehind, getElem?_eq_none (by omega)]

end

theorem writeBytes_nil (m : ByteMemory) (a : Nat) : m.writeBytes a [] = m := by
  funext x
  simp [writeBytes]

/-- A buffer is copied byte by byte. -/
theorem writeBytes_cons (m : ByteMemory) (a : Nat) (byte : UInt8) (bytes : List UInt8) :
    m.writeBytes a (byte :: bytes) = (m.writeByte a byte).writeBytes (a + 1) bytes := by
  funext x
  simp only [writeBytes, writeByte]
  rcases lt_trichotomy x a with hlt | rfl | hgt
  · rw [if_neg (by omega), if_neg (by omega), if_neg (by omega)]
  · rw [if_pos (by omega), if_neg (by omega), if_pos rfl, Nat.sub_self, getElem?_cons_zero,
      Option.getD_some]
  · rw [if_pos (by omega), if_pos (by omega), if_neg (by omega),
      show x - a = (x - (a + 1)) + 1 by omega, getElem?_cons_succ]

/-- Two stores agree on every byte outside `[lo, hi)`. -/
def AgreeOutside (m m' : ByteMemory) (lo hi : Nat) : Prop :=
  ∀ x, x < lo ∨ hi ≤ x → m' x = m x

namespace AgreeOutside

variable {m m' m'' : ByteMemory} {lo hi lo' hi' : Nat}

theorem trans (first : AgreeOutside m m' lo hi) (second : AgreeOutside m' m'' lo hi) :
    AgreeOutside m m'' lo hi :=
  fun x hx => (second x hx).trans (first x hx)

/-- A change confined to a range is confined to every larger range. -/
theorem mono (h : AgreeOutside m m' lo hi) (hlo : lo' ≤ lo) (hhi : hi ≤ hi') :
    AgreeOutside m m' lo' hi' :=
  fun x hx => h x (by omega)

end AgreeOutside

section Frames

variable (m : ByteMemory) (a n v : Nat)

theorem writeByte_agreeOutside (b : UInt8) : AgreeOutside m (m.writeByte a b) a (a + 1) := by
  intro x hx
  simp only [writeByte]
  rw [if_neg (by omega)]

theorem writeLE_agreeOutside (width : Nat) :
    AgreeOutside m (m.writeLE a width v) a (a + width) := by
  intro x hx
  simp only [writeLE]
  rw [if_neg (by omega)]

theorem write32_agreeOutside : AgreeOutside m (m.write32 a v) a (a + 4) :=
  writeLE_agreeOutside m a v 4

theorem fill_agreeOutside (b : UInt8) : AgreeOutside m (m.fill a n b) a (a + n) := by
  intro x hx
  simp only [fill]
  rw [if_neg (by omega)]

theorem writeBytes_agreeOutside (bytes : List UInt8) :
    AgreeOutside m (m.writeBytes a bytes) a (a + bytes.length) := by
  intro x hx
  simp only [writeBytes]
  split
  · rw [getElem?_eq_none (by omega), Option.getD_none]
  · rfl

theorem move_agreeOutside (src : Nat) : AgreeOutside m (m.move a src n) a (a + n) := by
  intro x hx
  simp only [move]
  rw [if_neg (by omega)]

end Frames

section

variable (m : ByteMemory) (a width : Nat)

theorem readLE_lt : m.readLE a width < 256 ^ width := by
  induction width generalizing a with
  | zero => exact one_pos
  | succ width ih =>
    have hbyte : (m a).toNat < 256 := (m a).toNat_lt
    have hrest := ih (a + 1)
    rw [readLE]
    omega

/-- A long word is its low part and, above it, the rest. -/
theorem readLE_add (rest : Nat) :
    m.readLE a (width + rest) = m.readLE a width + 256 ^ width * m.readLE (a + width) rest := by
  induction width generalizing a with
  | zero => simp [readLE]
  | succ width ih =>
    rw [show width + 1 + rest = (width + rest) + 1 by omega, readLE, ih, readLE,
      show a + 1 + width = a + (width + 1) by omega]
    ring

/-- A narrower read at the same place is the remainder. -/
theorem readLE_mod (rest : Nat) : m.readLE a (width + rest) % 256 ^ width = m.readLE a width := by
  rw [readLE_add, Nat.add_mul_mod_self_left, Nat.mod_eq_of_lt (readLE_lt m a width)]

end

variable {m m' : ByteMemory}

variable {a width : Nat}

/-- Reading depends only on the bytes read. -/
theorem readLE_congr
    (h : ∀ x, a ≤ x → x < a + width → m' x = m x) : m'.readLE a width = m.readLE a width := by
  induction width generalizing a with
  | zero => rfl
  | succ width ih =>
    rw [readLE, readLE, h a (by omega) (by omega), ih fun x hlo hhi => h x (by omega) (by omega)]

/-- Two stores that hold the same bytes at two places read the same word there. -/
theorem readLE_shift {b : Nat}
    (h : ∀ i < width, m' (a + i) = m (b + i)) : m'.readLE a width = m.readLE b width := by
  induction width generalizing a b with
  | zero => rfl
  | succ width ih =>
    have hrest := ih (a := a + 1) (b := b + 1) fun i hi => by
      have hnext := h (i + 1) (by omega)
      rwa [add_right_comm a, add_right_comm b]
    rw [readLE, hrest]
    exact congrArg (fun v : UInt8 => v.toNat + 256 * m.readLE _ width) (h 0 (by omega))

/-- A word that lies outside the changed range is unchanged. -/
theorem AgreeOutside.readLE_eq {lo hi : Nat}
    (h : AgreeOutside m m' lo hi) (hout : a + width ≤ lo ∨ hi ≤ a) :
    m'.readLE a width = m.readLE a width :=
  readLE_congr fun x hlo hhi => h x (by omega)

theorem AgreeOutside.read32_eq {lo hi : Nat}
    (h : AgreeOutside m m' lo hi) (hout : a + 4 ≤ lo ∨ hi ≤ a) : m'.read32 a = m.read32 a :=
  h.readLE_eq hout

section

variable (m : ByteMemory)

/-- What was written is what is read, up to the width of the word. -/
theorem readLE_writeLE (a width v : Nat) :
    (m.writeLE a width v).readLE a width = v % 256 ^ width := by
  induction width generalizing a v m with
  | zero => simp [readLE, Nat.mod_one]
  | succ width ih =>
    have hhead : (m.writeLE a (width + 1) v) a = UInt8.ofNat v := by simp [writeLE]
    have htail : (m.writeLE a (width + 1) v).readLE (a + 1) width =
        (m.writeLE (a + 1) width (v / 256)).readLE (a + 1) width := by
      apply readLE_congr
      intro x hlo hhi
      simp only [writeLE]
      rw [if_pos (by omega), if_pos (by omega), Nat.div_div_eq_div_mul,
        show x - a = (x - (a + 1)) + 1 by omega, pow_succ']
    have hbyte : (UInt8.ofNat v).toNat = v % 256 := toNat_ofNat'
    rw [readLE, hhead, htail, ih, hbyte, show 256 ^ (width + 1) = 256 * 256 ^ width by ring,
      Nat.mod_mul]

/-- The low part of what was written. -/
theorem readLE_writeLE_le (a v : Nat) {width' : Nat} (h : width' ≤ width) :
    (m.writeLE a width v).readLE a width' = v % 256 ^ width' := by
  have hmod := (m.writeLE a width v).readLE_mod a width' (width - width')
  rw [Nat.add_sub_cancel' h, readLE_writeLE] at hmod
  rw [← hmod, Nat.mod_mod_of_dvd _ (pow_dvd_pow 256 h)]

theorem readLE_writeLE_of_disjoint (v : Nat) {b width' : Nat} (h : b + width' ≤ a ∨ a + width ≤ b) :
    (m.writeLE a width v).readLE b width' = m.readLE b width' :=
  (writeLE_agreeOutside m a v width).readLE_eq h

/-- Only the low bytes of a value are stored. -/
theorem writeLE_congr (a : Nat) {v v' : Nat}
    (h : v % 256 ^ width = v' % 256 ^ width) : m.writeLE a width v = m.writeLE a width v' := by
  funext x
  simp only [writeLE]
  split
  · have hdigit (w : Nat) :
        UInt8.ofNat (w / 256 ^ (x - a)) = UInt8.ofNat (w % 256 ^ width / 256 ^ (x - a)) := by
      apply UInt8.toNat_inj.mp
      have hpow : 256 ^ width = 256 ^ (x - a) * (256 * 256 ^ (width - (x - a) - 1)) := by
        rw [← pow_succ', ← pow_add]
        congr 1
        omega
      rw [toNat_ofNat', toNat_ofNat', hpow, Nat.mod_mul_right_div_self, Nat.mod_mul_right_mod]
    rw [hdigit v, hdigit v', h]
  · rfl

/-- Storing what is there changes nothing. -/
theorem writeLE_readLE (a width : Nat) : m.writeLE a width (m.readLE a width) = m := by
  funext x
  simp only [writeLE]
  split
  · obtain ⟨k, rfl⟩ : ∃ k, x = a + k := ⟨x - a, by omega⟩
    have hsplit := m.readLE_add a k (width - k)
    rw [Nat.add_sub_cancel' (by omega)] at hsplit
    obtain ⟨rest, hrest⟩ : ∃ rest, width - k = rest + 1 := ⟨width - k - 1, by omega⟩
    rw [hsplit, hrest, readLE, Nat.add_sub_cancel_left,
      Nat.add_mul_div_left _ _ (Nat.pow_pos (by norm_num)),
      Nat.div_eq_of_lt (readLE_lt m a k), zero_add]
    apply UInt8.toNat_inj.mp
    rw [toNat_ofNat', Nat.add_mul_mod_self_left]
    exact Nat.mod_eq_of_lt (m _).toNat_lt
  · rfl

theorem readLE_writeBytes_of_disjoint {b : Nat} {bytes : List UInt8}
    (h : b + width ≤ a ∨ a + bytes.length ≤ b) :
    (m.writeBytes a bytes).readLE b width = m.readLE b width :=
  (writeBytes_agreeOutside m a bytes).readLE_eq h

end

theorem readLE_zero (a width : Nat) : readLE (fun _ => 0) a width = 0 := by
  induction width generalizing a with
  | zero => rfl
  | succ width ih => rw [readLE, ih]; rfl

theorem read32_write32 (m : ByteMemory) (a v : Nat) (hv : v < 2 ^ 32) :
    (m.write32 a v).read32 a = v := by
  rw [read32, write32, readLE_writeLE]
  exact Nat.mod_eq_of_lt (by norm_num at hv ⊢; exact hv)

theorem read32_write32_of_disjoint (m : ByteMemory) (a b v : Nat)
    (h : b + 4 ≤ a ∨ a + 4 ≤ b) : (m.write32 a v).read32 b = m.read32 b :=
  (write32_agreeOutside m a v).read32_eq h

end ByteMemory

end Lunaria.Lib
