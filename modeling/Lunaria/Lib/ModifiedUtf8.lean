/-
# Modified UTF-8

The encoding of UTF-16 code units that class files and JNI use. Every unit is encoded on its own, a
surrogate like any other unit, and the null unit takes two bytes, so an encoding never contains the
zero byte and can be passed as a C string.
-/

import Mathlib.Data.List.TakeWhile
import Mathlib.Tactic.Common

namespace Lunaria.Lib.ModifiedUtf8

open List

/-- The bytes of a code unit. -/
def encodeUnit (c : UInt16) : List UInt8 :=
  if c = 0 then [0xC0, 0x80]
  else if c.toNat < 0x80 then [UInt8.ofNat c.toNat]
  else if c.toNat < 0x800 then
    [UInt8.ofNat (0xC0 + c.toNat / 64), UInt8.ofNat (0x80 + c.toNat % 64)]
  else
    [UInt8.ofNat (0xE0 + c.toNat / 4096), UInt8.ofNat (0x80 + c.toNat / 64 % 64),
      UInt8.ofNat (0x80 + c.toNat % 64)]

def encode (s : List UInt16) : List UInt8 := s.flatMap encodeUnit

theorem encode_cons (c : UInt16) (s : List UInt16) : encode (c :: s) = encodeUnit c ++ encode s :=
  rfl

theorem encode_append (s t : List UInt16) : encode (s ++ t) = encode s ++ encode t :=
  flatMap_append

theorem ofNat_ne_zero {n : Nat} (hpos : 0 < n) (hlt : n < 256) : UInt8.ofNat n ≠ 0 := by
  intro h
  have hn : (UInt8.ofNat n).toNat = 0 := by rw [h]; rfl
  rw [UInt8.toNat_ofNat'] at hn
  omega

theorem ne_zero_of_mem_encodeUnit {c : UInt16} {b : UInt8} (h : b ∈ encodeUnit c) : b ≠ 0 := by
  have hc : c.toNat < 65536 := c.toNat_lt
  rw [encodeUnit] at h
  split at h
  · simp only [mem_cons, not_mem_nil, or_false] at h
    rcases h with rfl | rfl
    · decide
    · decide
  rename_i hne
  have hpos : 0 < c.toNat := Nat.pos_of_ne_zero fun hzero => hne (UInt16.toNat_inj.mp hzero)
  split at h
  · rw [mem_singleton.mp h]
    exact ofNat_ne_zero hpos (by omega)
  split at h
  · simp only [mem_cons, not_mem_nil, or_false] at h
    rcases h with rfl | rfl
    · exact ofNat_ne_zero (by omega) (by omega)
    · exact ofNat_ne_zero (by omega) (by omega)
  · simp only [mem_cons, not_mem_nil, or_false] at h
    rcases h with rfl | rfl | rfl
    · exact ofNat_ne_zero (by omega) (by omega)
    · exact ofNat_ne_zero (by omega) (by omega)
    · exact ofNat_ne_zero (by omega) (by omega)

theorem encodeUnit_ne_nil (c : UInt16) : encodeUnit c ≠ [] := by
  rw [encodeUnit]
  split_ifs <;> exact cons_ne_nil _ _

variable {s : List UInt16}

/-- No byte of an encoding is zero. -/
theorem ne_zero_of_mem_encode {b : UInt8} (h : b ∈ encode s) : b ≠ 0 := by
  obtain ⟨c, -, hb⟩ := mem_flatMap.mp h
  exact ne_zero_of_mem_encodeUnit hb

theorem encode_eq_nil : encode s = [] ↔ s = [] := by
  cases s with
  | nil => exact iff_of_true rfl rfl
  | cons c s =>
    rw [encode_cons, append_eq_nil_iff]
    exact iff_of_false (fun h => encodeUnit_ne_nil c h.1) (cons_ne_nil c s)

theorem length_le_length_encode (s : List UInt16) : s.length ≤ (encode s).length := by
  induction s with
  | nil => exact le_rfl
  | cons c s ih =>
    have hpos := length_pos_iff.mpr (encodeUnit_ne_nil c)
    rw [encode_cons, length_cons, length_append]
    omega

/-- The encoding up to the first null unit is shorter, if there is one. -/
theorem length_encode_takeWhile_lt (h : 0 ∈ s) :
    (encode (s.takeWhile (· ≠ 0))).length < (encode s).length := by
  have hsplit := takeWhile_append_dropWhile (p := (· ≠ (0 : UInt16))) (l := s)
  have hrest : s.dropWhile (· ≠ 0) ≠ [] := by
    intro hnil
    rw [dropWhile_eq_nil_iff] at hnil
    simpa using hnil 0 h
  have hpos : 0 < (encode (s.dropWhile (· ≠ 0))).length :=
    length_pos_iff.mpr fun hnil => hrest (encode_eq_nil.mp hnil)
  calc (encode (s.takeWhile (· ≠ 0))).length
      < (encode (s.takeWhile (· ≠ 0))).length + (encode (s.dropWhile (· ≠ 0))).length := by omega
    _ = (encode s).length := by rw [← length_append, ← encode_append, hsplit]

end Lunaria.Lib.ModifiedUtf8
