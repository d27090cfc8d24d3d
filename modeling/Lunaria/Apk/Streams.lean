/-
# Calls on an asset's stream

The overloads of `read`, `skip` and `available` share the cursor of one `InputStream`. What they
deliver and skip is taken here from what the caller sees, the answer and the array, and is laid
against the asset.
-/

import Lunaria.Apk.Assets
import Lunaria.Jni.Marshal
import Lunaria.Lib.Run

namespace Lunaria.Apk

open Lib Jni List

/-- A `byte[]`, whose length is a `jsize`. -/
structure JavaBytes where
  bytes : List UInt8
  bound : bytes.length < 2 ^ 31

/-- A call on a stream. `read(byte[])` has no range. -/
inductive StreamCall
  | next
  | read (array : JavaBytes) (range : Option (UInt32 × UInt32))
  | skip (want : UInt32)
  | available

/-- Offset and length of the part to fill, cut to the array. -/
def JavaBytes.part (array : JavaBytes) : Option (UInt32 × UInt32) → Nat × Nat
  | none => (0, array.bytes.length)
  | some (off, len) =>
    let off := min off.toNat array.bytes.length
    (off, min len.toNat (array.bytes.length - off))

/-- `(uint32_t)-1`. -/
def endOfStream : Nat := 2 ^ 32 - 1

def Stream.left (s : Stream) : List UInt8 := s.data.drop s.pos

/-- The word in `regs[0]`, and the array afterwards. -/
def Stream.call (s : Stream) : StreamCall → (Nat × List UInt8) × Stream
  | .next =>
    match s.left with
    | [] => ((endOfStream, []), s)
    | b :: _ => ((b.toNat, []), { s with pos := s.pos + 1 })
  | .read array range =>
    let (off, len) := array.part range
    if len = 0 then ((0, array.bytes), s)
    else if s.left = [] then ((endOfStream, array.bytes), s)
    else
      let (bytes, s) := s.read len
      ((bytes.length, array.bytes.take off ++ bytes ++ array.bytes.drop (off + bytes.length)), s)
  | .skip want =>
    let n := min want.toNat s.left.length
    ((n, []), { s with pos := s.pos + n })
  | .available => ((s.left.length % 2 ^ 32, []), s)

/-- What a call took from the stream. -/
inductive Piece
  | delivered (bytes : List UInt8)
  | skipped (n : Nat)

/-- As the caller finds it in the answer. -/
def StreamCall.piece (answer : Nat × List UInt8) : StreamCall → Piece
  | .next => .delivered (if answer.1 = endOfStream then [] else [UInt8.ofNat answer.1])
  | .read array range => .delivered
      ((answer.2.drop (array.part range).1).take (if answer.1 = endOfStream then 0 else answer.1))
  | .skip _ => .skipped answer.1
  | .available => .delivered []

/-- The asset behind a piece it begins with. -/
def Piece.cut (asset : List UInt8) : Piece → Option (List UInt8)
  | .delivered bytes => if bytes <+: asset then some (asset.drop bytes.length) else none
  | .skipped n => if n ≤ asset.length then some (asset.drop n) else none

/-- A call, with its piece behind the earlier ones. -/
def Stream.record (r : List Piece × Stream) (c : StreamCall) : List Piece × Stream :=
  (r.1 ++ [c.piece (r.2.call c).1], (r.2.call c).2)

/-! ## The law -/

theorem JavaBytes.part_le (array : JavaBytes) (range : Option (UInt32 × UInt32)) :
    (array.part range).1 + (array.part range).2 ≤ array.bytes.length := by
  cases range with
  | none => simp [part]
  | some r => simp only [part]; omega

/-- A request that is not empty is answered `-1` at the end only. -/
def EndsWith (left : List UInt8) (word : Nat) : StreamCall → Prop
  | .next => word = endOfStream ↔ left = []
  | .read array range => (array.part range).2 ≠ 0 → (word = endOfStream ↔ left = [])
  | _ => True

/-- **What a call takes is what its stream then lacks.** -/
theorem Stream.call_spec (s : Stream) (c : StreamCall) :
    (c.piece (s.call c).1).cut s.left = some (s.call c).2.left ∧
      EndsWith s.left (s.call c).1.1 c := by
  cases c with
  | next =>
    cases hleft : s.left with
    | nil => simp [call, hleft, StreamCall.piece, Piece.cut, EndsWith]
    | cons b rest =>
      have hb : b.toNat ≠ endOfStream := ne_of_lt (b.toNat_lt.trans (by decide))
      have hrest : s.data.drop (s.pos + 1) = rest := by
        rw [← drop_drop, ← left, hleft, drop_one, tail_cons]
      simp only [call, hleft, StreamCall.piece]
      simp [Piece.cut, EndsWith, left, hrest, hb]
  | read array range =>
    have hpart := array.part_le range
    simp only [call, StreamCall.piece, EndsWith]
    by_cases hlen : (array.part range).2 = 0
    · simp [hlen, Piece.cut]
    by_cases hleft : s.left = []
    · simp [hlen, hleft, Piece.cut]
    have hoff : (array.bytes.take (array.part range).1).length = (array.part range).1 := by
      rw [length_take]
      omega
    -- the word of a `read` that delivers is not `-1`
    have hne : (s.read (array.part range).2).1.length ≠ endOfStream := by
      have hbound := array.bound
      rw [read, length_take, endOfStream]
      omega
    simp only [if_neg hlen, if_neg hleft, if_neg hne, append_assoc]
    refine ⟨?_, fun _ => iff_of_false hne hleft⟩
    have hfront : (s.read (array.part range).2).1 <+: s.left := take_prefix ..
    rw [drop_left' hoff, take_left' rfl, Piece.cut, if_pos hfront]
    simp [left, read]
  | skip want => simp [call, StreamCall.piece, Piece.cut, EndsWith, left]
  | available => simp [call, StreamCall.piece, Piece.cut, EndsWith]

/-- **The law of a stream.** The pieces of the calls make up the front of the asset, a request
behind its end is answered `-1`, and `available` has the low 32 bits of what is left. -/
theorem stream_law (asset : List UInt8) (calls : List StreamCall) :
    let r := run Stream.record ([], ⟨asset, 0⟩) calls
    ∃ left, r.1.foldlM Piece.cut asset = some left ∧
      (∀ c, EndsWith left (r.2.call c).1.1 c) ∧
      (r.2.call .available).1.1 = left.length % 2 ^ 32 ∧
      (left.length < 2 ^ 31 → int32 (r.2.call .available).1.1 = left.length) := by
  intro r
  have hcut : r.1.foldlM Piece.cut asset = some r.2.left := by
    refine run_always (fun (r : List Piece × Stream) c
      (h : r.1.foldlM Piece.cut asset = some r.2.left) => ?_) rfl calls
    simp [Stream.record, h, (r.2.call_spec c).1]
  refine ⟨r.2.left, hcut, fun c => (r.2.call_spec c).2, rfl, fun hleft => ?_⟩
  have hword : r.2.left.length % 2 ^ 32 = r.2.left.length := Nat.mod_eq_of_lt (by omega)
  simp only [Stream.call, hword, int32, if_pos hleft]

/-- Of an asset of 2 GiB `available` tells a negative number. -/
theorem stream_available_negative :
    ∃ asset : List UInt8, ¬ ∃ left, ([] : List Piece).foldlM Piece.cut asset = some left ∧
      int32 ((⟨asset, 0⟩ : Stream).call .available).1.1 = left.length := by
  refine ⟨replicate (2 ^ 31) 0, ?_⟩
  rintro ⟨left, hleft, h⟩
  obtain rfl : replicate (2 ^ 31) 0 = left := Option.some.inj hleft
  simp only [Stream.call, Stream.left, drop_zero, length_replicate] at h
  exact absurd h (by decide)

end Lunaria.Apk
