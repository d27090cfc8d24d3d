/-
# Marshalling the arguments of a JNI call

`jni_marshal_jvalues` turns the arguments of a `Call*Method` entry into the host
array of `jvalue` unions. The three variants of an entry find them in the
registers and on the stack, behind a `va_list` and in a guest array of unions.
The functions read the arena through 32-bit addresses and see the registers as
the SVC adapter packed them.
-/

import Lunaria.Jni.Signature
import Lunaria.Space.AddressSpace

namespace Lunaria.Jni

open Lib Elf List

/-- `variant`: `Call*Method`, `Call*MethodV`, `Call*MethodA`. -/
inductive Variant
  | varargs
  | vaList
  | jvalues
  deriving DecidableEq, Repr

/-- A 32-bit word as an `int32_t`. -/
def int32 (w : Nat) : Int := if w < 2 ^ 31 then w else (w : Int) - 2 ^ 32

/-- The loop of `a64_va_arg_u64`. `val` is what the round before found. -/
def vaWalk (m : ByteMemory) (grTop : Nat) : Nat → Int → Nat → Nat → Nat
  | 0, _, _, val => val
  | n + 1, grOffs, stack, _ =>
    if grOffs < 0 then
      vaWalk m grTop n (grOffs + 8) stack
        (m.readLE (((grTop : Int) + grOffs) % 2 ^ 32).toNat 8)
    else if stack = 0 then 0
    else vaWalk m grTop n grOffs ((stack + 8) % 2 ^ 64) (m.readLE (u32 stack) 8)

variable (arm64 : Bool) (m : ByteMemory) (regs : Nat → Nat) (variant : Variant)

/-- `a64_va_arg_u64`: the `i`-th general register argument of a `va_list`. -/
def a64VaArgU64 (vaListVa i : Nat) : Nat :=
  if vaListVa = 0 then 0
  else
    vaWalk m (m.readLE (u32 (vaListVa + 8)) 8) (i + 1)
      (int32 (m.readLE (u32 (vaListVa + 24)) 4)) (m.readLE vaListVa 8) 0

/-- `jni_arg_word`: the `i`-th 32-bit word argument. -/
def jniArgWord
    (i : Nat) : Nat :=
  match variant with
  | .varargs =>
    if arm64 then
      if i < 5 then regs (3 + i) else m.read32 (u32 (regs 13 + (i - 5) * 8))
    else if i = 0 then regs 3
    else m.read32 (u32 (regs 13 + (i - 1) * 4))
  | .jvalues => m.read32 (u32 (regs 3 + i * 8))
  | .vaList =>
    if arm64 then u32 (a64VaArgU64 m (regs 3) i) else m.read32 (u32 (regs 3 + i * 4))

/-- The bits of `out[i]`. The union was cleared, so a narrower member leaves the rest zero. -/
def jvalueAt
    (kind : UInt8) (i : Nat) : Nat :=
  if variant = .jvalues ∧ regs 3 ≠ 0 then
    let lo := m.read32 (u32 (regs 3 + i * 8))
    let hi := m.read32 (u32 (regs 3 + (i * 8 + 4)))
    if kind = 74 ∨ kind = 68 then hi * 2 ^ 32 + lo
    else if kind = 90 then lo % 256
    else lo -- `out[i].f` by `memcpy`, and `out[i].l` for everything else
  else
    let w := jniArgWord arm64 m regs variant i
    if kind = 90 then w % 256 else w

/-- The loop of `jni_marshal_jvalues`: `n` more arguments from the `i`-th on. -/
def marshalLoop (arm64 : Bool) (m : ByteMemory) (regs : Nat → Nat) (variant : Variant) :
    Nat → Nat → CStr → List Nat
  | 0, _, _ => []
  | n + 1, i, p =>
    jvalueAt arm64 m regs variant (kindAt p) i ::
      marshalLoop arm64 m regs variant n (i + 1) (afterKind p)

/-- The text behind the opening parenthesis; nothing when there is none. -/
def paramText : Option CStr → CStr
  | some (c :: p) => if c = 40 then p else []
  | _ => []

/-- `jni_marshal_jvalues` into an array of `maxn` unions: the unions it sets, as
many as it returns. -/
def jniMarshalJvalues
    (sig : Option CStr) (maxn : Nat) : List Nat :=
  marshalLoop arm64 m regs variant (min (jniSigNargs sig) maxn) 0 (paramText sig)

/-- The registers the handler sees: packed by the adapter on A64, with the stack
pointer in slot 13. -/
def svcRegs (L : Layout) (s : AddressSpace) (x : Nat → Nat) (sp : Nat) : Nat → Nat := fun r =>
  if r = 13 then (if L.isArm64 then a64CanonVa L s sp else sp) else svcArg L s (x r)

/-! ## The loop on a well-formed signature -/

section Loop

variable (arm64 : Bool) (m : ByteMemory) (regs : Nat → Nat) (variant : Variant)

theorem marshalLoop_params (params : List JType) (rest : CStr) {n i : Nat}
    (hn : n ≤ params.length) :
    marshalLoop arm64 m regs variant n i (params.flatMap JType.descriptor ++ rest) =
      ((params.take n).zipIdx i).map fun tj => jvalueAt arm64 m regs variant tj.1.letter tj.2 := by
  induction params generalizing n i with
  | nil =>
    obtain rfl : n = 0 := Nat.le_zero.mp hn
    rfl
  | cons t params ih =>
    cases n with
    | zero => rfl
    | succ n =>
      have hrest := ih (i := i + 1) (Nat.le_of_succ_le_succ hn)
      rw [flatMap_cons, append_assoc, marshalLoop, kindAt_descriptor, afterKind_descriptor, hrest]
      rfl

/-- **What is marshalled for a well-formed signature**: one union per parameter,
until the array is full. -/
theorem jniMarshalJvalues_text (sig : Signature) (maxn : Nat) :
    jniMarshalJvalues arm64 m regs variant (some sig.text) maxn =
      ((sig.params.take maxn).zipIdx).map fun tj =>
        jvalueAt arm64 m regs variant tj.1.letter tj.2 := by
  have htext : paramText (some sig.text) =
      sig.params.flatMap JType.descriptor ++ 41 :: sig.resultText := by
    rw [Signature.text, paramText, if_pos rfl]
  rw [jniMarshalJvalues, jniSigNargs_text, htext, marshalLoop_params _ _ _ _ _ _ (min_le_left ..)]
  by_cases h : sig.params.length ≤ maxn
  · rw [min_eq_left h, take_length, take_of_length_le h]
  · rw [min_eq_right (by omega)]

end Loop

end Lunaria.Jni
