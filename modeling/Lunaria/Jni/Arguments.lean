/-
# The arguments of a JNI call, as the guest's call standard lays them out

A value of a JNI type, its form after the default promotions of a variadic call,
and where the guest leaves it for each of the three entries on both ABIs. The
layout is a relation between the argument list and what the guest's own loads
and registers show, and says nothing of the marshaller.
-/

import Lunaria.Jni.Marshal
import Lunaria.Lib.Variadic
import Lunaria.Space.Resolve

namespace Lunaria.Jni

open Lib Lib.Variadic

/-! ## Values -/

/-- What the marshaller can tell apart: a primitive type, or a reference. -/
inductive Kind
  | prim (p : Prim)
  | reference
  deriving DecidableEq, Repr

def JType.kind : JType → Kind
  | .prim p => .prim p
  | .object _ => .reference
  | .array _ => .reference

/-- The bits of a value. A reference is a handle of the runtime, which is a 32-bit
number on both ABIs. -/
def Kind.bits : Kind → Nat
  | .prim .boolean => 8
  | .prim .byte => 8
  | .prim .char => 16
  | .prim .short => 16
  | .prim .int => 32
  | .prim .long => 64
  | .prim .float => 32
  | .prim .double => 64
  | .reference => 32

/-- An argument: floating values are given by their bits. -/
structure Arg where
  kind : Kind
  val : Nat
  lt : val < 2 ^ kind.bits

/-- The bits of the double equal to a float. A signalling NaN becomes quiet. -/
def floatToDouble (w : Nat) : Nat :=
  let sign := w / 2 ^ 31
  let exp := w / 2 ^ 23 % 2 ^ 8
  let frac := w % 2 ^ 23
  sign * 2 ^ 63 +
    if exp = 255 then 0x7ff * 2 ^ 52 + (if frac = 0 then 0 else (frac ||| 2 ^ 22)) * 2 ^ 29
    else if exp ≠ 0 then (exp + 896) * 2 ^ 52 + frac * 2 ^ 29
    else if frac = 0 then 0
    else (frac.log2 + 874) * 2 ^ 52 + (frac - 2 ^ frac.log2) * 2 ^ (52 - frac.log2)

/-- Sign extension of a `w`-bit number to 32 bits. -/
def signExtend (w v : Nat) : Nat := if v < 2 ^ (w - 1) then v else v + (2 ^ 32 - 2 ^ w)

namespace Kind

/-- The default argument promotions: small integers become `int`, and a float
becomes a double. -/
def promote : Kind → Nat → Nat
  | .prim .byte, v => signExtend 8 v
  | .prim .short, v => signExtend 16 v
  | .prim .float, v => floatToDouble v
  | _, v => v

/-- The class of a promoted value. -/
def cls : Kind → ArgClass
  | .prim .long => .wide
  | .prim .float => .floating
  | .prim .double => .floating
  | _ => .word

/-- Bytes of a promoted value that a 64-bit slot defines: an `int` leaves its
upper half open. -/
def slotBytes : Kind → Nat
  | .prim .long => 8
  | .prim .float => 8
  | .prim .double => 8
  | .reference => 8
  | _ => 4

/-- Bytes of the member of a guest `jvalue`. -/
def unionBytes (arm64 : Bool) : Kind → Nat
  | .prim .boolean => 1
  | .prim .byte => 1
  | .prim .char => 2
  | .prim .short => 2
  | .prim .int => 4
  | .prim .float => 4
  | .prim .long => 8
  | .prim .double => 8
  | .reference => if arm64 then 8 else 4

/-- The member of a host `jvalue`; a host reference is 64 bits wide. -/
def member : Kind → Nat → Nat
  | .reference, union => union % 2 ^ 64
  | k, union => union % 2 ^ k.bits

end Kind

def Arg.cls (a : Arg) : ArgClass := a.kind.cls

/-- **The array holds exactly the arguments, in order.** -/
def Carried (args : List Arg) (out : List Nat) : Prop :=
  List.Forall₂ (fun (a : Arg) union => a.kind.member union = a.val) args out

/-! ## Layouts -/

/-- What the guest shows on entry: memory, core registers, low halves of vector registers, stack
pointer. -/
structure Frame where
  space : AddressSpace
  x : Nat → Nat
  v : Nat → Nat
  sp : Nat

/-- The memory the guest's loads see. -/
def Frame.guest (L : Layout) (f : Frame) : ByteMemory := fun va => (guestLoad L f.space va).1

/-- A `va_list` of the 64-bit standard: `left` registers of either bank are still
to be fetched, from below the two tops. -/
structure VaList where
  stack : Nat
  grTop : Nat
  vrTop : Nat
  grLeft : Nat
  vrLeft : Nat

/-- Where the call leaves its arguments; `upper` stands above an `int` in A64 registers, which the
standard leaves open. -/
inductive Ground
  | varargs (sp : Nat) (upper : Nat → Nat)
  | vaList (list : Nat) (va : VaList)
  | jvalues (array : Nat)

def Ground.variant : Ground → Variant
  | .varargs _ _ => .varargs
  | .vaList _ _ => .vaList
  | .jvalues _ => .jvalues

/-- The arguments stand in the 32-bit stream that begins at `start`. -/
def InStream (cell : Nat → Nat → Nat) (start : Nat) (args : List Arg) : Prop :=
  ∀ (j : Nat) (a : Arg) p, args[j]? = some a → (places32 start (args.map Arg.cls))[j]? = some p →
    cell p a.kind.cls.size32 = a.kind.promote a.val

/-- The arguments stand in `G` general registers, `V` vector registers and the
stack. -/
def InBanks (cell : Place → Nat → Nat) (G V : Nat) (args : List Arg) : Prop :=
  ∀ (j : Nat) (a : Arg) p, args[j]? = some a →
    (places64 G V (usedBy G 0) (args.map Arg.cls))[j]? = some p →
    cell p a.kind.slotBytes = a.kind.promote a.val

namespace Frame

variable (L : Layout) (f : Frame)

/-- The stream of an A32 call: `r3`, then the stack. `r3` counts as the word in front of the aligned
stack. -/
def cell32 (sp p width : Nat) : Nat := if p = sp - 4 then f.x 3 else (f.guest L).readLE p width

/-- The banks of an A64 call: three registers hold the named arguments. -/
def cell64 (sp : Nat) : Place → Nat → Nat
  | .gr i, width => f.x (3 + i) % 256 ^ width
  | .vr i, width => f.v i % 256 ^ width
  | .stack i, width => (f.guest L).readLE (sp + 8 * i) width

/-- The banks behind a `va_list`: the save areas end at their tops. -/
def listCell (va : VaList) : Place → Nat → Nat
  | .gr i, width => (f.guest L).readLE (va.grTop - 8 * va.grLeft + 8 * i) width
  | .vr i, width => (f.guest L).readLE (va.vrTop - 16 * va.vrLeft + 16 * i) width
  | .stack i, width => (f.guest L).readLE (va.stack + 8 * i) width

/-- Above every `int` in a register stands what the ground says. -/
def UpperHalves (upper : Nat → Nat) (args : List Arg) : Prop :=
  ∀ (j : Nat) (a : Arg) i, args[j]? = some a →
    (places64 5 8 (usedBy 5 0) (args.map Arg.cls))[j]? = some (.gr i) →
    a.kind.slotBytes = 4 → f.x (3 + i) / 2 ^ 32 = upper i

/-- The fields of a `va_list` in memory. -/
def HoldsList (list : Nat) (va : VaList) : Prop :=
  (f.guest L).readLE list 8 = va.stack ∧ (f.guest L).readLE (list + 8) 8 = va.grTop ∧
    (f.guest L).readLE (list + 16) 8 = va.vrTop ∧
    int32 ((f.guest L).readLE (list + 24) 4) = -(8 * va.grLeft) ∧
    int32 ((f.guest L).readLE (list + 28) 4) = -(16 * va.vrLeft)

/-- **The guest has laid the arguments out** by its call standard. On A32 a `va_list` is the address
of the next one. -/
def LaidOut (g : Ground) (args : List Arg) : Prop :=
  match g, L.isArm64 with
  | .varargs sp _, false => f.sp = sp ∧ InStream (f.cell32 L sp) (sp - 4) args
  | .varargs sp upper, true =>
    f.sp = sp ∧ InBanks (f.cell64 L sp) 5 8 args ∧ f.UpperHalves upper args
  | .vaList ap _, false => f.x 3 = ap ∧ InStream (f.guest L).readLE ap args
  | .vaList list va, true =>
    f.x 3 = list ∧ f.HoldsList L list va ∧ InBanks (f.listCell L va) va.grLeft va.vrLeft args
  | .jvalues array, arm64 =>
    f.x 3 = array ∧ ∀ (j : Nat) (a : Arg), args[j]? = some a →
      (f.guest L).readLE (array + 8 * j) (a.kind.unionBytes arm64) = a.val

end Frame

end Lunaria.Jni
