/-
# JNI method signatures and the walk over them

A well-formed signature is `(`, the field descriptors of the parameters, `)` and
the descriptor of the result. `jni_sig_nargs` counts the parameters by walking a
pointer over the text, and `jni_marshal_jvalues` walks it once more to find the
type letter of each one. The walk is modelled on the bytes of any text; on a
well-formed signature it visits the parameters one by one.
-/

import Lunaria.Elf.Format

namespace Lunaria.Jni

open Elf List

inductive Prim
  | boolean
  | byte
  | char
  | short
  | int
  | long
  | float
  | double
  deriving DecidableEq, Repr

def Prim.letter : Prim → UInt8
  | .boolean => 90 -- Z
  | .byte => 66 -- B
  | .char => 67 -- C
  | .short => 83 -- S
  | .int => 73 -- I
  | .long => 74 -- J
  | .float => 70 -- F
  | .double => 68 -- D

/-- A class name in a descriptor: it holds no `;`, and like any C string no NUL. -/
structure ClassName where
  bytes : CStr
  no_semicolon : 59 ∉ bytes
  no_nul : 0 ∉ bytes

/-- The type of a parameter or a result. -/
inductive JType
  | prim (p : Prim)
  | object (name : ClassName)
  | array (elem : JType)

def JType.descriptor : JType → CStr
  | .prim p => [p.letter]
  | .object name => 76 :: name.bytes ++ [59]
  | .array elem => 91 :: elem.descriptor

/-- A method signature; the result is absent for `void`. -/
structure Signature where
  params : List JType
  result : Option JType

variable (t : JType) (sig : Signature)

/-- The descriptor of the result: `V` when there is none. -/
def Signature.resultText : CStr :=
  match sig.result with
  | some t => t.descriptor
  | none => [86]

def Signature.text : CStr :=
  40 :: (sig.params.flatMap JType.descriptor ++ 41 :: sig.resultText)

/-! ## The walk -/

/-- `while (*p && *p != ';') ++p; if (*p == ';') ++p;` -/
def skipClass (p : CStr) : CStr := (p.dropWhile (· != 59)).tail

/-- One parameter further. The end of the list is the terminating NUL. -/
def skipParam : CStr → CStr
  | [] => []
  | c :: p =>
    if c = 76 then skipClass (c :: p)
    else if c = 91 then
      let q := (c :: p).dropWhile (· == 91)
      if q.head? = some 76 then skipClass q else q.tail
    else p

/-- The loop of `jni_sig_nargs`; every round moves `p`, so the length of the text
bounds the rounds. -/
def countParams : Nat → CStr → Nat
  | 0, _ => 0
  | fuel + 1, p =>
    match p with
    | [] => 0
    | c :: _ => if c = 41 then 0 else countParams fuel (skipParam p) + 1

/-- `jni_sig_nargs`. A null pointer is `none`. -/
def jniSigNargs : Option CStr → Nat
  | some (c :: p) => if c = 40 then countParams p.length p else 0
  | _ => 0

/-- The loop of `sig_argc`, which passes over the brackets one round at a time. -/
def countArgs : Nat → CStr → Nat
  | fuel + 1, c :: p =>
    if c = 41 then 0
    else if c = 91 then countArgs fuel p
    else if c = 76 then countArgs fuel (skipClass (c :: p)) + 1
    else countArgs fuel p + 1
  | _, _ => 0

/-- `sig_argc`: it looks for the first `(`. -/
def sigArgc : Option CStr → Int
  | none => -1
  | some sig => let p := (sig.dropWhile (· != 40)).tail; countArgs p.length p

/-- `kind` of `jni_marshal_jvalues` at the text `p`. -/
def kindAt : CStr → UInt8
  | [] => 76
  | c :: _ => if c = 41 then 76 else if c = 91 then 76 else c

/-- `p` after the parameter whose kind was read. -/
def afterKind : CStr → CStr
  | [] => []
  | c :: p => if c = 41 then c :: p else skipParam (c :: p)

/-! ## The walk on a well-formed signature -/

/-- The letter the marshaller goes by: arrays count as objects. -/
def JType.letter : JType → UInt8
  | .prim p => p.letter
  | .object _ => 76
  | .array _ => 76

theorem skipClass_object (name : ClassName) (rest : CStr) :
    skipClass (76 :: name.bytes ++ 59 :: rest) = rest := by
  have hne : ∀ b ∈ 76 :: name.bytes, (b != 59) := by
    intro b hb
    rcases mem_cons.mp hb with rfl | hb
    · decide
    · exact bne_iff_ne.mpr fun h => name.no_semicolon (h ▸ hb)
  rw [skipClass, dropWhile_append_of_pos hne]
  rfl

theorem exists_descriptor_cons : ∃ c p, t.descriptor = c :: p ∧ c ≠ 41 := by
  cases t with
  | prim p => exact ⟨p.letter, [], rfl, by cases p <;> decide⟩
  | object name => exact ⟨76, name.bytes ++ [59], rfl, by decide⟩
  | array elem => exact ⟨91, elem.descriptor, rfl, by decide⟩

variable (params : List JType) (rest : CStr)

theorem skipParam_descriptor : skipParam (t.descriptor ++ rest) = rest := by
  induction t with
  | prim p => cases p <;> simp [JType.descriptor, Prim.letter, skipParam]
  | object name =>
    have hskip := skipClass_object name rest
    simp only [cons_append] at hskip
    simp [JType.descriptor, skipParam, hskip]
  | array elem ih =>
    cases elem with
    | prim p => cases p <;> simp [JType.descriptor, Prim.letter, skipParam]
    | object name =>
      have hskip := skipClass_object name rest
      simp only [cons_append] at hskip
      simp [JType.descriptor, skipParam, hskip]
    | array elem => simpa [JType.descriptor, skipParam] using ih

theorem kindAt_descriptor : kindAt (t.descriptor ++ rest) = t.letter := by
  cases t with
  | prim p => cases p <;> rfl
  | object _ | array _ => rfl

theorem afterKind_descriptor : afterKind (t.descriptor ++ rest) = rest := by
  have hskip := skipParam_descriptor t rest
  cases t with
  | prim p => cases p <;> exact hskip
  | object _ | array _ => exact hskip

theorem countParams_params {fuel : Nat} (hfuel : params.length < fuel) :
    countParams fuel (params.flatMap JType.descriptor ++ 41 :: rest) = params.length := by
  induction params generalizing fuel with
  | nil =>
    cases fuel with
    | zero => cases hfuel
    | succ fuel => rfl
  | cons t params ih =>
    cases fuel with
    | zero => cases hfuel
    | succ fuel =>
      have hrest := ih (Nat.lt_of_succ_lt_succ hfuel)
      have hskip := skipParam_descriptor t (params.flatMap JType.descriptor ++ 41 :: rest)
      obtain ⟨c, p, htext, hopen⟩ := exists_descriptor_cons t
      rw [htext, cons_append] at hskip
      rw [flatMap_cons, append_assoc, htext, cons_append, countParams,
        if_neg hopen, hskip, hrest, length_cons]

theorem length_le_flatMap_descriptor :
    params.length ≤ (params.flatMap JType.descriptor).length := by
  induction params with
  | nil => exact le_refl 0
  | cons t params ih =>
    obtain ⟨c, p, htext, -⟩ := exists_descriptor_cons t
    rw [flatMap_cons, length_append, htext, length_cons, length_cons]
    omega

/-- **The parameters of a well-formed signature are counted.** -/
theorem jniSigNargs_text : jniSigNargs (some sig.text) = sig.params.length := by
  have hlen := length_le_flatMap_descriptor sig.params
  apply countParams_params
  rw [length_append, length_cons]
  omega

/-- One parameter is counted once, whatever brackets it has, and the rounds left suffice for the
rest of the text. -/
theorem countArgs_descriptor {fuel : Nat} (hfuel : (t.descriptor ++ rest).length ≤ fuel) :
    ∃ left, rest.length ≤ left ∧
      countArgs fuel (t.descriptor ++ rest) = countArgs left rest + 1 := by
  induction t generalizing fuel with
  | prim p =>
    obtain ⟨left, rfl⟩ := Nat.exists_eq_add_of_le' (Nat.le_of_add_left_le hfuel)
    refine ⟨left, by simpa [JType.descriptor] using hfuel, ?_⟩
    cases p <;> simp [JType.descriptor, Prim.letter, countArgs]
  | object name =>
    obtain ⟨left, rfl⟩ := Nat.exists_eq_add_of_le' (Nat.le_of_add_left_le hfuel)
    have hskip := skipClass_object name rest
    refine ⟨left, by simp [JType.descriptor] at hfuel; omega, ?_⟩
    simp_all [JType.descriptor, countArgs]
  | array elem ih =>
    obtain ⟨left, rfl⟩ := Nat.exists_eq_add_of_le' (Nat.le_of_add_left_le hfuel)
    simpa [JType.descriptor, countArgs] using ih (by simpa [JType.descriptor] using hfuel)

theorem countArgs_params {fuel : Nat}
    (hfuel : (params.flatMap JType.descriptor ++ 41 :: rest).length ≤ fuel) :
    countArgs fuel (params.flatMap JType.descriptor ++ 41 :: rest) = params.length := by
  induction params generalizing fuel with
  | nil => cases fuel <;> rfl
  | cons t params ih =>
    rw [flatMap_cons, append_assoc] at hfuel ⊢
    obtain ⟨left, hleft, hcount⟩ := countArgs_descriptor t _ hfuel
    rw [hcount, ih hleft, length_cons]

theorem iterate_afterKind (i : Fin params.length) :
    kindAt (afterKind^[i] (params.flatMap JType.descriptor ++ rest)) = (params.get i).letter := by
  induction params with
  | nil => exact i.elim0
  | cons t params ih =>
    rw [flatMap_cons, append_assoc]
    cases i using Fin.cases with
    | zero => exact kindAt_descriptor t _
    | succ i => simpa [afterKind_descriptor] using ih i

/-- **The three walks over a signature agree.** -/
theorem scanners_agree :
    jniSigNargs (some sig.text) = sig.params.length ∧ sigArgc (some sig.text) = sig.params.length ∧
      ∀ i : Fin sig.params.length,
        kindAt (afterKind^[i] sig.text.tail) = (sig.params.get i).letter :=
  ⟨jniSigNargs_text sig, congrArg _ (countArgs_params _ _ le_rfl), iterate_afterKind _ _⟩

end Lunaria.Jni
