/-
# The object table of the pseudo-JVM

Every Java object the guest knows is an entry of one table, and its handle is the place of the
entry plus one. Classes, methods, strings, opaque objects and arrays are all interned: before an
entry is added the table is searched for one of the same type with the same contents. Entries are
never removed. All of them are constant except the arrays, whose contents change.

A call that fails an assertion, or whose behaviour C leaves undefined, has no outcome.
-/

import Lunaria.Elf.Format
import Lunaria.Lib.Intern

namespace Lunaria.Jvm

open Lib Elf List Option

/-- `jvm_array`: the data has `size * element_sz` bytes. -/
structure JArray where
  size : Nat
  elementSz : Nat
  data : List UInt8
  length_data : data.length = size * elementSz
  deriving DecidableEq

/-- `calloc(size, element_sz)`. -/
def JArray.zero (size elementSz : Nat) : JArray :=
  ⟨size, elementSz, List.replicate (size * elementSz) 0, List.length_replicate⟩

/-- The data with some bytes overwritten. -/
def JArray.write (a : JArray) (offset : Nat) (bytes : List UInt8) : JArray where
  size := a.size
  elementSz := a.elementSz
  data := a.data.mapIdx fun i b => if offset ≤ i then (bytes[i - offset]?).getD b else b
  length_data := by rw [List.length_mapIdx, a.length_data]

/-- The union of `jvm_object`, tagged with its type. Names are byte strings. -/
inductive Body
  | opaqueObject
  | array (a : JArray)
  | method (klass : Nat) (name signature : List UInt8)
  | klass (name : List UInt8)
  | string (text : List UInt8)
  deriving DecidableEq

/-- `jvm_object`. -/
structure Object where
  thisKlass : Nat
  body : Body
  deriving DecidableEq

/-- The comparators of `jvm_find_object`. Arrays are the same when their bytes are, whatever
their class and the size of their elements. -/
def Object.same (a b : Object) : Bool :=
  match a.body, b.body with
  | .opaqueObject, .opaqueObject => a.thisKlass == b.thisKlass
  | .array x, .array y => x.data == y.data
  | .method k n s, .method k' n' s' => k == k' && n == n' && s == s'
  | .klass n, .klass n' => n == n'
  | .string t, .string t' => t == t'
  | _, _ => false

/-- `ARRAY_SIZE(jvm->objects)`. -/
def objectLimit : Nat := 65536

/-- The used entries of `jvm->objects`. -/
abbrev Objects := List Object

/-- `cstr_replace(cstr, "/", '.')`. It stops at a slash with nothing in front of it. -/
def cstrReplace : Bool → List UInt8 → List UInt8
  | _, [] => []
  | start, c :: s =>
    if c = 47 then if start then c :: s else 46 :: cstrReplace true s
    else c :: cstrReplace false s

variable (objects : Objects)

/-- `jvm_make_class`: the handle of the class and the table. -/
def makeClass (name : List UInt8) : Option (Nat × Objects) :=
  if name = [] then none
  else
    (intern Object.same objectLimit objects ⟨1, .klass (cstrReplace true name)⟩).map
      fun (i, objects) => (i + 1, objects)

/-- `jvm_assign_default_class`: the class of an object that names none. -/
def defaultClass : Body → Option (List UInt8)
  | .method _ _ _ => some (cstr "java/lang/reflect/Method")
  | .string _ => some (cstr "java/lang/String")
  | _ => none

def addObjectIfNotThere (needle : Object) : Option (Nat × Objects) := do
  let (i, table) ← intern Object.same objectLimit objects needle
  if i < objects.length ∨ needle.thisKlass ≠ 0 then some (i + 1, table)
  else
    let name ← defaultClass needle.body
    let (klass, table) ← makeClass table name
    some (i + 1, table.set i { needle with thisKlass := klass })

/-- `jvm_init`: the class of the classes. -/
def initialObjects : Objects := [⟨1, .klass (cstr "java.lang.Class")⟩]

/-! ## Looking at the table -/

def getObject (handle : Nat) : Option Object :=
  if handle = 0 then none else objects[handle - 1]?

/-- The array behind a handle, with its class. -/
def arrayAt (handle : Nat) : Option (Nat × JArray) :=
  match getObject objects handle with
  | some ⟨klass, .array a⟩ => some (klass, a)
  | _ => none

def className (handle : Nat) : Option (List UInt8) :=
  match getObject objects handle with
  | some ⟨_, .klass name⟩ => some name
  | _ => none

section Table

variable {t t' t'' : Objects} {handle : Nat}

theorem getObject_append (t : Objects) (o : Object) (handle : Nat) :
    getObject (t ++ [o]) handle = if handle = t.length + 1 then some o else getObject t handle := by
  cases handle with
  | zero => rfl
  | succ i =>
    simp only [getObject, Nat.succ_ne_zero, if_false, Nat.add_sub_cancel]
    rcases lt_trichotomy i t.length with hlt | rfl | hgt
    · rw [getElem?_append_left hlt, if_neg (by omega)]
    · simp
    · rw [if_neg (by omega), getElem?_eq_none (by simp; omega), getElem?_eq_none (by omega)]

theorem getObject_set (t : Objects) (i : Nat) (o : Object) (handle : Nat) :
    getObject (t.set i o) handle =
      if handle = i + 1 ∧ i < t.length then some o else getObject t handle := by
  cases handle with
  | zero => simp [getObject]
  | succ j =>
    simp only [getObject]
    by_cases hij : i = j
    · subst hij
      by_cases hlt : i < t.length <;> simp [hlt]
    · simp [hij, Ne.symm hij]

theorem getObject_of_length_lt (h : t.length < handle) : getObject t handle = none := by
  rw [getObject]
  split
  · rfl
  · exact getElem?_eq_none (by omega)

/-- Nothing that is not an array counts for the arrays. -/
def Body.isArray : Body → Bool
  | .array _ => true
  | _ => false

variable {o : Object}

theorem arrayAt_of_getObject (h : getObject t handle = some o)
    (hbody : o.body.isArray = false) : arrayAt t handle = none := by
  obtain ⟨klass, body⟩ := o
  rw [arrayAt, h]
  cases body <;> first | rfl | cases hbody

/-- The table has the same arrays and keeps the classes. -/
structure Grows (t t' : Objects) : Prop where
  length_le : t.length ≤ t'.length
  arrays : ∀ handle, arrayAt t' handle = arrayAt t handle
  names : ∀ handle name, className t handle = some name → className t' handle = some name

theorem Grows.refl (t : Objects) : Grows t t := ⟨le_rfl, fun _ => rfl, fun _ _ h => h⟩

theorem Grows.trans (first : Grows t t') (second : Grows t' t'') : Grows t t'' where
  length_le := first.length_le.trans second.length_le
  arrays handle := (second.arrays handle).trans (first.arrays handle)
  names handle name h := second.names handle name (first.names handle name h)

theorem Grows.append (t : Objects) (hbody : o.body.isArray = false) :
    Grows t (t ++ [o]) where
  length_le := by simp
  arrays handle := by
    have hget := getObject_append t o handle
    by_cases hnew : handle = t.length + 1
    · rw [if_pos hnew] at hget
      rw [arrayAt_of_getObject hget hbody, arrayAt, getObject_of_length_lt (by omega)]
    · rw [if_neg hnew] at hget
      rw [arrayAt, arrayAt, hget]
  names handle name h := by
    have hget := getObject_append t o handle
    by_cases hnew : handle = t.length + 1
    · rw [className, getObject_of_length_lt (by omega)] at h
      cases h
    · rw [if_neg hnew] at hget
      rwa [className, hget]

theorem Grows.set (h : Grows t t') {i : Nat} (hi : t.length ≤ i)
    (hbody : o.body.isArray = false) : Grows t (t'.set i o) where
  length_le := by
    rw [length_set]
    exact h.length_le
  arrays handle := by
    have hget := getObject_set t' i o handle
    by_cases hhere : handle = i + 1 ∧ i < t'.length
    · rw [if_pos hhere] at hget
      rw [arrayAt_of_getObject hget hbody, arrayAt, getObject_of_length_lt (by omega)]
    · rw [if_neg hhere] at hget
      rw [arrayAt, hget]
      exact h.arrays handle
  names handle name hname := by
    have hget := getObject_set t' i o handle
    by_cases hhere : handle = i + 1 ∧ i < t'.length
    · rw [className, getObject_of_length_lt (by omega)] at hname
      cases hname
    · rw [if_neg hhere] at hget
      rw [className, hget]
      exact h.names handle name hname

theorem same_klass {name : List UInt8} {k : Nat}
    (h : Object.same ⟨k, .klass name⟩ o) : o.body = .klass name := by
  obtain ⟨klass, body⟩ := o
  cases body with
  | klass name' =>
    have heq : name = name' := by simpa [Object.same] using h
    rw [heq]
  | opaqueObject | array _ | method _ _ _ | string _ => cases h

/-- **A class is made or found.** -/
theorem makeClass_spec {name : List UInt8} {klass : Nat} (h : makeClass t name = some (klass, t')) :
    Grows t t' ∧ className t' klass = some (cstrReplace true name) ∧ klass ≠ 0 := by
  rw [makeClass] at h
  split at h
  · cases h
  obtain ⟨⟨i, table⟩, hintern, heq⟩ := map_eq_some_iff.mp h
  cases heq
  cases intern_spec hintern with
  | found hget hsame =>
    rename_i entry
    have hbody := same_klass hsame
    obtain ⟨k, body⟩ := entry
    refine ⟨.refl t, ?_, Nat.succ_ne_zero i⟩
    rw [className, getObject, if_neg (Nat.succ_ne_zero i), Nat.add_sub_cancel, hget]
    simp only at hbody
    rw [hbody]
  | added habsent =>
    refine ⟨.append t rfl, ?_, Nat.succ_ne_zero _⟩
    rw [className, getObject_append, if_pos rfl]

/-- **An object that is no array is made or found.** -/
theorem addObjectIfNotThere_grows {needle : Object} (hbody : needle.body.isArray = false)
    (h : addObjectIfNotThere t needle = some (handle, t')) : Grows t t' := by
  obtain ⟨⟨i, table⟩, hintern, h⟩ := bind_eq_some_iff.mp h
  have hgrows : Grows t table ∧ t.length ≤ i ∨ table = t ∧ i < t.length := by
    cases intern_spec hintern with
    | found hget hsame => exact .inr ⟨rfl, (List.getElem?_eq_some_iff.mp hget).1⟩
    | added habsent => exact .inl ⟨.append t hbody, le_rfl⟩
  simp only at h
  rcases hgrows with ⟨hgrows, hi⟩ | ⟨rfl, hi⟩
  · split at h
    · cases h
      exact hgrows
    obtain ⟨name, -, h⟩ := bind_eq_some_iff.mp h
    obtain ⟨⟨klass, table'⟩, hmake, h⟩ := bind_eq_some_iff.mp h
    obtain ⟨-, rfl⟩ : i + 1 = handle ∧
        table'.set i { needle with thisKlass := klass } = t' := by simpa using h
    exact (hgrows.trans (makeClass_spec hmake).1).set hi hbody
  · rw [if_pos (.inl hi)] at h
    obtain ⟨-, rfl⟩ : i + 1 = handle ∧ table = t' := by simpa using h
    exact .refl table

theorem addObjectIfNotThere_interned {needle : Object}
    (hklass : needle.thisKlass ≠ 0) (h : addObjectIfNotThere t needle = some (handle, t')) :
    ∃ i, handle = i + 1 ∧ Interned Object.same t needle i t' := by
  obtain ⟨⟨i, table⟩, hintern, h⟩ := bind_eq_some_iff.mp h
  simp only at h
  rw [if_pos (.inr hklass)] at h
  cases h
  exact ⟨i, rfl, intern_spec hintern⟩

end Table

end Lunaria.Jvm
