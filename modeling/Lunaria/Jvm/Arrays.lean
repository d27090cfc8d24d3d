/-
# Java arrays

A new array is an entry of the object table like any other, and so it is interned: a request is
answered with an array that is already there when that one has as many bytes and all of them are
zero at the moment. The guest then holds one array under two names. An array of objects is made
without a look at its class and its initial element.

The record `held` says what the guest may expect: for every request the handle it was given, the
class it asked for, and the contents as they are after its own writes through that handle.
-/

import Lunaria.Jvm.Objects
import Lunaria.Lib.Buffer
import Lunaria.Lib.PartialRun

namespace Lunaria.Jvm

open Lib Elf Buffer List

/-! ## The calls -/

inductive ElementType
  | boolean
  | byte
  | char
  | short
  | int
  | long
  | float
  | double
  deriving DecidableEq

/-- `sizeof` of the element type. -/
def ElementType.size : ElementType → Nat
  | .boolean => 1
  | .byte => 1
  | .char => 2
  | .short => 2
  | .int => 4
  | .long => 8
  | .float => 4
  | .double => 8

def ElementType.descriptor : ElementType → List UInt8
  | .boolean => cstr "[Z"
  | .byte => cstr "[B"
  | .char => cstr "[C"
  | .short => cstr "[S"
  | .int => cstr "[I"
  | .long => cstr "[J"
  | .float => cstr "[F"
  | .double => cstr "[D"

/-- The JNI calls that change the table or an array; the last stores through the pointer of
`Get<Type>ArrayElements`. -/
inductive Call
  | findClass (name : List UInt8)
  | allocObject (klass : Nat)
  | getMethodId (klass : Nat) (name signature : List UInt8)
  | newString (text : List UInt8)
  | newArray (type : ElementType) (n : Nat)
  | newObjectArray (n klass : Nat) (init : UInt64)
  | setObjectArrayElement (array index : Nat) (value : UInt64)
  | setArrayRegion (array offset count : Nat) (buf : List UInt8)
  | storeElements (array offset : Nat) (bytes : List UInt8)

variable (objects : Objects)

def jvmNewArray (size elementSz : Nat) (klass : List UInt8) : Option (Nat × Objects) := do
  let (this, table) ← makeClass objects klass
  addObjectIfNotThere table ⟨this, .array (.zero size elementSz)⟩

/-- The class an object is allocated with; `java/lang/Object` stands in for none. -/
def allocClass (klass : Nat) : Option (Nat × Objects) :=
  if klass = 0 then makeClass objects (cstr "java/lang/Object") else some (klass, objects)

/-- `JNIEnv_AllocObject`. -/
def jniAllocObject (klass : Nat) : Option (Nat × Objects) := do
  let (this, table) ← allocClass objects klass
  addObjectIfNotThere table ⟨this, .opaqueObject⟩

def objectBytes (value : UInt64) : List UInt8 := leBytes 8 value.toNat

/-- An array of references to one object. -/
def JArray.filled (n : Nat) (init : UInt64) : JArray where
  size := n
  elementSz := 8
  data := (List.replicate n (objectBytes init)).flatten
  length_data := by simp [objectBytes, leBytes_length]

/-- The array class over an element class. -/
def arrayClassName (element : List UInt8) : List UInt8 :=
  if element.head? = some 91 then 91 :: element else [91, 76] ++ element ++ [59]

/-- One array of the guest: its handle, the class that was asked for, what it should contain. -/
structure Held where
  handle : Nat
  klass : Option (List UInt8)
  array : JArray

/-- The table, and the arrays the guest has asked for. -/
structure World where
  objects : Objects
  held : List Held

namespace World

def initial : World := ⟨initialObjects, []⟩

/-- A write through a handle: the array in the table changes, and with it what the guest expects
behind this handle. -/
def write (g : World) (handle klass : Nat) (a : JArray) (change : JArray → JArray) : World where
  objects := g.objects.set (handle - 1) ⟨klass, .array (change a)⟩
  held := g.held.map fun e => if e.handle = handle then { e with array := change e.array } else e

def step (g : World) : Call → Option World
  | .findClass name => (makeClass g.objects name).map fun (_, table) => { g with objects := table }
  | .allocObject klass =>
    (jniAllocObject g.objects klass).map fun (_, table) => { g with objects := table }
  | .getMethodId klass name signature =>
    if klass = 0 then some g
    else
      (addObjectIfNotThere g.objects ⟨0, .method klass name signature⟩).map
        fun (_, table) => { g with objects := table }
  | .newString text =>
    (addObjectIfNotThere g.objects ⟨0, .string text⟩).map
      fun (_, table) => { g with objects := table }
  | .newArray type n =>
    (jvmNewArray g.objects n type.size type.descriptor).map fun (handle, table) =>
      ⟨table, ⟨handle, some type.descriptor, .zero n type.size⟩ :: g.held⟩
  | .newObjectArray n klass init =>
    (jvmNewArray g.objects n 8 (cstr "[Ljava/lang/Object;")).map fun (handle, table) =>
      ⟨table, ⟨handle, (className g.objects klass).map arrayClassName, .filled n init⟩ :: g.held⟩
  | .setObjectArrayElement array index value =>
    if array = 0 then none
    else
      match arrayAt g.objects array with
      | none => some g
      | some (klass, a) =>
        if a.size ≤ index then some g
        else if 8 * index + 8 ≤ a.data.length then
          some (g.write array klass a fun b => b.write (8 * index) (objectBytes value))
        else none
  | .setArrayRegion array offset count buf =>
    if array = 0 then none
    else
      match arrayAt g.objects array with
      | none => if offset + count = 0 then some g else none
      | some (klass, a) =>
        if offset + count ≤ a.size ∧ buf.length = count * a.elementSz then
          some (g.write array klass a fun b => b.write (offset * b.elementSz) buf)
        else none
  | .storeElements array offset bytes =>
    match arrayAt g.objects array with
    | none => none
    | some (klass, a) =>
      if offset + bytes.length ≤ a.data.length then
        some (g.write array klass a fun b => b.write offset bytes)
      else none

/-- A run stops at a call that does not return. -/
def step? (g : Option World) (call : Call) : Option World := g.bind fun g => g.step call

/-- Every array has a handle of its own, and behind it the class asked for, the length and the
contents. -/
structure Independent (g : World) : Prop where
  fresh : (g.held.map Held.handle).Nodup
  kept : ∀ e ∈ g.held, ∃ klass name, arrayAt g.objects e.handle = some (klass, e.array) ∧
    className g.objects klass = some name ∧ e.klass = some name

end World

/-! ## Requests that are answered with a new array -/

def Object.bytes (o : Object) : Option (List UInt8) :=
  match o.body with
  | .array a => some a.data
  | _ => none

/-- No array of the table has this many bytes and only zeros. -/
def NoTwin (len : Nat) : Prop :=
  ∀ o ∈ objects, o.bytes ≠ some (List.replicate len 0)
  deriving Decidable

/-- The requests that are served: no twin, and for an array of objects the class `java.lang.Object`
and no initial element. -/
def World.Serves (g : World) : Call → Prop
  | .newArray type n => NoTwin g.objects (n * type.size)
  | .newObjectArray n klass init => NoTwin g.objects (n * 8) ∧ (init = 0 ∨ n = 0) ∧
      className g.objects klass = some (cstr "java.lang.Object")
  | _ => True

instance servesDecidable (g : World) : ∀ call, Decidable (g.Serves call)
  | .newArray _ _ => inferInstanceAs (Decidable (NoTwin g.objects _))
  | .newObjectArray _ _ _ => inferInstanceAs (Decidable (_ ∧ (_ ∨ _) ∧ _ = _))
  | .findClass _ | .allocObject _ | .getMethodId _ _ _ | .newString _ | .setObjectArrayElement _ _ _
  | .setArrayRegion _ _ _ _ | .storeElements _ _ _ => isTrue trivial

section Table

variable {t t' : Objects} {handle klass : Nat} {a : JArray}

theorem getObject_of_arrayAt (h : arrayAt t handle = some (klass, a)) :
    getObject t handle = some ⟨klass, .array a⟩ := by
  rw [arrayAt] at h
  split at h
  · rename_i hget
    cases h
    exact hget
  · cases h

theorem mem_of_getObject {o : Object} (h : getObject t handle = some o) : o ∈ t := by
  rw [getObject] at h
  split at h
  · cases h
  · exact mem_of_getElem? h

theorem handle_of_arrayAt (h : arrayAt t handle = some (klass, a)) :
    handle = handle - 1 + 1 ∧ handle - 1 < t.length := by
  have hget := getObject_of_arrayAt h
  rw [getObject] at hget
  split at hget
  · cases hget
  · exact ⟨by omega, (List.getElem?_eq_some_iff.mp hget).1⟩

theorem arrayAt_append (t : Objects) (klass : Nat) (a : JArray) (handle : Nat) :
    arrayAt (t ++ [⟨klass, .array a⟩]) handle =
      if handle = t.length + 1 then some (klass, a) else arrayAt t handle := by
  rw [arrayAt, getObject_append]
  by_cases hnew : handle = t.length + 1
  · rw [if_pos hnew, if_pos hnew]
  · rw [if_neg hnew, if_neg hnew, arrayAt]

theorem arrayAt_set (h : arrayAt t handle = some (klass, a)) (b : JArray) (other : Nat) :
    arrayAt (t.set (handle - 1) ⟨klass, .array b⟩) other =
      if other = handle then some (klass, b) else arrayAt t other := by
  obtain ⟨hplace, hlt⟩ := handle_of_arrayAt h
  rw [arrayAt, getObject_set, ← hplace]
  by_cases hother : other = handle
  · rw [if_pos ⟨hother, hlt⟩, if_pos hother]
  · rw [if_neg fun hboth => hother hboth.1, if_neg hother, arrayAt]

theorem className_set (h : arrayAt t handle = some (klass, a)) (b : JArray) (other : Nat) :
    className (t.set (handle - 1) ⟨klass, .array b⟩) other = className t other := by
  obtain ⟨hplace, hlt⟩ := handle_of_arrayAt h
  rw [className, getObject_set, ← hplace, className]
  by_cases hother : other = handle
  · rw [if_pos ⟨hother, hlt⟩, hother, getObject_of_arrayAt h]
  · rw [if_neg fun hboth => hother hboth.1]

theorem className_append {name : List UInt8} (a : JArray) (k : Nat)
    (h : className t handle = some name) : className (t ++ [⟨k, .array a⟩]) handle = some name := by
  have hne : handle ≠ t.length + 1 := by
    rintro rfl
    rw [className, getObject_of_length_lt (Nat.lt_succ_self _)] at h
    cases h
  rw [className, getObject_append, if_neg hne]
  exact h

theorem arrayAt_of_getElem? {i : Nat} (h : t[i]? = some ⟨klass, .array a⟩) :
    arrayAt t (i + 1) = some (klass, a) := by
  rw [arrayAt, getObject, if_neg (Nat.succ_ne_zero i), Nat.add_sub_cancel, h]

theorem Object.bytes_eq_some {o : Object} {data : List UInt8} (h : o.bytes = some data) :
    ∃ klass a, o = ⟨klass, .array a⟩ ∧ a.data = data := by
  obtain ⟨klass, body⟩ := o
  cases body with
  | array a => exact ⟨klass, a, rfl, Option.some.inj h⟩
  | opaqueObject | method _ _ _ | klass _ | string _ => cases h

/-- `compare_array`: an array is found by its bytes. -/
theorem Object.same_array_iff {o : Object} :
    Object.same ⟨klass, .array a⟩ o ↔ o.bytes = some a.data := by
  obtain ⟨k, body⟩ := o
  cases body with
  | array b => simp [same, bytes, eq_comm (a := b.data)]
  | opaqueObject | method _ _ _ | klass _ | string _ => simp [same, bytes]

theorem noTwin_iff {len : Nat} : NoTwin t len ↔
    ∀ handle klass a, arrayAt t handle = some (klass, a) → a.data ≠ List.replicate len 0 := by
  constructor
  · intro h handle klass a harray hdata
    have hmem := mem_of_getObject (getObject_of_arrayAt harray)
    exact h _ hmem (congrArg some hdata)
  · intro h o ho hbytes
    obtain ⟨i, hi⟩ := mem_iff_getElem?.mp ho
    obtain ⟨klass, a, rfl, hdata⟩ := Object.bytes_eq_some hbytes
    exact h _ klass a (arrayAt_of_getElem? hi) hdata

theorem Grows.noTwin_iff (h : Grows t t') {len : Nat} : NoTwin t' len ↔ NoTwin t len := by
  rw [Jvm.noTwin_iff, Jvm.noTwin_iff]
  simp [h.arrays]

end Table

/-- What a request for an array can end in. -/
inductive NewArray (t : Objects) (size elementSz : Nat) (name : List UInt8) :
    Nat → Objects → Prop
  | twin {handle klass : Nat} {a : JArray} {t' : Objects} (hgrows : Grows t t')
      (harray : arrayAt t handle = some (klass, a))
      (hdata : a.data = List.replicate (size * elementSz) 0) :
      NewArray t size elementSz name handle t'
  | made {handle klass : Nat} {t' : Objects} (hnone : NoTwin t (size * elementSz))
      (hfree : arrayAt t handle = none)
      (harrays : ∀ other, arrayAt t' other =
        if other = handle then some (klass, .zero size elementSz) else arrayAt t other)
      (hnames : ∀ other n, className t other = some n → className t' other = some n)
      (hname : className t' klass = some (cstrReplace true name)) :
      NewArray t size elementSz name handle t'

theorem jvmNewArray_spec {t t' : Objects} {size elementSz handle : Nat} {name : List UInt8}
    (h : jvmNewArray t size elementSz name = some (handle, t')) :
    NewArray t size elementSz name handle t' := by
  obtain ⟨⟨klass, table⟩, hmake, h⟩ := Option.bind_eq_some_iff.mp h
  obtain ⟨hgrows, hname, hne⟩ := makeClass_spec hmake
  obtain ⟨i, rfl, hinterned⟩ := addObjectIfNotThere_interned hne h
  cases hinterned with
  | found hget hsame =>
    obtain ⟨k', y, rfl, hdata⟩ := Object.bytes_eq_some (Object.same_array_iff.mp hsame)
    have harray : arrayAt t' (i + 1) = some (k', y) := arrayAt_of_getElem? hget
    rw [hgrows.arrays] at harray
    exact .twin hgrows harray hdata
  | added habsent =>
    have hnone : NoTwin table (size * elementSz) := by
      intro o ho hbytes
      have hdiff := habsent o ho
      rw [Object.same_array_iff.mpr hbytes] at hdiff
      cases hdiff
    have hfree : arrayAt t (table.length + 1) = none := by
      rw [← hgrows.arrays, arrayAt, getObject_of_length_lt (Nat.lt_succ_self _)]
    refine .made (hgrows.noTwin_iff.mp hnone) hfree ?_ ?_ (className_append _ _ hname)
    · intro other
      rw [arrayAt_append, hgrows.arrays]
    · intro other n hother
      exact className_append _ _ (hgrows.names other n hother)

/-! ## One call -/

/-- The calls that store to an array. -/
def Call.stores : Call → Bool
  | .setObjectArrayElement _ _ _ | .setArrayRegion _ _ _ _ | .storeElements _ _ _ => true
  | _ => false

namespace World

/-- The guest's arrays are independent and there are no others. -/
structure Sound (g : World) : Prop extends Independent g where
  complete : ∀ handle klass a, arrayAt g.objects handle = some (klass, a) →
    handle ∈ g.held.map Held.handle

section Step

variable {g g' : World}

theorem Sound.grow (h : Sound g) {t : Objects} (hgrows : Grows g.objects t) :
    Sound { g with objects := t } where
  fresh := h.fresh
  kept e he := by
    obtain ⟨klass, name, harray, hname, hklass⟩ := h.kept e he
    exact ⟨klass, name, (hgrows.arrays e.handle).trans harray, hgrows.names klass name hname,
      hklass⟩
  complete handle klass a harray := h.complete handle klass a (hgrows.arrays handle ▸ harray)

theorem handles_write (g : World) (handle klass : Nat) (a : JArray) (change : JArray → JArray) :
    (g.write handle klass a change).held.map Held.handle = g.held.map Held.handle := by
  rw [write, map_map]
  apply map_congr_left
  intro e _
  simp only [Function.comp]
  split <;> rfl

theorem Sound.write (h : Sound g) {handle klass : Nat} {a : JArray}
    (harray : arrayAt g.objects handle = some (klass, a)) (change : JArray → JArray) :
    Sound (g.write handle klass a change) where
  fresh := by
    rw [handles_write]
    exact h.fresh
  kept e he := by
    obtain ⟨old, hold, rfl⟩ := mem_map.mp he
    obtain ⟨k, name, hat, hname, hklass⟩ := h.kept old hold
    rw [← className_set harray (change a)] at hname
    by_cases hhandle : old.handle = handle
    · -- the array that was written is the one the guest holds under this handle
      rw [hhandle] at hat
      obtain ⟨rfl, rfl⟩ : klass = k ∧ a = old.array := by simpa [harray] using hat
      simp only [if_pos hhandle]
      exact ⟨klass, name, (arrayAt_set harray ..).trans (if_pos hhandle), hname, hklass⟩
    · simp only [if_neg hhandle]
      exact ⟨k, name, ((arrayAt_set harray ..).trans (if_neg hhandle)).trans hat, hname, hklass⟩
  complete other k b hat := by
    rw [handles_write]
    rw [World.write, arrayAt_set harray] at hat
    split at hat
    · rename_i hother
      rw [hother]
      exact h.complete handle klass a harray
    · exact h.complete other k b hat

/-- **A request for an array** keeps the guest's arrays independent exactly when a new one was made
with the class and contents asked for. -/
theorem Sound.request (h : Sound g) {size elementSz handle : Nat} {name : List UInt8}
    {t : Objects} (hnew : NewArray g.objects size elementSz name handle t)
    (asked : Option (List UInt8)) (expected : JArray) :
    (Independent ⟨t, ⟨handle, asked, expected⟩ :: g.held⟩ ↔
        NoTwin g.objects (size * elementSz) ∧ asked = some (cstrReplace true name) ∧
          expected = .zero size elementSz) ∧ (Independent ⟨t, ⟨handle, asked, expected⟩ :: g.held⟩ →
        Sound ⟨t, ⟨handle, asked, expected⟩ :: g.held⟩) := by
  cases hnew with
  | twin hgrows harray hdata =>
    have hmem := h.complete _ _ _ harray
    refine ⟨⟨fun hind => ?_, fun hserves => ?_⟩, fun hind => ?_⟩
    · exact absurd hmem (nodup_cons.mp hind.fresh).1
    · exact absurd hdata (noTwin_iff.mp hserves.1 _ _ _ harray)
    · exact absurd hmem (nodup_cons.mp hind.fresh).1
  | made hnone hfree harrays hnames hname =>
    rename_i klass
    have hhere : arrayAt t handle = some (klass, .zero size elementSz) := by
      rw [harrays, if_pos rfl]
    have hnotMem : handle ∉ g.held.map Held.handle := by
      intro hmem
      obtain ⟨e, he, rfl⟩ := mem_map.mp hmem
      obtain ⟨k, n, hat, -, -⟩ := h.kept e he
      rw [hfree] at hat
      cases hat
    refine ⟨⟨fun hind => ?_, ?_⟩, fun hind => ⟨hind, ?_⟩⟩
    · obtain ⟨k, n, hat, hk, hasked⟩ := hind.kept _ mem_cons_self
      obtain ⟨rfl, rfl⟩ : klass = k ∧ JArray.zero size elementSz = expected := by
        simpa [hhere] using hat
      refine ⟨hnone, ?_, rfl⟩
      exact hasked.trans (hk.symm.trans hname)
    · rintro ⟨-, rfl, rfl⟩
      refine ⟨nodup_cons.mpr ⟨hnotMem, h.fresh⟩, ?_⟩
      intro e he
      rcases mem_cons.mp he with rfl | hold
      · exact ⟨klass, _, hhere, hname, rfl⟩
      obtain ⟨k, n, hat, hk, hklass⟩ := h.kept e hold
      have hother : e.handle ≠ handle := by
        rintro heq
        exact hnotMem (heq ▸ mem_map_of_mem hold)
      refine ⟨k, n, ?_, hnames k n hk, hklass⟩
      rw [harrays, if_neg hother]
      exact hat
    · intro other k b hat
      rw [harrays] at hat
      split at hat
      · rename_i hother
        rw [hother]
        exact mem_cons_self
      · exact mem_cons_of_mem _ (h.complete other k b hat)

theorem objectBytes_eq_zero_iff (value : UInt64) :
    objectBytes value = List.replicate 8 0 ↔ value = 0 := by
  constructor
  · intro h
    apply UInt64.toNat_inj.mp
    exact leBytes_inj (UInt64.toNat_lt value) (UInt64.toNat_lt 0) h
  · rintro rfl
    rfl

/-- No initial element, or no element at all. -/
theorem filled_eq_zero_iff (n : Nat) (init : UInt64) :
    JArray.filled n init = .zero n 8 ↔ init = 0 ∨ n = 0 := by
  have hdata : JArray.filled n init = .zero n 8 ↔
      (replicate n (objectBytes init)).flatten = replicate (n * 8) 0 := by
    rw [JArray.mk.injEq]
    exact ⟨fun h => h.2.2, fun h => ⟨rfl, rfl, h⟩⟩
  rw [hdata]
  cases n with
  | zero => simp
  | succ n =>
    have hor : (init = 0 ∨ n + 1 = 0) ↔ init = 0 := by simp
    rw [hor, ← objectBytes_eq_zero_iff]
    constructor
    · intro h
      have htake := congrArg (take 8) h
      have hlen : (objectBytes init).length = 8 := leBytes_length 8 _
      rw [replicate_succ, flatten_cons, ← hlen, take_left', take_replicate] at htake
      · rw [htake, hlen, min_eq_left (by omega)]
      · rfl
    · intro h
      rw [h, flatten_replicate_replicate]

/-- Only the class `java.lang.Object` has the array class that is used for every one. -/
theorem arrayClassName_eq_iff (name : List UInt8) :
    arrayClassName name = cstrReplace true (cstr "[Ljava/lang/Object;") ↔
      name = cstr "java.lang.Object" := by
  have hobject : cstrReplace true (cstr "[Ljava/lang/Object;") =
      [91, 76] ++ cstr "java.lang.Object" ++ [59] := by decide
  rw [hobject, arrayClassName]
  constructor
  · intro h
    split at h
    · rename_i hhead
      cases name with
      | nil => cases hhead
      | cons c name =>
        cases hhead
        simp at h
    · exact List.append_cancel_left (List.append_cancel_right h)
  · rintro rfl
    rfl

theorem descriptor_replace (type : ElementType) :
    cstrReplace true type.descriptor = type.descriptor := by
  cases type <;> decide

theorem serves_newArray_iff {type : ElementType} {n : Nat} : g.Serves (.newArray type n) ↔
    NoTwin g.objects (n * type.size) ∧
      some type.descriptor = some (cstrReplace true type.descriptor) ∧
        JArray.zero n type.size = .zero n type.size := by
  rw [descriptor_replace]
  exact ⟨fun hnone => ⟨hnone, rfl, rfl⟩, fun h => h.1⟩

theorem serves_newObjectArray_iff {n klass : Nat} {init : UInt64} :
    g.Serves (.newObjectArray n klass init) ↔ NoTwin g.objects (n * 8) ∧
      (className g.objects klass).map arrayClassName =
        some (cstrReplace true (cstr "[Ljava/lang/Object;")) ∧
          JArray.filled n init = .zero n 8 := by
  have hclass : (className g.objects klass).map arrayClassName =
      some (cstrReplace true (cstr "[Ljava/lang/Object;")) ↔
        className g.objects klass = some (cstr "java.lang.Object") := by
    simp [arrayClassName_eq_iff]
  rw [hclass, filled_eq_zero_iff]
  exact and_congr_right fun _ => and_comm

/-- What a call can do: make no array, write through one handle, or answer a request. -/
inductive Outcome (g : World) (call : Call) : World → Prop
  | grows {t : Objects} (hgrows : Grows g.objects t) (hserves : g.Serves call) :
      Outcome g call { g with objects := t }
  | writes {handle klass : Nat} {a : JArray}
      (harray : arrayAt g.objects handle = some (klass, a)) (change : JArray → JArray)
      (hserves : g.Serves call) : Outcome g call (g.write handle klass a change)
  | request {size elementSz handle : Nat} {name : List UInt8} {t : Objects}
      {asked : Option (List UInt8)} {expected : JArray}
      (hnew : NewArray g.objects size elementSz name handle t)
      (hserves : g.Serves call ↔ NoTwin g.objects (size * elementSz) ∧
        asked = some (cstrReplace true name) ∧ expected = .zero size elementSz) :
      Outcome g call ⟨t, ⟨handle, asked, expected⟩ :: g.held⟩

theorem Outcome.idle {call : Call} (hserves : g.Serves call) : Outcome g call g :=
  .grows (.refl g.objects) hserves

theorem allocClass_grows {objects t : Objects} {klass this : Nat}
    (h : allocClass objects klass = some (this, t)) : Grows objects t := by
  rw [allocClass] at h
  split at h
  · exact (makeClass_spec h).1
  · cases h
    exact .refl objects

theorem step_stores {call : Call} (hstores : call.stores) (hstep : g.step call = some g') :
    g' = g ∨ ∃ array klass a change, arrayAt g.objects array = some (klass, a) ∧
      g' = g.write array klass a change := by
  cases call with
  | setObjectArrayElement array index value =>
    rw [step] at hstep
    split at hstep
    · cases hstep
    split at hstep
    · cases hstep
      exact .inl rfl
    rename_i harray
    split at hstep
    · cases hstep
      exact .inl rfl
    · obtain ⟨-, heq⟩ := Option.ite_none_right_eq_some.mp hstep
      cases heq
      exact .inr ⟨_, _, _, _, harray, rfl⟩
  | setArrayRegion array offset count buf =>
    rw [step] at hstep
    split at hstep
    · cases hstep
    split at hstep
    · obtain ⟨-, heq⟩ := Option.ite_none_right_eq_some.mp hstep
      cases heq
      exact .inl rfl
    · rename_i harray
      obtain ⟨-, heq⟩ := Option.ite_none_right_eq_some.mp hstep
      cases heq
      exact .inr ⟨_, _, _, _, harray, rfl⟩
  | storeElements array offset bytes =>
    rw [step] at hstep
    split at hstep
    · cases hstep
    · rename_i harray
      obtain ⟨-, heq⟩ := Option.ite_none_right_eq_some.mp hstep
      cases heq
      exact .inr ⟨_, _, _, _, harray, rfl⟩
  | _ => cases hstores

theorem step_outcome {call : Call} (hstep : g.step call = some g') : Outcome g call g' := by
  cases call with
  | findClass name =>
    obtain ⟨⟨k, t⟩, hmake, rfl⟩ := Option.map_eq_some_iff.mp hstep
    exact .grows (makeClass_spec hmake).1 trivial
  | allocObject klass =>
    obtain ⟨⟨handle, t'⟩, halloc, rfl⟩ := Option.map_eq_some_iff.mp hstep
    obtain ⟨⟨this, t⟩, hclass, hadd⟩ := Option.bind_eq_some_iff.mp halloc
    exact .grows ((allocClass_grows hclass).trans (addObjectIfNotThere_grows rfl hadd)) trivial
  | getMethodId klass name signature =>
    rw [step] at hstep
    split at hstep
    · cases hstep
      exact .idle trivial
    · obtain ⟨⟨k, t⟩, hadd, rfl⟩ := Option.map_eq_some_iff.mp hstep
      exact .grows (addObjectIfNotThere_grows rfl hadd) trivial
  | newString text =>
    obtain ⟨⟨k, t⟩, hadd, rfl⟩ := Option.map_eq_some_iff.mp hstep
    exact .grows (addObjectIfNotThere_grows rfl hadd) trivial
  | newArray type n =>
    obtain ⟨⟨handle, t⟩, hnew, rfl⟩ := Option.map_eq_some_iff.mp hstep
    exact .request (jvmNewArray_spec hnew) serves_newArray_iff
  | newObjectArray n klass init =>
    obtain ⟨⟨handle, t⟩, hnew, rfl⟩ := Option.map_eq_some_iff.mp hstep
    exact .request (jvmNewArray_spec hnew) serves_newObjectArray_iff
  | setObjectArrayElement _ _ _ | setArrayRegion _ _ _ _ | storeElements _ _ _ =>
    obtain rfl | ⟨array, klass, a, change, harray, rfl⟩ := step_stores rfl hstep
    · exact .idle trivial
    · exact .writes harray change trivial

/-- **One call.** -/
theorem Sound.step (h : Sound g) {call : Call} (hstep : g.step call = some g') :
    (Independent g' ↔ g.Serves call) ∧ (Independent g' → Sound g') := by
  cases step_outcome hstep with
  | grows hgrows hserves =>
    have hsound := h.grow hgrows
    exact ⟨⟨fun _ => hserves, fun _ => hsound.toIndependent⟩, fun _ => hsound⟩
  | writes harray change hserves =>
    have hsound := h.write harray change
    exact ⟨⟨fun _ => hserves, fun _ => hsound.toIndependent⟩, fun _ => hsound⟩
  | request hnew hserves =>
    obtain ⟨hiff, hsound⟩ := h.request hnew ..
    exact ⟨hiff.trans hserves.symm, hsound⟩

end Step

/-! ## Whole runs -/

theorem sound_initial : Sound initial where
  fresh := nodup_nil
  kept e he := by cases he
  complete handle klass a harray := by
    have hmem := mem_of_getObject (getObject_of_arrayAt harray)
    simp [initial, initialObjects] at hmem

/-- The condition of `Serves` along a run. -/
def Served : Option World → Call → Prop
  | none, _ => True
  | some g, call => g.Serves call

instance servedDecidable : ∀ (g : Option World) call, Decidable (Served g call)
  | none, _ => isTrue trivial
  | some g, call => inferInstanceAs (Decidable (g.Serves call))

theorem Independent.reads {g : World} (h : Independent g) {e : Held} (he : e ∈ g.held) :
    (arrayAt g.objects e.handle).map (fun (_, a) => a.data) = some e.array.data := by
  obtain ⟨klass, name, harray, -, -⟩ := h.kept e he
  rw [harray, Option.map_some]

theorem Sound.run_iff {g : World} (h : Sound g) {calls : List Call}
    (hreturn : run step? (some g) calls ≠ none) :
    (∀ n g', run step? (some g) (calls.take n) = some g' → Independent g') ↔
      StepsMeet Served step? (some g) calls := by
  have hserved : Served = whileThere Serves := by
    funext state call
    cases state with
    | none | some _ => rfl
  rw [hserved]
  exact prefixes_iff_stepsMeet (fun _ hs => hs.toIndependent) (fun _ _ _ hs hstep => hs.step hstep)
    h hreturn

end World

/-- **Arrays are fresh and independent.** In every run whose calls return, they are after every call
exactly when every request finds no twin, and arrays of objects are asked for as `java.lang.Object`
without an initial element. -/
theorem arrays_independent_iff_served {calls : List Call}
    (hreturn : run World.step? (some .initial) calls ≠ none) :
    (∀ n g, run World.step? (some .initial) (calls.take n) = some g → g.Independent) ↔
      StepsMeet World.Served World.step? (some .initial) calls :=
  World.sound_initial.run_iff hreturn

/-- Every array is written before the next one of as many bytes is asked for. -/
def writtenBetween : List Call :=
  [.newArray .int 1, .setArrayRegion 3 0 1 [7, 0, 0, 0], .newArray .byte 4,
    .findClass (cstr "java/lang/Object"), .newObjectArray 2 6 0, .setObjectArrayElement 8 1 3,
    .newArray .long 2, .storeElements 10 8 [1]]

theorem writtenBetween_independent : run World.step? (some .initial) writtenBetween ≠ none ∧
      ∀ n g, run World.step? (some .initial) (writtenBetween.take n) = some g → g.Independent := by
  have hreturn : run World.step? (some .initial) writtenBetween ≠ none := by decide +kernel
  exact ⟨hreturn, (arrays_independent_iff_served hreturn).mpr (by decide +kernel)⟩

/-- An array of one `int` and one of four bytes, and a write through the second. -/
def sameSize : List Call :=
  [.newArray .int 1, .newArray .byte 4, .setArrayRegion 3 0 1 [7, 0, 0, 0]]

/-- The second request is answered with the first array, and a write through one is read through the
other. An array of objects lacks its initial element. -/
theorem not_independent_sameSize :
    (∃ g, run World.step? (some .initial) sameSize = some g ∧ ¬ g.Independent ∧
      g.held.map Held.handle = [3, 3] ∧
      (arrayAt g.objects 3).map (fun (k, a) => (className g.objects k, a.size, a.data)) =
        some (some (cstr "[I"), 1, [7, 0, 0, 0])) ∧
    ∃ g, run World.step? (some .initial) [.findClass (cstr "java/lang/Object"),
        .newObjectArray 1 2 2] = some g ∧ ¬ g.Independent ∧
      (arrayAt g.objects 4).map (fun (_, a) => a.data) = some (List.replicate 8 0) := by
  constructor
  · refine ⟨_, rfl, fun hind => ?_, by decide +kernel, by decide +kernel⟩
    exact absurd hind.fresh (by decide +kernel)
  · refine ⟨_, rfl, fun hind => ?_, by decide +kernel⟩
    exact absurd (hind.reads List.mem_cons_self) (by decide +kernel)

end Lunaria.Jvm
