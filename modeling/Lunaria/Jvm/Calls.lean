/-
# Calls on the pseudo-JVM

Beside the calls on classes, methods, strings and arrays there are `NewObject` and the accessors of
fields. A field has no place in its object: the value is kept in a side table of 1024 pairs, under
the handle of the object and the handle of the field. Before that table is looked at, the host is
asked for a function that is named after the class and the field, and the search leaves the classes
`java.lang.Object` and `java.lang.Class` in the object table.

The log says what the guest was told: every call with the handle it returned, the latest first.
Every call but a write to an array only puts entries behind the table, and no two entries that are
not arrays are ever the same.
-/

import Lunaria.Jvm.Arrays
import Lunaria.Lib.BoundedMap
import Lunaria.Lib.PartialRun

namespace Lunaria.Jvm

open Lib Elf List Option

/-! ## The calls -/

/-- The type of a field, which is the `Type` of its accessors. -/
inductive FieldType
  | object
  | prim (type : ElementType)
  deriving DecidableEq

def FieldType.size : FieldType → Nat
  | .object => 8
  | .prim type => type.size

/-- The calls. `NewObject` is followed by a constructor that leaves the table alone, `GetFieldID`
and the static variants do what `GetMethodID` does, and static fields belong to the class handle. -/
inductive VmCall
  | jni (call : Call)
  | newObject (klass : Nat)
  | getField (object field : Nat)
  | setField (object field : Nat) (value : List UInt8)

def handleOf (result : Option (Nat × Objects)) : Nat := (result.map Prod.fst).getD 0

/-- `jvm_make_method`, also for fields. -/
def makeMethod (objects : Objects) (klass : Nat) (name signature : List UInt8) : Nat :=
  if klass = 0 then 0 else handleOf (addObjectIfNotThere objects ⟨0, .method klass name signature⟩)

/-- The handle a call returns, zero for the calls that return none. -/
def answer (objects : Objects) : Call → Nat
  | .findClass name => handleOf (makeClass objects name)
  | .allocObject klass => handleOf (jniAllocObject objects klass)
  | .getMethodId klass name signature => makeMethod objects klass name signature
  | .newString text => handleOf (addObjectIfNotThere objects ⟨0, .string text⟩)
  | .newArray type n => handleOf (jvmNewArray objects n type.size type.descriptor)
  | .newObjectArray n _ _ => handleOf (jvmNewArray objects n 8 (cstr "[Ljava/lang/Object;"))
  | _ => 0

/-- `cstr_replace` with any set of characters. -/
def cstrReplaceAny (stops : List UInt8) (c : UInt8) : Bool → List UInt8 → List UInt8
  | _, [] => []
  | start, b :: s =>
    if b ∈ stops then if start then b :: s else c :: cstrReplaceAny stops c true s
    else b :: cstrReplaceAny stops c false s

/-- `jvm_form_symbol`, with room for 254 characters. -/
def formSymbol (klass name : List UInt8) : List UInt8 :=
  cstrReplaceAny (cstr "./$") 95 true ((klass ++ cstr "_" ++ name).take 254)

/-- The name of its class and its own. An empty name is a null pointer, and printing it is
undefined. -/
def methodName (objects : Objects) (handle : Nat) : Option (List UInt8 × List UInt8) :=
  match getObject objects handle with
  | some ⟨_, .method klass name _⟩ =>
    if name = [] then none else (className objects klass).map fun c => (c, name)
  | _ => none

/-- `jvm_wrap_method`: whether the host has a function for the method. -/
def wrapMethod (dlsym : List UInt8 → Bool) (objects : Objects) (handle : Nat) :
    Option (Bool × Objects) := do
  let (klass, name) ← methodName objects handle
  if dlsym (formSymbol klass name) then some (true, objects)
  else
    let (_, objects) ← makeClass objects (cstr "java/lang/Object")
    if dlsym (formSymbol (cstr "java.lang.Object") name) then some (true, objects)
    else
      let (_, objects) ← makeClass objects (cstr "java/lang/Class")
      some (dlsym (formSymbol (cstr "java.lang.Class") name), objects)

/-- `ARRAY_SIZE(stored_fields)`. -/
def fieldLimit : Nat := 1024

structure Vm where
  objects : Objects
  fields : List ((Nat × Nat) × List UInt8)
  log : List (VmCall × Nat)

namespace Vm

def initial : Vm := ⟨initialObjects, [], []⟩

section

variable (dlsym : List UInt8 → Bool) (type : Nat → FieldType)

/-- What `Get<Type>Field` returns for a field without a host function: the first bytes of the stored
bits, or the default. -/
def read (g : Vm) (object field : Nat) : List UInt8 :=
  match g.fields.lookup (object, field) with
  | some bits => bits.take (type field).size
  | none => List.replicate (type field).size 0

/-- A call; `none` when it does not return. The value of a field has the size of its type, and it is
stored in 64 bits. -/
def step (g : Vm) : VmCall → Option Vm
  | .jni call => do
      let world ← World.step ⟨g.objects, []⟩ call
      some { g with objects := world.objects, log := (.jni call, answer g.objects call) :: g.log }
  | .newObject klass => do
      let (handle, objects) ← jniAllocObject g.objects klass
      some { g with objects := objects, log := (.newObject klass, handle) :: g.log }
  | .getField object field =>
    if object = 0 ∨ field = 0 then none
    else
      (wrapMethod dlsym g.objects field).map fun (_, objects) =>
        { g with objects := objects, log := (.getField object field, 0) :: g.log }
  | .setField object field value =>
    if object = 0 ∨ field = 0 ∨ value.length ≠ (type field).size then none
    else
      (wrapMethod dlsym g.objects field).map fun (found, objects) =>
        { objects := objects
          fields :=
            if found then g.fields
            else BoundedMap.store fieldLimit (object, field)
              (value ++ List.replicate (8 - value.length) 0) g.fields
          log := (.setField object field value, 0) :: g.log }

end

end Vm

/-! ## The table under a call -/

/-- No two entries are the same, arrays apart. -/
def Tidy (t : Objects) : Prop :=
  ∀ h h' o o', getObject t h = some o → getObject t h' = some o' → o.body.isArray = false →
    Object.same o o' = true → h = h'

/-- The table keeps its constant entries and stays tidy. -/
structure Keeps (t t' : Objects) : Prop where
  length_le : t.length ≤ t'.length
  kept : ∀ handle o, getObject t handle = some o → o.body.isArray = false →
    getObject t' handle = some o
  tidy : Tidy t → Tidy t'

/-- And it has no other opaque objects. -/
structure Carries (t t' : Objects) : Prop extends Keeps t t' where
  opaques : ∀ handle klass, getObject t' handle = some ⟨klass, .opaqueObject⟩ →
    getObject t handle = some ⟨klass, .opaqueObject⟩

section Table

variable {t t' t'' : Objects} {handle : Nat} {o : Object}

theorem Object.same_comm (a b : Object) : Object.same a b = Object.same b a := by
  obtain ⟨k, x⟩ := a
  obtain ⟨k', y⟩ := b
  cases x <;> cases y <;> simp [same, Bool.beq_comm]

theorem Object.same_self (a : Object) : Object.same a a := by
  obtain ⟨k, x⟩ := a
  cases x <;> simp [same]

/-- Only opaque objects are compared by their class. -/
theorem Object.same_congr {a a' b : Object} (hbody : a'.body = a.body)
    (hplain : a.body ≠ .opaqueObject) : Object.same a' b = Object.same a b := by
  obtain ⟨k, x⟩ := a
  obtain ⟨k', y⟩ := a'
  obtain ⟨k'', z⟩ := b
  obtain rfl : y = x := hbody
  cases y with
  | opaqueObject => exact absurd rfl hplain
  | array _ | method _ _ _ | klass _ | string _ => cases z <;> rfl

theorem Object.same_array_right {a b : Object} (ha : a.body.isArray = false)
    (hb : b.body.isArray) : Object.same a b = false := by
  obtain ⟨k, x⟩ := a
  obtain ⟨k', y⟩ := b
  cases y with
  | array b =>
    cases x with
    | array a => cases ha
    | opaqueObject | method _ _ _ | klass _ | string _ => rfl
  | opaqueObject | method _ _ _ | klass _ | string _ => cases hb

variable {klass : Nat} {name : List UInt8}

theorem getObject_of_className
    (h : className t klass = some name) : ∃ k, getObject t klass = some ⟨k, .klass name⟩ := by
  rw [className] at h
  split at h
  · rename_i k name' hget
    cases h
    exact ⟨k, hget⟩
  · cases h

theorem getObject_append_of_some (h : getObject t handle = some o) (more : Object) :
    getObject (t ++ [more]) handle = some o := by
  have hne : handle ≠ t.length + 1 := by
    rintro rfl
    rw [getObject_of_length_lt (Nat.lt_succ_self _)] at h
    cases h
  rw [getObject_append, if_neg hne]
  exact h

theorem Tidy.append (h : Tidy t)
    (hnew : o.body.isArray ∨ ∀ e ∈ t, Object.same o e = false) : Tidy (t ++ [o]) := by
  have hold {handle : Nat} {x : Object} (hx : getObject t handle = some x)
      (hxa : x.body.isArray = false) : Object.same x o = false := by
    rcases hnew with harray | habsent
    · exact Object.same_array_right hxa harray
    · rw [Object.same_comm]
      exact habsent x (mem_of_getObject hx)
  intro i j a b ha hb hbody hsame
  rw [getObject_append] at ha hb
  by_cases hi : i = t.length + 1
  · rw [if_pos hi] at ha
    cases ha
    by_cases hj : j = t.length + 1
    · rw [hi, hj]
    rw [if_neg hj] at hb
    rcases hnew with harray | habsent
    · rw [hbody] at harray
      cases harray
    · rw [habsent b (mem_of_getObject hb)] at hsame
      cases hsame
  · rw [if_neg hi] at ha
    by_cases hj : j = t.length + 1
    · rw [if_pos hj] at hb
      cases hb
      rw [hold ha hbody] at hsame
      cases hsame
    · rw [if_neg hj] at hb
      exact h i j a b ha hb hbody hsame

/-- The entry can take the place of the other: both are arrays, or they say the same. -/
def Object.Alike (o o' : Object) : Prop :=
  o.body.isArray = true ∧ o'.body.isArray = true ∨
    o.body.isArray = false ∧ o.body ≠ .opaqueObject ∧ o'.body = o.body

variable {o' : Object} {body : Body}

theorem Object.Alike.same {x : Object} (h : Object.Alike o o') (hx : x.body.isArray = false) :
    Object.same x o' = Object.same x o := by
  rcases h with ⟨ho, ho'⟩ | ⟨-, hplain, hbody⟩
  · rw [same_array_right hx ho, same_array_right hx ho']
  · rw [same_comm x, same_comm x, same_congr hbody hplain]

variable {i : Nat}

theorem Tidy.set (h : Tidy t) (hget : getObject t (i + 1) = some o)
    (halike : Object.Alike o o') : Tidy (t.set i o') := by
  intro p q a b ha hb hbody hsame
  -- the entry that stood in the place of each of the two
  have hentry {p : Nat} {a : Object} (ha : getObject (t.set i o') p = some a) :
      getObject t p = some a ∨ p = i + 1 ∧ a = o' := by
    rw [getObject_set] at ha
    split at ha
    · rename_i hp
      exact .inr ⟨hp.1, (some.inj ha).symm⟩
    · exact .inl ha
  have hright {x : Object} (hx : getObject t p = some x) (hxa : x.body.isArray = false)
      (hxb : Object.same x b) : p = q := by
    rcases hentry hb with hb | ⟨rfl, rfl⟩
    · exact h p q x b hx hb hxa hxb
    · rw [halike.same hxa] at hxb
      exact h p _ x o hx hget hxa hxb
  rcases hentry ha with ha | ⟨rfl, rfl⟩
  · exact hright ha hbody hsame
  rcases halike with ⟨-, harray⟩ | ⟨hoa, hplain, hob⟩
  · rw [hbody] at harray
    cases harray
  · rw [Object.same_congr hob hplain] at hsame
    exact hright hget hoa hsame

theorem Keeps.trans (first : Keeps t t') (second : Keeps t' t'') : Keeps t t'' where
  length_le := first.length_le.trans second.length_le
  kept handle o h hbody := second.kept handle o (first.kept handle o h hbody) hbody
  tidy h := second.tidy (first.tidy h)

theorem Keeps.append (hnew : o.body.isArray ∨ ∀ e ∈ t, Object.same o e = false) :
    Keeps t (t ++ [o]) where
  length_le := by simp
  kept _ _ h _ := getObject_append_of_some h o
  tidy h := h.append hnew

theorem Carries.refl (t : Objects) : Carries t t where
  length_le := le_rfl
  kept _ _ h _ := h
  tidy h := h
  opaques _ _ h := h

theorem Carries.trans (first : Carries t t') (second : Carries t' t'') : Carries t t'' where
  toKeeps := first.toKeeps.trans second.toKeeps
  opaques handle klass h := first.opaques handle klass (second.opaques handle klass h)

theorem Carries.append (hnew : o.body.isArray ∨ ∀ e ∈ t, Object.same o e = false)
    (hplain : o.body ≠ .opaqueObject) : Carries t (t ++ [o]) where
  toKeeps := .append hnew
  opaques handle klass h := by
    rw [getObject_append] at h
    split at h
    · cases h
      exact absurd rfl hplain
    · exact h

/-- An entry of the table is replaced; one that was there before has to be an array. -/
theorem Carries.set (h : Carries t t')
    (hget : getObject t' (i + 1) = some o) (halike : Object.Alike o o')
    (hold : i < t.length → o.body.isArray) : Carries t (t'.set i o') where
  length_le := by
    rw [length_set]
    exact h.length_le
  kept handle x hx hbody := by
    have hx' := h.kept handle x hx hbody
    rw [getObject_set]
    split
    · rename_i hhere
      obtain ⟨rfl, -⟩ := hhere
      rw [hget] at hx'
      cases hx'
      have hlt : i < t.length := by
        by_contra hge
        rw [getObject_of_length_lt (Nat.lt_succ_of_le (not_lt.mp hge))] at hx
        cases hx
      rw [hold hlt] at hbody
      cases hbody
    · exact hx'
  tidy ht := (h.tidy ht).set hget halike
  opaques handle klass hx := by
    rw [getObject_set] at hx
    split at hx
    · have hplain := congrArg Object.body (some.inj hx)
      rcases halike with ⟨-, harray⟩ | ⟨-, hne, hbody⟩
      · rw [hplain] at harray
        cases harray
      · exact absurd (hbody.symm.trans hplain) hne
    · exact h.opaques handle klass hx

def bodyAt (t : Objects) (handle : Nat) : Option Body := (getObject t handle).map Object.body

theorem Keeps.bodyAt (h : Keeps t t') (hbody : body.isArray = false)
    (hat : bodyAt t handle = some body) : Jvm.bodyAt t' handle = some body := by
  obtain ⟨o, hget, rfl⟩ := map_eq_some_iff.mp hat
  rw [Jvm.bodyAt, h.kept handle o hget hbody]
  rfl

theorem Keeps.className (h : Keeps t t')
    (hname : className t klass = some name) : className t' klass = some name := by
  obtain ⟨k, hget⟩ := getObject_of_className hname
  rw [Jvm.className, h.kept klass _ hget rfl]

theorem le_length_of_bodyAt (h : bodyAt t handle = some body) : handle ≤ t.length := by
  by_contra hlt
  rw [bodyAt, getObject_of_length_lt (not_le.mp hlt)] at h
  cases h

theorem getObject_succ (t : Objects) (i : Nat) : getObject t (i + 1) = t[i]? := rfl

theorem bodyAt_append (t : Objects) (o : Object) :
    Jvm.bodyAt (t ++ [o]) (t.length + 1) = some o.body := by
  rw [bodyAt, getObject_append, if_pos rfl]
  rfl

variable {needle : Object}

theorem Object.body_of_same (harray : needle.body.isArray = false)
    (h : Object.same needle o) : o.body = needle.body := by
  obtain ⟨k, x⟩ := needle
  obtain ⟨k', y⟩ := o
  cases x <;> cases y <;> simp_all [same, Body.isArray]

/-- **Interning an entry that is neither an array nor an opaque object.** -/
theorem interned_carries (harray : needle.body.isArray = false)
    (hplain : needle.body ≠ .opaqueObject) (h : Interned Object.same t needle i t') :
    Carries t t' ∧ Jvm.bodyAt t' (i + 1) = some needle.body := by
  cases h with
  | found hget hsame =>
    refine ⟨.refl t, ?_⟩
    rw [bodyAt, getObject_succ, hget, map_some, Object.body_of_same harray hsame]
  | added habsent => exact ⟨.append (.inr habsent) hplain, bodyAt_append t needle⟩

theorem makeClass_carries (h : makeClass t name = some (klass, t')) :
    Carries t t' ∧ Jvm.bodyAt t' klass = some (.klass (cstrReplace true name)) := by
  rw [makeClass] at h
  split at h
  · cases h
  obtain ⟨⟨i, table⟩, hintern, heq⟩ := map_eq_some_iff.mp h
  cases heq
  exact interned_carries rfl (by simp) (intern_spec hintern)

/-- **Adding an object that is neither an array nor opaque.** -/
theorem addObjectIfNotThere_carries (harray : needle.body.isArray = false)
    (hplain : needle.body ≠ .opaqueObject) (h : addObjectIfNotThere t needle = some (handle, t')) :
    Carries t t' ∧ Jvm.bodyAt t' handle = some needle.body := by
  obtain ⟨⟨i, table⟩, hintern, h⟩ := bind_eq_some_iff.mp h
  obtain ⟨hcarries, hat⟩ := interned_carries harray hplain (intern_spec hintern)
  simp only at h
  split at h
  · cases h
    exact ⟨hcarries, hat⟩
  rename_i hnew
  obtain ⟨name, -, h⟩ := bind_eq_some_iff.mp h
  obtain ⟨⟨klass, table'⟩, hmake, h⟩ := bind_eq_some_iff.mp h
  obtain ⟨rfl, rfl⟩ : i + 1 = handle ∧
      table'.set i { needle with thisKlass := klass } = t' := by simpa using h
  have hclass := (makeClass_carries hmake).1
  obtain ⟨o, hget, hbody⟩ := map_eq_some_iff.mp (hclass.bodyAt harray hat)
  have halike : Object.Alike o { needle with thisKlass := klass } :=
    .inr ⟨hbody ▸ harray, hbody ▸ hplain, hbody.symm⟩
  refine ⟨(hcarries.trans hclass).set hget halike fun hlt => absurd (.inl hlt) hnew, ?_⟩
  have hlt : i < table'.length := (List.getElem?_eq_some_iff.mp hget).1
  rw [bodyAt, getObject_set, if_pos ⟨rfl, hlt⟩]
  rfl

theorem jvmNewArray_carries {size elementSz : Nat}
    (h : jvmNewArray t size elementSz name = some (handle, t')) :
    Carries t t' ∧ handle ≤ t'.length := by
  obtain ⟨⟨klass, table⟩, hmake, h⟩ := bind_eq_some_iff.mp h
  obtain ⟨i, rfl, hinterned⟩ := addObjectIfNotThere_interned (makeClass_spec hmake).2.2 h
  have hclass := (makeClass_carries hmake).1
  cases hinterned with
  | found hget hsame => exact ⟨hclass, (List.getElem?_eq_some_iff.mp hget).1⟩
  | added habsent =>
    exact ⟨hclass.trans (.append (.inl rfl) (by simp)), by simp⟩

theorem carries_write {a : JArray} (h : arrayAt t handle = some (klass, a))
    (b : JArray) : Carries t (t.set (handle - 1) ⟨klass, .array b⟩) := by
  have hget := getObject_of_arrayAt h
  rw [(handle_of_arrayAt h).1] at hget
  exact (Carries.refl t).set hget (.inl ⟨rfl, rfl⟩) fun _ => rfl

theorem allocClass_carries {this : Nat} (h : allocClass t klass = some (this, t')) :
    Carries t t' ∧ this ≠ 0 := by
  rw [allocClass] at h
  split at h
  · exact ⟨(makeClass_carries h).1, (makeClass_spec h).2.2⟩
  · rename_i hne
    cases h
    exact ⟨.refl t, hne⟩

/-- The object of a class that there is. -/
def HasObject (t : Objects) (klass : Nat) : Prop := ⟨klass, .opaqueObject⟩ ∈ t
  deriving Decidable

theorem Object.eq_of_same_opaque (h : Object.same ⟨klass, .opaqueObject⟩ o) :
    o = ⟨klass, .opaqueObject⟩ := by
  obtain ⟨k, body⟩ := o
  cases body <;> simp_all [same]

/-- What `AllocObject` can end in: the object of the class that there is, or a new one. -/
inductive Allocated (t : Objects) (this : Nat) : Nat → Objects → Prop
  | found {handle : Nat} {t' : Objects} (hcarries : Carries t t')
      (hget : getObject t handle = some ⟨this, .opaqueObject⟩) : Allocated t this handle t'
  | added {t₁ : Objects} (hcarries : Carries t t₁) (habsent : ¬ HasObject t this)
      (habsent' : ¬ HasObject t₁ this) :
      Allocated t this (t₁.length + 1) (t₁ ++ [⟨this, .opaqueObject⟩])

theorem getObject_of_mem (h : o ∈ t) : ∃ handle, getObject t handle = some o := by
  obtain ⟨i, hi⟩ := mem_iff_getElem?.mp h
  exact ⟨i + 1, hi⟩

theorem Keeps.hasObject (h : Keeps t t') (hobject : HasObject t klass) : HasObject t' klass := by
  obtain ⟨handle, hget⟩ := getObject_of_mem hobject
  exact mem_of_getObject (h.kept handle _ hget rfl)

theorem Allocated.keeps {this : Nat} (h : Allocated t this handle t') : Keeps t t' := by
  cases h with
  | found hcarries hget => exact hcarries.toKeeps
  | added hcarries habsent habsent' =>
    apply hcarries.toKeeps.trans
    apply Keeps.append (.inr fun e he => ?_)
    rw [← Bool.not_eq_true]
    intro hsame
    rw [Object.eq_of_same_opaque hsame] at he
    exact habsent' he

theorem jniAllocObject_spec (h : jniAllocObject t klass = some (handle, t')) :
    ∃ this t₁, allocClass t klass = some (this, t₁) ∧ Allocated t this handle t' := by
  obtain ⟨⟨this, t₁⟩, hclass, h⟩ := bind_eq_some_iff.mp h
  obtain ⟨hcarries, hne⟩ := allocClass_carries hclass
  obtain ⟨i, rfl, hinterned⟩ := addObjectIfNotThere_interned hne h
  refine ⟨this, t₁, hclass, ?_⟩
  cases hinterned with
  | found hget hsame =>
    rw [Object.eq_of_same_opaque hsame] at hget
    exact .found hcarries (hcarries.opaques _ this hget)
  | added habsent =>
    have hnone : ¬ HasObject t₁ this := by
      intro hobject
      have hdiff := habsent _ hobject
      simp [Object.same] at hdiff
    exact .added hcarries (fun hobject => hnone (hcarries.hasObject hobject)) hnone

theorem wrapMethod_carries {dlsym : List UInt8 → Bool} {found : Bool}
    (h : wrapMethod dlsym t handle = some (found, t')) : Carries t t' := by
  obtain ⟨⟨klass, name⟩, -, h⟩ := bind_eq_some_iff.mp h
  simp only at h
  split at h
  · cases h
    exact .refl t
  obtain ⟨⟨k, t₁⟩, hobject, h⟩ := bind_eq_some_iff.mp h
  have hfirst := (makeClass_carries hobject).1
  split at h
  · cases h
    exact hfirst
  · obtain ⟨⟨k', t₂⟩, hclass, h⟩ := bind_eq_some_iff.mp h
    cases h
    exact hfirst.trans (makeClass_carries hclass).1

end Table

/-! ## What a call can do -/

/-- What the handle that a call returns stands for, where that does not change. -/
def Call.denotes : Call → Option Body
  | .findClass name => some (.klass (cstrReplace true name))
  | .getMethodId klass name signature =>
    if klass = 0 then none else some (.method klass name signature)
  | .newString text => some (.string text)
  | _ => none

namespace VmCall

def denotes : VmCall → Option Body
  | .jni call => call.denotes
  | _ => none

/-- The class of the object that a call makes. -/
def allocates : VmCall → Option Nat
  | .jni (.allocObject klass) => some klass
  | .newObject klass => some klass
  | _ => none

/-- The field that a call sets. -/
def sets : VmCall → Option ((Nat × Nat) × List UInt8)
  | .setField object field value => some ((object, field), value)
  | _ => none

end VmCall

theorem Call.denotes_constant {call : Call} (h : call.denotes = some body) :
    body.isArray = false := by
  cases call with
  | findClass name =>
    cases h
    rfl
  | getMethodId klass name signature =>
    rw [Call.denotes] at h
    split at h
    · cases h
    · cases h
      rfl
  | newString text =>
    cases h
    rfl
  | _ => cases h

/-- A call that makes no object leaves a table that carries the old one, with what its handle
denotes. -/
theorem jni_carries {t : Objects} {call : Call} {world : World}
    (h : World.step ⟨t, []⟩ call = some world) (hne : VmCall.allocates (.jni call) = none) :
    Carries t world.objects ∧ answer t call ≤ world.objects.length ∧
      ∀ body, call.denotes = some body → bodyAt world.objects (answer t call) = some body := by
  have hsilent {t' : Objects} {a : Nat} (hcarries : Carries t t') (hbound : a ≤ t'.length)
      (hdenotes : call.denotes = none) : Carries t t' ∧ a ≤ t'.length ∧
        ∀ body, call.denotes = some body → bodyAt t' a = some body := by
    refine ⟨hcarries, hbound, fun body hbody => ?_⟩
    rw [hdenotes] at hbody
    cases hbody
  cases call with
  | findClass name =>
    obtain ⟨⟨k, t'⟩, hmake, rfl⟩ := map_eq_some_iff.mp h
    obtain ⟨hcarries, hat⟩ := makeClass_carries hmake
    rw [answer, hmake]
    refine ⟨hcarries, le_length_of_bodyAt hat, fun body hbody => ?_⟩
    cases hbody
    exact hat
  | allocObject klass => cases hne
  | getMethodId klass name signature =>
    rw [World.step] at h
    split at h
    · rename_i hzero
      cases h
      rw [answer, makeMethod, if_pos hzero]
      exact hsilent (.refl t) (Nat.zero_le _) (if_pos hzero)
    rename_i hzero
    obtain ⟨⟨k, t'⟩, hadd, rfl⟩ := map_eq_some_iff.mp h
    obtain ⟨hcarries, hat⟩ := addObjectIfNotThere_carries rfl (by simp) hadd
    rw [answer, makeMethod, if_neg hzero, hadd]
    refine ⟨hcarries, le_length_of_bodyAt hat, fun body hbody => ?_⟩
    rw [Call.denotes, if_neg hzero] at hbody
    cases hbody
    exact hat
  | newString text =>
    obtain ⟨⟨k, t'⟩, hadd, rfl⟩ := map_eq_some_iff.mp h
    obtain ⟨hcarries, hat⟩ := addObjectIfNotThere_carries rfl (by simp) hadd
    rw [answer, hadd]
    refine ⟨hcarries, le_length_of_bodyAt hat, fun body hbody => ?_⟩
    cases hbody
    exact hat
  | newArray _ _ | newObjectArray _ _ _ =>
    obtain ⟨⟨handle, t'⟩, hnew, rfl⟩ := map_eq_some_iff.mp h
    rw [answer, hnew]
    exact hsilent (jvmNewArray_carries hnew).1 (jvmNewArray_carries hnew).2 rfl
  | setObjectArrayElement _ _ _ | setArrayRegion _ _ _ _ | storeElements _ _ _ =>
    obtain rfl | ⟨array, klass, a, change, harray, rfl⟩ := World.step_stores rfl h
    · exact hsilent (.refl t) (Nat.zero_le _) rfl
    · exact hsilent (carries_write harray _) (Nat.zero_le _) rfl

namespace Vm

variable {dlsym : List UInt8 → Bool} {type : Nat → FieldType} {g g' : Vm} {call : VmCall}

/-- What a call can do: carry the table, allocate an object, or set a field. -/
inductive Outcome (dlsym : List UInt8 → Bool) (type : Nat → FieldType) (g : Vm) (call : VmCall) :
    Vm → Prop
  | carries {t : Objects} {a : Nat} (hcarries : Carries g.objects t) (hbound : a ≤ t.length)
      (hdenotes : ∀ body, call.denotes = some body → bodyAt t a = some body)
      (hnull : ∀ name signature, call = .jni (.getMethodId 0 name signature) → a = 0)
      (halloc : call.allocates = none) (hsets : call.sets = none) :
      Outcome dlsym type g call { g with objects := t, log := (call, a) :: g.log }
  | allocates {klass this handle : Nat} {t t₁ : Objects} (halloc : call.allocates = some klass)
      (hsets : call.sets = none) (hdenotes : call.denotes = none)
      (hclass : allocClass g.objects klass = some (this, t₁))
      (hallocated : Allocated g.objects this handle t) :
      Outcome dlsym type g call { g with objects := t, log := (call, handle) :: g.log }
  | sets {object field : Nat} {value : List UInt8} {found : Bool} {t : Objects}
      (hcall : call = .setField object field value) (hsize : value.length = (type field).size)
      (hwrap : wrapMethod dlsym g.objects field = some (found, t)) :
      Outcome dlsym type g call
        { objects := t
          fields :=
            if found then g.fields
            else BoundedMap.store fieldLimit (object, field)
              (value ++ List.replicate (8 - value.length) 0) g.fields
          log := (call, 0) :: g.log }

theorem step_outcome (h : g.step dlsym type call = some g') : Outcome dlsym type g call g' := by
  cases call with
  | jni call =>
    obtain ⟨world, hstep, h⟩ := bind_eq_some_iff.mp h
    cases h
    cases halloc : VmCall.allocates (.jni call) with
    | none =>
      obtain ⟨hcarries, hbound, hdenotes⟩ := jni_carries hstep halloc
      refine .carries hcarries hbound hdenotes (fun name signature heq => ?_) halloc rfl
      obtain rfl := VmCall.jni.inj heq
      rw [answer, makeMethod, if_pos rfl]
    | some klass =>
      obtain ⟨klass', rfl⟩ : ∃ klass', call = .allocObject klass' := by
        cases call <;> first | exact ⟨_, rfl⟩ | cases halloc
      obtain ⟨⟨handle, t⟩, hnew, rfl⟩ := map_eq_some_iff.mp hstep
      obtain ⟨this, t₁, hclass, hallocated⟩ := jniAllocObject_spec hnew
      have hanswer : answer g.objects (.allocObject klass') = handle := by
        rw [answer, hnew]
        rfl
      rw [hanswer]
      exact .allocates rfl rfl rfl hclass hallocated
  | newObject klass =>
    obtain ⟨⟨handle, t⟩, hnew, h⟩ := bind_eq_some_iff.mp h
    cases h
    obtain ⟨this, t₁, hclass, hallocated⟩ := jniAllocObject_spec hnew
    exact .allocates rfl rfl rfl hclass hallocated
  | getField object field =>
    rw [step] at h
    split at h
    · cases h
    obtain ⟨⟨found, t⟩, hwrap, rfl⟩ := map_eq_some_iff.mp h
    refine .carries (wrapMethod_carries hwrap) (Nat.zero_le _) (fun body hbody => ?_)
      (fun _ _ heq => ?_) rfl rfl
    · cases hbody
    · cases heq
  | setField object field value =>
    rw [step] at h
    split at h
    · cases h
    · rename_i hnot
      rw [not_or, not_or, not_not] at hnot
      obtain ⟨⟨found, t⟩, hwrap, rfl⟩ := map_eq_some_iff.mp h
      exact .sets rfl hnot.2.2 hwrap

end Vm

end Lunaria.Jvm
