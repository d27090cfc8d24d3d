/-
# Objects and their fields

An object without contents is interned like a string: it is looked up by its class, so the second
object of a class is the first. And a pair of an object and a field that comes when 1024 pairs are
kept is dropped. Along a run in which no class is asked for a second object and no value is dropped,
objects are distinct and fields keep what was set last.
-/

import Lunaria.Jvm.Calls

namespace Lunaria.Jvm

open Lib Elf List Option

/-! ## What a guest may expect -/

/-- Whether the host has a function for a field. -/
def hasAccessor (dlsym : List UInt8 → Bool) (objects : Objects) (field : Nat) : Bool :=
  match methodName objects field with
  | some (klass, name) =>
    dlsym (formSymbol klass name) || dlsym (formSymbol (cstr "java.lang.Object") name) ||
      dlsym (formSymbol (cstr "java.lang.Class") name)
  | none => false

/-- The object that `AllocObject` would make is there. -/
def Taken (objects : Objects) (klass : Nat) : Prop :=
  ∃ this ∈ (allocClass objects klass).map Prod.fst, HasObject objects this
  deriving Decidable

/-- Every object that was made has a handle that no earlier call returned. -/
def Distinct : List (VmCall × Nat) → Prop
  | [] => True
  | (call, handle) :: log =>
    (call.allocates.isSome = true → handle ∉ log.map Prod.snd) ∧ Distinct log

/-- The value that was set last. -/
def latest (log : List (VmCall × Nat)) (object field : Nat) : Option (List UInt8) :=
  (log.filterMap fun entry => entry.1.sets).lookup (object, field)

namespace Vm

/-- What a field should have: the value that was set last, or the default. -/
def expected (type : Nat → FieldType) (g : Vm) (object field : Nat) : List UInt8 :=
  (latest g.log object field).getD (List.replicate (type field).size 0)

/-- **Objects are distinct, and their fields have what was set last.** -/
structure Faithful (dlsym : List UInt8 → Bool) (type : Nat → FieldType) (g : Vm) : Prop where
  distinct : Distinct g.log
  reads : ∀ object field, hasAccessor dlsym g.objects field = false →
    g.read type object field = g.expected type object field

/-- The class has no object yet; there is room for the field, or the value is the default. -/
def Served (dlsym : List UInt8 → Bool) (g : Vm) (call : VmCall) : Prop :=
  (∀ klass ∈ call.allocates, ¬ Taken g.objects klass) ∧
    ∀ set ∈ call.sets, hasAccessor dlsym g.objects set.1.2 = true ∨
      BoundedMap.Fits fieldLimit set.1 g.fields ∨ set.2 = List.replicate set.2.length 0

end Vm

instance servedDecidable (dlsym : List UInt8 → Bool) (g : Vm) (call : VmCall) :
    Decidable (g.Served dlsym call) :=
  inferInstanceAs (Decidable (_ ∧ ∀ set ∈ call.sets, _ ∨ BoundedMap.Fits _ _ _ ∨ _))

/-! ## The host's accessors -/

section Accessors

variable {dlsym : List UInt8 → Bool} {t t' : Objects} {field : Nat}

theorem Keeps.methodName_eq (h : Keeps t t') {name : List UInt8 × List UInt8}
    (hname : methodName t field = some name) : methodName t' field = some name := by
  rw [methodName] at hname
  split at hname
  · rename_i k klass n s hget
    obtain ⟨hne, hname⟩ := ite_none_left_eq_some.mp hname
    obtain ⟨c, hclass, rfl⟩ := map_eq_some_iff.mp hname
    rw [methodName, h.kept field _ hget rfl]
    simp [if_neg hne, h.className hclass]
  · cases hname

theorem Keeps.hasAccessor_eq (h : Keeps t t') (hname : (methodName t field).isSome) :
    hasAccessor dlsym t' field = hasAccessor dlsym t field := by
  obtain ⟨name, hname⟩ := isSome_iff_exists.mp hname
  rw [hasAccessor, hasAccessor, hname, h.methodName_eq hname]

theorem Keeps.hasAccessor_false (h : Keeps t t') (hnone : hasAccessor dlsym t' field = false) :
    hasAccessor dlsym t field = false := by
  cases hname : methodName t field with
  | none => rw [hasAccessor, hname]
  | some name =>
    rw [← h.hasAccessor_eq (by rw [hname]; rfl)]
    exact hnone

theorem wrapMethod_found {found : Bool} (h : wrapMethod dlsym t field = some (found, t')) :
    (methodName t field).isSome ∧ hasAccessor dlsym t field = found := by
  obtain ⟨⟨klass, name⟩, hname, h⟩ := bind_eq_some_iff.mp h
  refine ⟨by rw [hname]; rfl, ?_⟩
  rw [hasAccessor, hname]
  simp only at h ⊢
  split at h
  · rename_i hown
    cases h
    rw [hown, Bool.true_or, Bool.true_or]
  rename_i hown
  obtain ⟨⟨k, t₁⟩, -, h⟩ := bind_eq_some_iff.mp h
  split at h
  · rename_i hobject
    cases h
    rw [hobject, Bool.or_true, Bool.true_or]
  rename_i hobject
  obtain ⟨⟨k', t₂⟩, -, h⟩ := bind_eq_some_iff.mp h
  cases h
  rw [Bool.eq_false_of_not_eq_true hown, Bool.eq_false_of_not_eq_true hobject, Bool.false_or,
    Bool.false_or]

end Accessors

/-! ## One call -/

namespace Vm

variable {dlsym : List UInt8 → Bool} {type : Nat → FieldType} {g g' : Vm} {call : VmCall}

/-- Along a faithful run every object without contents was made by a call, and every handle the
guest knows is an entry. -/
structure Sound (dlsym : List UInt8 → Bool) (type : Nat → FieldType) (g : Vm) : Prop
    extends Faithful dlsym type g where
  reported : ∀ handle ∈ g.log.map Prod.snd, handle ≤ g.objects.length
  made : ∀ handle klass, getObject g.objects handle = some ⟨klass, .opaqueObject⟩ →
    handle ∈ g.log.map Prod.snd

theorem sound_initial : Sound dlsym type initial where
  distinct := trivial
  reads _ _ _ := rfl
  reported handle h := by cases h
  made handle klass h := by
    have hmem := mem_of_getObject h
    rw [initial, initialObjects, mem_singleton] at hmem
    cases hmem

theorem expected_of_sets_none (hsets : call.sets = none) (t : Objects)
    (fields : List ((Nat × Nat) × List UInt8)) (a object field : Nat) :
    expected type ⟨t, fields, (call, a) :: g.log⟩ object field = g.expected type object field := by
  simp [expected, latest, hsets]

variable {t : Objects}

theorem Sound.reported_cons (h : Sound dlsym type g) {a : Nat}
    (hkeeps : g.objects.length ≤ t.length) (hbound : a ≤ t.length) :
    ∀ handle ∈ ((call, a) :: g.log).map Prod.snd, handle ≤ t.length := by
  intro handle hmem
  rcases mem_cons.mp hmem with rfl | hold
  · exact hbound
  · exact (h.reported handle hold).trans hkeeps

theorem Sound.carry (h : Sound dlsym type g) {a : Nat}
    (hcarries : Carries g.objects t) (hbound : a ≤ t.length) (halloc : call.allocates = none)
    (hsets : call.sets = none) :
    Sound dlsym type { g with objects := t, log := (call, a) :: g.log } where
  distinct := by
    refine ⟨fun hsome => ?_, h.distinct⟩
    rw [halloc] at hsome
    cases hsome
  reads object field hnone := by
    rw [expected_of_sets_none hsets]
    exact h.reads object field (hcarries.toKeeps.hasAccessor_false hnone)
  reported := h.reported_cons hcarries.length_le hbound
  made handle klass hget :=
    mem_cons_of_mem a (h.made handle klass (hcarries.opaques handle klass hget))

/-- A call that makes an object: all is well exactly when its class had none. -/
theorem Sound.allocate (h : Sound dlsym type g) {klass this handle : Nat} {t₁ : Objects}
    (halloc : call.allocates = some klass) (hsets : call.sets = none)
    (hclass : allocClass g.objects klass = some (this, t₁))
    (hallocated : Allocated g.objects this handle t) :
    (Distinct ((call, handle) :: g.log) ↔ ¬ Taken g.objects klass) ∧
      (Distinct ((call, handle) :: g.log) →
        Sound dlsym type { g with objects := t, log := (call, handle) :: g.log }) := by
  have htaken : Taken g.objects klass ↔ HasObject g.objects this := by simp [Taken, hclass]
  have hdistinct : Distinct ((call, handle) :: g.log) ↔ handle ∉ g.log.map Prod.snd := by
    rw [Distinct, halloc]
    exact ⟨fun hd => hd.1 rfl, fun hfresh => ⟨fun _ => hfresh, h.distinct⟩⟩
  rw [htaken]
  cases hallocated with
  | found hcarries hget =>
    have hnot : ¬ Distinct ((call, handle) :: g.log) := by
      rw [hdistinct, not_not]
      exact h.made handle this hget
    exact ⟨⟨fun hd => absurd hd hnot, absurd (mem_of_getObject hget)⟩, fun hd => absurd hd hnot⟩
  | @added t₂ hcarries habsent habsent' =>
    have hfresh : t₂.length + 1 ∉ g.log.map Prod.snd := by
      intro hmem
      have hle := (h.reported _ hmem).trans hcarries.length_le
      omega
    refine ⟨iff_of_true (hdistinct.mpr hfresh) habsent, fun hd => ?_⟩
    have hkeeps := (Allocated.added hcarries habsent habsent').keeps
    exact {
      distinct := hd
      reads := by
        intro object field hnone
        rw [expected_of_sets_none hsets]
        exact h.reads object field (hkeeps.hasAccessor_false hnone)
      reported := h.reported_cons hkeeps.length_le (by simp)
      made := by
        intro handle' klass' hget
        rw [getObject_append] at hget
        split at hget
        · rename_i heq
          rw [heq]
          exact mem_cons_self
        · exact mem_cons_of_mem _ (h.made handle' klass' (hcarries.opaques _ _ hget)) }

variable {object field : Nat}

/-- What is read after a field was stored: the value where it fits, and nothing changes elsewhere.
-/
theorem read_store {value : List UInt8}
    (hsize : value.length = (type field).size) (t : Objects) (log : List (VmCall × Nat))
    (object' field' : Nat) :
    read type ⟨t, BoundedMap.store fieldLimit (object, field)
        (value ++ replicate (8 - value.length) 0) g.fields, log⟩ object' field' =
      if (object', field') = (object, field) ∧ BoundedMap.Fits fieldLimit (object, field) g.fields
      then value else g.read type object' field' := by
  by_cases hkey : (object', field') = (object, field)
  · by_cases hfits : BoundedMap.Fits fieldLimit (object, field) g.fields
    · cases hkey
      rw [if_pos ⟨rfl, hfits⟩]
      simp only [read, BoundedMap.lookup_store_self hfits]
      rw [← hsize, take_left]
    · rw [if_neg fun h => hfits h.2, BoundedMap.store_of_not_fits hfits]
      rfl
  · rw [if_neg fun h => hkey h.1]
    simp [read, BoundedMap.lookup_store_of_ne fieldLimit hkey]

theorem expected_set (t : Objects) (fields : List ((Nat × Nat) × List UInt8))
    (object field : Nat) (value : List UInt8) (a object' field' : Nat) :
    expected type ⟨t, fields, (.setField object field value, a) :: g.log⟩ object' field' =
      if (object', field') = (object, field) then value else g.expected type object' field' := by
  simp only [expected, latest, filterMap_cons, VmCall.sets, lookup_cons]
  by_cases hkey : (object', field') = (object, field)
  · rw [if_pos hkey, beq_iff_eq.mpr hkey]
    rfl
  · rw [if_neg hkey, beq_eq_false_iff_ne.mpr hkey]

theorem read_of_not_fits
    (h : ¬ BoundedMap.Fits fieldLimit (object, field) g.fields) :
    g.read type object field = replicate (type field).size 0 := by
  rw [BoundedMap.Fits, not_or, not_isSome_iff_eq_none] at h
  rw [read, h.1]

/-- A call that sets a field: all is well exactly when the host serves it, there is room, or the
value is the default. -/
theorem Sound.set (h : Sound dlsym type g) {value : List UInt8} {found : Bool}
    (hsize : value.length = (type field).size)
    (hwrap : wrapMethod dlsym g.objects field = some (found, t)) :
    Faithful dlsym type
        { objects := t
          fields :=
            if found then g.fields
            else BoundedMap.store fieldLimit (object, field)
              (value ++ replicate (8 - value.length) 0) g.fields
          log := (.setField object field value, 0) :: g.log } ↔
      hasAccessor dlsym g.objects field ∨ BoundedMap.Fits fieldLimit (object, field) g.fields ∨
          value = replicate value.length 0 := by
  have hkeeps := (wrapMethod_carries hwrap).toKeeps
  obtain ⟨hname, hfound⟩ := wrapMethod_found hwrap
  have hdistinct : Distinct ((.setField object field value, 0) :: g.log) :=
    ⟨fun hsome => (by cases hsome), h.distinct⟩
  cases found with
  | true =>
    refine iff_of_true ⟨hdistinct, fun object' field' hnone => ?_⟩ (.inl hfound)
    have hkey : (object', field') ≠ (object, field) := by
      rintro heq
      cases heq
      rw [hkeeps.hasAccessor_eq hname, hfound] at hnone
      cases hnone
    rw [expected_set, if_neg hkey]
    exact h.reads object' field' (hkeeps.hasAccessor_false hnone)
  | false =>
    rw [hfound]
    simp only [Bool.false_eq_true, if_false, false_or]
    constructor
    · intro hfaithful
      by_contra hnot
      rw [not_or] at hnot
      have hread := hfaithful.reads object field ((hkeeps.hasAccessor_eq hname).trans hfound)
      rw [read_store hsize, if_neg fun hfits => hnot.1 hfits.2, expected_set, if_pos rfl,
        read_of_not_fits hnot.1, ← hsize] at hread
      exact hnot.2 hread.symm
    · intro hserved
      refine ⟨hdistinct, fun object' field' hnone => ?_⟩
      rw [read_store hsize, expected_set]
      by_cases hkey : (object', field') = (object, field)
      · by_cases hfits : BoundedMap.Fits fieldLimit (object, field) g.fields
        · rw [if_pos ⟨hkey, hfits⟩, if_pos hkey]
        · rw [if_neg fun hboth => hfits hboth.2, if_pos hkey, hserved.resolve_left hfits]
          cases hkey
          rw [read_of_not_fits hfits, hsize]
      · rw [if_neg fun hboth => hkey hboth.1, if_neg hkey]
        exact h.reads object' field' (hkeeps.hasAccessor_false hnone)

/-- **One call.** After it all is well exactly when it was served, and then the tables are sound. -/
theorem Sound.step (h : Sound dlsym type g) (hstep : g.step dlsym type call = some g') :
    (Faithful dlsym type g' ↔ g.Served dlsym call) ∧
      (Faithful dlsym type g' → Sound dlsym type g') := by
  cases step_outcome hstep with
  | carries hcarries hbound hdenotes hnull halloc hsets =>
    have hsound := h.carry hcarries hbound halloc hsets
    refine ⟨iff_of_true hsound.toFaithful ?_, fun _ => hsound⟩
    simp [Served, halloc, hsets]
  | @allocates klass this handle t t₁ halloc hsets hdenotes hclass hallocated =>
    obtain ⟨hiff, hsound⟩ := h.allocate halloc hsets hclass hallocated
    have hserved : g.Served dlsym call ↔ ¬ Taken g.objects klass := by simp [Served, halloc, hsets]
    rw [hserved, ← hiff]
    exact ⟨⟨fun hf => hf.distinct, fun hd => (hsound hd).toFaithful⟩, fun hf => hsound hf.distinct⟩
  | sets hcall hsize hwrap =>
    subst hcall
    have hcarries := wrapMethod_carries hwrap
    constructor
    · rw [h.set hsize hwrap]
      simp [Served, VmCall.allocates, VmCall.sets]
    intro hfaithful
    exact {
      toFaithful := hfaithful
      reported := h.reported_cons hcarries.length_le (Nat.zero_le _)
      made := fun handle klass hget =>
        mem_cons_of_mem 0 (h.made handle klass (hcarries.opaques handle klass hget)) }

end Vm

/-! ## Whole runs -/

/-- **Objects are distinct and fields keep their values exactly along the served runs.** -/
theorem objects_faithful_iff_served {dlsym : List UInt8 → Bool} {type : Nat → FieldType}
    {calls : List VmCall}
    (hreturn : run (tryStep (Vm.step dlsym type)) (some .initial) calls ≠ none) :
    (∀ n g, run (tryStep (Vm.step dlsym type)) (some .initial) (calls.take n) = some g →
        g.Faithful dlsym type) ↔
      StepsMeet (whileThere (Vm.Served dlsym)) (tryStep (Vm.step dlsym type)) (some .initial)
        calls :=
  prefixes_iff_stepsMeet (fun _ h => h.toFaithful) (fun _ _ _ h hstep => h.step hstep)
    Vm.sound_initial hreturn

/-- An object, a field of it that is set twice, and an object of another class. -/
def twoClasses : List VmCall :=
  [.jni (.findClass (cstr "a/B")), .newObject 2, .jni (.getMethodId 2 (cstr "x") (cstr "I")),
    .setField 3 4 [7, 0, 0, 0], .setField 3 4 [8, 0, 0, 0], .jni (.allocObject 0)]

theorem twoClasses_faithful :
    run (tryStep (Vm.step (fun _ => false) fun _ => .prim .int)) (some .initial) twoClasses ≠ none ∧
      ∀ n g, run (tryStep (Vm.step (fun _ => false) fun _ => .prim .int)) (some .initial)
        (twoClasses.take n) = some g → g.Faithful (fun _ => false) fun _ => .prim .int := by
  refine (and_iff_left_of_imp fun hreturn => ?_).mpr (by decide +kernel)
  exact (objects_faithful_iff_served hreturn).mpr (by decide +kernel)

/-- Two objects of one class, and a field of the first. -/
def oneClass : List VmCall :=
  [.jni (.findClass (cstr "a/B")), .newObject 2, .newObject 2,
    .jni (.getMethodId 2 (cstr "x") (cstr "I")), .setField 3 4 [7, 0, 0, 0]]

/-- The second object is the first. -/
theorem not_faithful_oneClass :
    ∃ g, run (tryStep (Vm.step (fun _ => false) fun _ => .prim .int)) (some .initial) oneClass =
        some g ∧ ¬ g.Faithful (fun _ => false) (fun _ => .prim .int) ∧
      g.log.map Prod.snd = [0, 4, 3, 3, 2] := by
  refine ⟨_, rfl, fun hfaithful => ?_, by decide +kernel⟩
  exact absurd hfaithful.distinct.2.2.1 (by decide +kernel)

end Lunaria.Jvm
