/-
# The registry of native methods

Native methods are kept in 255 slots, and every loop over them ends at the first slot without a
function. A method that is registered again goes behind the one that is found first, and taking a
class out of the registry leaves holes that hide whatever stands behind them. Lookups answer with
the latest function exactly as long as no pair is given a second function and no class is taken out
from before another.

The classes are those of a table that a run of the pseudo-JVM has made, so a class handle and a
class name say the same.
-/

import Lunaria.Jvm.Interning
import Lunaria.Lib.SlotTable

namespace Lunaria.Jvm

open Lib Elf List Option SlotTable

/-! ## The calls -/

structure NativeMethod where
  name : List UInt8
  signature : List UInt8
  fnPtr : Nat

/-- `jvm_native_method`. An empty name is a null pointer, and so is the function zero. -/
structure NativeSlot where
  klass : Nat
  name : List UInt8
  signature : List UInt8
  function : Nat
  deriving DecidableEq

namespace NativeSlot

def blank : NativeSlot := ⟨0, [], [], 0⟩

def used (slot : NativeSlot) : Bool := slot.function != 0

theorem used_blank : used blank = false := rfl

def key (slot : NativeSlot) : Nat × List UInt8 := (slot.klass, slot.name)

def ofClass (klass : Nat) (slot : NativeSlot) : Bool := slot.klass == klass

end NativeSlot

/-- A handle of a class. -/
abbrev ClassHandle (objects : Objects) : Type :=
  { handle : Nat // (className objects handle).isSome = true }

def registerNativeMethod (klass : Nat) (slots : List NativeSlot) (method : NativeMethod) :
    Option (List NativeSlot) :=
  SlotTable.place NativeSlot.used ⟨klass, method.name, method.signature, method.fnPtr⟩ slots

def registerNatives (klass : Nat) (slots : List NativeSlot) (methods : List NativeMethod) :
    Option (List NativeSlot) :=
  methods.foldlM (registerNativeMethod klass) slots

def unregisterNatives (klass : Nat) (slots : List NativeSlot) : List NativeSlot :=
  SlotTable.clear NativeSlot.used .blank (NativeSlot.ofClass klass) slots

/-- `jvm_get_native_method`; comparing with a null pointer does not return. -/
def getNativeMethod (objects : Objects) (klass method : List UInt8) : List NativeSlot → Option Nat
  | [] => some 0
  | slot :: slots =>
    if slot.used then
      match className objects slot.klass with
      | none => none
      | some name =>
        if name = klass then
          if slot.name = [] then none
          else if slot.name = method then some slot.function
          else getNativeMethod objects klass method slots
        else getNativeMethod objects klass method slots
    else some 0

/-- The calls, on classes. -/
inductive NativeCall (objects : Objects)
  | registerNatives (klass : ClassHandle objects) (methods : List NativeMethod)
  | unregisterNatives (klass : ClassHandle objects)

/-- The slots, and every call with the slots it found, the latest first. -/
structure Registry (objects : Objects) where
  slots : List NativeSlot
  history : List (NativeCall objects × List NativeSlot)

namespace Registry

variable {objects : Objects}

/-- `ARRAY_SIZE(jvm->methods)` slots without a function. -/
def initial (objects : Objects) : Registry objects := ⟨List.replicate 255 .blank, []⟩

def step (r : Registry objects) : NativeCall objects → Option (Registry objects)
  | .registerNatives klass methods =>
    (Jvm.registerNatives klass r.slots methods).map fun slots =>
      ⟨slots, (.registerNatives klass methods, r.slots) :: r.history⟩
  | .unregisterNatives klass =>
    some ⟨Jvm.unregisterNatives klass r.slots, (.unregisterNatives klass, r.slots) :: r.history⟩

end Registry

/-! ## What a lookup should find -/

/-- The functions that a table of methods gives to a name, in order. -/
def given (methods : List NativeMethod) (name : List UInt8) : List Nat :=
  (methods.filter fun method => method.name = name).map NativeMethod.fnPtr

/-- The function of a pair after a call, from the one before. -/
def NativeCall.update {objects : Objects} (klass name : List UInt8) (function : Nat) :
    NativeCall objects → Nat
  | .registerNatives handle methods =>
    if className objects handle = some klass then (given methods name).getLastD function
    else function
  | .unregisterNatives handle => if className objects handle = some klass then 0 else function

namespace Registry

variable {objects : Objects}

/-- The function that was registered last and not taken out since. -/
def wanted (r : Registry objects) (klass name : List UInt8) : Nat :=
  r.history.foldr (fun entry function => entry.1.update klass name function) 0

/-- **Lookups answer with the latest function**, and taking out a class removes its entries and no
others. -/
structure Faithful (r : Registry objects) : Prop where
  lookups : ∀ klass name,
    getNativeMethod objects klass name r.slots = some (r.wanted klass name)
  removes : ∀ klass old earlier, r.history = (.unregisterNatives klass, old) :: earlier →
    SlotTable.entries NativeSlot.used r.slots =
      (SlotTable.entries NativeSlot.used old).filter fun slot => !slot.ofClass klass

end Registry

/-- The function under a class handle and a name. -/
def functionAt (slots : List NativeSlot) (key : Nat × List UInt8) : Nat :=
  (((SlotTable.visible NativeSlot.used slots).find? fun slot => slot.key = key).map
    NativeSlot.function).getD 0

/-- A null pointer gives way to the next function. -/
def settle (function next : Nat) : Nat := if function = 0 then next else function

/-- What a call must meet. A method has a name, and the function the table gives it last is the
first one that is not null. What is not of the class taken out has an entry before those of that
class, of which none stands behind a hole. -/
def Registry.Served {objects : Objects} (r : Registry objects) : NativeCall objects → Prop
  | .registerNatives klass methods =>
    ∀ method ∈ methods, (method.name = [] → method.fnPtr = 0) ∧
      (given methods method.name).foldl settle (functionAt r.slots (klass, method.name)) =
        (given methods method.name).getLastD 0
  | .unregisterNatives klass =>
    SlotTable.Repeated NativeSlot.used NativeSlot.key (NativeSlot.ofClass klass) r.slots ∧
      ∀ slot ∈ r.slots.dropWhile NativeSlot.used, slot.used = true → slot.ofClass klass = false

instance nativesServedDecidable {objects : Objects} (r : Registry objects) :
    ∀ call, Decidable (r.Served call)
  | .registerNatives _ methods =>
    inferInstanceAs (Decidable (∀ method ∈ methods, (method.name = [] → method.fnPtr = 0) ∧ _))
  | .unregisterNatives _ =>
    inferInstanceAs (Decidable (_ ∧ ∀ slot ∈ r.slots.dropWhile NativeSlot.used,
      slot.used = true → _))

/-! ## Lookups -/

theorem Tidy.className_inj {t : Objects} (h : Tidy t) {a b : Nat} {name : List UInt8}
    (ha : className t a = some name) (hb : className t b = some name) : a = b := by
  obtain ⟨k, hgeta⟩ := getObject_of_className ha
  obtain ⟨k', hgetb⟩ := getObject_of_className hb
  exact h a b _ _ hgeta hgetb rfl (by simp [Object.same])

section Lookup

variable {objects : Objects} {slots : List NativeSlot}

/-- The slots in use have a class and a name. -/
def Named (objects : Objects) (slots : List NativeSlot) : Prop :=
  ∀ slot ∈ slots, slot.used = true → (className objects slot.klass).isSome = true ∧ slot.name ≠ []

/-- The lookup as a search of the slots before the first hole. -/
theorem getNativeMethod_eq (hnamed : Named objects slots) (klass name : List UInt8) :
    getNativeMethod objects klass name slots =
      some ((((SlotTable.visible NativeSlot.used slots).find? fun slot =>
        className objects slot.klass = some klass ∧ slot.name = name).map
          NativeSlot.function).getD 0) := by
  induction slots with
  | nil => rfl
  | cons slot slots ih =>
    have ih := ih (forall_mem_cons.mp hnamed).2
    rw [getNativeMethod]
    by_cases hused : slot.used
    · obtain ⟨hsome, hname⟩ := hnamed slot mem_cons_self hused
      obtain ⟨c, hclass⟩ := isSome_iff_exists.mp hsome
      rw [if_pos hused, SlotTable.visible, takeWhile_cons_of_pos hused, hclass]
      simp only [if_neg hname]
      by_cases hc : c = klass
      · by_cases hn : slot.name = name
        · rw [if_pos hc, if_pos hn, find?_cons_of_pos (by simp [hclass, hc, hn])]
          rfl
        · rw [if_pos hc, if_neg hn, find?_cons_of_neg (by simp [hn])]
          exact ih
      · rw [if_neg hc, find?_cons_of_neg (by simp [hclass, hc])]
        exact ih
    · rw [if_neg hused, SlotTable.visible, takeWhile_cons_of_neg hused]
      rfl

variable {klass : List UInt8} {slot : NativeSlot} {methods : List NativeMethod}

theorem getNativeMethod_of_class (htidy : Tidy objects) (hnamed : Named objects slots)
    {handle : Nat} (hclass : className objects handle = some klass) (name : List UInt8) :
    getNativeMethod objects klass name slots = some (functionAt slots (handle, name)) := by
  have hsame (slot : NativeSlot) : (className objects slot.klass = some klass ∧ slot.name = name) ↔
      slot.key = (handle, name) := by
    rw [NativeSlot.key, Prod.mk.injEq]
    refine and_congr_left' ⟨fun h => htidy.className_inj h hclass, fun h => ?_⟩
    rw [h, hclass]
  simp [getNativeMethod_eq hnamed, functionAt, hsame]

theorem getNativeMethod_of_no_class (hnamed : Named objects slots)
    (hclass : ∀ handle, className objects handle ≠ some klass) (name : List UInt8) :
    getNativeMethod objects klass name slots = some 0 := by
  have hnone : (SlotTable.visible NativeSlot.used slots).find? (fun slot =>
      className objects slot.klass = some klass ∧ slot.name = name) = none := by
    rw [find?_eq_none]
    intro slot _ hslot
    exact hclass slot.klass (by simpa using (of_decide_eq_true hslot).1)
  rw [getNativeMethod_eq hnamed, hnone]
  rfl

theorem getNativeMethod_nil_eq_none (hslot : slot ∈ SlotTable.visible NativeSlot.used slots)
    (hclass : className objects slot.klass = some klass) (hname : slot.name = []) :
    getNativeMethod objects klass [] slots = none := by
  induction slots with
  | nil => cases hslot
  | cons head slots ih =>
    rw [SlotTable.visible, takeWhile_cons] at hslot
    rw [getNativeMethod]
    split at hslot
    · rename_i hused
      rw [if_pos hused]
      rcases mem_cons.mp hslot with rfl | hmem
      · rw [hclass]
        simp [hname]
      cases hhead : className objects head.klass with
      | none => rfl
      | some c =>
        simp only [ih hmem]
        split
        · split
          · rfl
          · rfl
        · rfl
    · cases hslot

end Lookup

/-! ## Registering -/

section Register

variable {klass : Nat} {slots slots' : List NativeSlot}

theorem function_ne_zero_of_visible
    (h : slot ∈ SlotTable.visible NativeSlot.used slots) : slot.function ≠ 0 := by
  simpa [NativeSlot.used] using used_of_mem_visible h

theorem functionAt_ne_zero_iff (key : Nat × List UInt8) : functionAt slots key ≠ 0 ↔
    ((SlotTable.visible NativeSlot.used slots).find? fun slot => slot.key = key).isSome := by
  rw [functionAt]
  cases hfind : (SlotTable.visible NativeSlot.used slots).find? fun slot => slot.key = key with
  | none => simp
  | some slot => simpa using function_ne_zero_of_visible (mem_of_find?_eq_some hfind)

/-- **One method.** -/
theorem functionAt_register {method : NativeMethod}
    (hshadowed : SlotTable.Shadowed NativeSlot.used NativeSlot.key slots)
    (h : registerNativeMethod klass slots method = some slots') (key : Nat × List UInt8) :
    functionAt slots' key =
      if (klass, method.name) = key then settle (functionAt slots key) method.fnPtr
      else functionAt slots key := by
  have hfind := SlotTable.find?_place hshadowed h key
  rw [functionAt, hfind]
  by_cases hold : functionAt slots key = 0
  · have hnone := (not_congr (functionAt_ne_zero_iff key)).mp (not_not.mpr hold)
    rw [not_isSome_iff_eq_none] at hnone
    rw [hnone, hold, settle]
    by_cases hfn : method.fnPtr = 0
    · rw [if_neg (by simp [NativeSlot.used, hfn])]
      simp [hfn]
    by_cases hkey : (klass, method.name) = key
    · rw [if_pos ⟨by simp [NativeSlot.used, hfn], hkey⟩, if_pos hkey]
      rfl
    · rw [if_neg fun hand => hkey hand.2, if_neg hkey]
      rfl
  · obtain ⟨slot, hslot⟩ := isSome_iff_exists.mp ((functionAt_ne_zero_iff key).mp hold)
    rw [settle, if_neg hold, ite_self, hslot, some_or, functionAt, hslot]

/-- What `RegisterNatives` leaves: a table searched as before, its functions behind those there are,
slots old or of the table, and every method with a function visible. -/
theorem registerNatives_spec (hshadowed : SlotTable.Shadowed NativeSlot.used NativeSlot.key slots)
    (h : registerNatives klass slots methods = some slots') :
    SlotTable.Shadowed NativeSlot.used NativeSlot.key slots' ∧
      (∀ name, functionAt slots' (klass, name) =
        (given methods name).foldl settle (functionAt slots (klass, name))) ∧
      (∀ other name, other ≠ klass → functionAt slots' (other, name) = functionAt slots
        (other, name)) ∧ (∀ slot ∈ slots', slot ∈ slots ∨
        ∃ method ∈ methods, slot = ⟨klass, method.name, method.signature, method.fnPtr⟩) ∧
      SlotTable.visible NativeSlot.used slots <+: SlotTable.visible NativeSlot.used slots' ∧
      ∀ method ∈ methods, method.fnPtr ≠ 0 → ⟨klass, method.name, method.signature, method.fnPtr⟩ ∈
          SlotTable.visible NativeSlot.used slots' := by
  induction methods generalizing slots with
  | nil =>
    cases h
    refine ⟨hshadowed, fun _ => rfl, fun _ _ _ => rfl, fun _ h => .inl h, prefix_rfl, ?_⟩
    intro method hmem
    cases hmem
  | cons method methods ih =>
    obtain ⟨slots₁, hfirst, hrest⟩ := bind_eq_some_iff.mp h
    obtain ⟨hole, rest, -, hslots, hplaced⟩ := place_eq_some hfirst
    obtain ⟨hshadowed', hsame, hother, hslot, hprefix, hvisible⟩ :=
      ih (hshadowed.place hfirst) hrest
    have hvisible₁ := visible_place hplaced
    have hprefix₁ : SlotTable.visible NativeSlot.used slots <+:
        SlotTable.visible NativeSlot.used slots₁ := ⟨_, hvisible₁.symm⟩
    refine ⟨hshadowed', ?_, ?_, ?_, hprefix₁.trans hprefix, ?_⟩
    · intro name
      rw [hsame name, functionAt_register hshadowed hfirst]
      by_cases hname : method.name = name
      · simp [given, hname]
      · simp [given, hname]
    · intro other name hne
      rw [hother other name hne, functionAt_register hshadowed hfirst, if_neg]
      intro heq
      exact hne (Prod.mk.inj heq).1.symm
    · intro slot hmem
      rcases hslot slot hmem with hold | ⟨m, hm, heq⟩
      · rw [hplaced, mem_append, mem_cons] at hold
        rcases hold with hold | rfl | hold
        · exact .inl (mem_of_mem_visible hold)
        · exact .inr ⟨method, mem_cons_self, rfl⟩
        · rw [hslots]
          exact .inl (mem_append_right _ (mem_cons_of_mem hole hold))
      · exact .inr ⟨m, mem_cons_of_mem method hm, heq⟩
    · intro m hm hfn
      rcases mem_cons.mp hm with rfl | hm
      · apply hprefix.subset
        have hused : NativeSlot.used ⟨klass, m.name, m.signature, m.fnPtr⟩ := by
          simp [NativeSlot.used, hfn]
        rw [hvisible₁, SlotTable.visible, SlotTable.visible, takeWhile_cons_of_pos hused]
        exact mem_append_right _ mem_cons_self
      · exact hvisible m hm hfn

end Register

/-! ## One call -/

namespace Registry

variable {objects : Objects} {r r' : Registry objects}

/-- Along a faithful run every entry in use has a class and a name, and one of its key in sight. -/
structure Sound (r : Registry objects) : Prop extends Faithful r where
  named : Named objects r.slots
  shadowed : SlotTable.Shadowed NativeSlot.used NativeSlot.key r.slots

theorem not_used_initial (h : slot ∈ (initial objects).slots) : ¬ slot.used := by
  rw [eq_of_mem_replicate h]
  exact Bool.false_ne_true

theorem sound_initial : Sound (initial objects) where
  lookups _ _ := rfl
  removes _ _ _ h := by cases h
  named _ h hused := absurd hused (not_used_initial h)
  shadowed _ h hused := absurd hused (not_used_initial h)

theorem wanted_of_no_class
    (hclass : ∀ handle, className objects handle ≠ some klass) (r : Registry objects)
    (name : List UInt8) : r.wanted klass name = 0 := by
  obtain ⟨slots, history⟩ := r
  induction history with
  | nil => rfl
  | cons entry history ih =>
    obtain ⟨call, old⟩ := entry
    cases call with
    | registerNatives handle _ | unregisterNatives handle => exact (if_neg (hclass handle)).trans ih

theorem lookups_iff (htidy : Tidy objects) (hnamed : Named objects r.slots) :
    (∀ klass name, getNativeMethod objects klass name r.slots = some (r.wanted klass name)) ↔
      ∀ handle klass name, className objects handle = some klass →
        functionAt r.slots (handle, name) = r.wanted klass name := by
  constructor
  · intro h handle klass name hclass
    rw [← some.injEq, ← h, getNativeMethod_of_class htidy hnamed hclass]
  intro h klass name
  by_cases hclass : ∃ handle, className objects handle = some klass
  · obtain ⟨handle, hclass⟩ := hclass
    rw [getNativeMethod_of_class htidy hnamed hclass, h handle klass name hclass]
  · have hnone := not_exists.mp hclass
    rw [getNativeMethod_of_no_class hnamed hnone, wanted_of_no_class hnone]

theorem getLastD_given {method : NativeMethod} (h : method ∈ methods) (a b : Nat) :
    (given methods method.name).getLastD a = (given methods method.name).getLastD b := by
  have hmem : method.fnPtr ∈ given methods method.name :=
    mem_map_of_mem (mem_filter.mpr ⟨h, by simp⟩)
  cases hgiven : given methods method.name with
  | nil =>
    rw [hgiven] at hmem
    cases hmem
  | cons f fs => rw [getLastD_cons, getLastD_cons]

theorem Sound.register (htidy : Tidy objects) (h : Sound r) {klass : ClassHandle objects}
    {slots : List NativeSlot} (hregister : Jvm.registerNatives klass r.slots methods = some slots) :
    (Faithful ⟨slots, (.registerNatives klass methods, r.slots) :: r.history⟩ ↔
        r.Served (.registerNatives klass methods)) ∧
      (Faithful ⟨slots, (.registerNatives klass methods, r.slots) :: r.history⟩ →
        Sound ⟨slots, (.registerNatives klass methods, r.slots) :: r.history⟩) := by
  obtain ⟨c, hc⟩ := isSome_iff_exists.mp klass.2
  obtain ⟨hshadowed, hsame, hother, hslots, -, hvisible⟩ :=
    registerNatives_spec h.shadowed hregister
  have hold := (lookups_iff htidy h.named).mp h.lookups
  have hnamed (hnames : ∀ method ∈ methods, method.name = [] → method.fnPtr = 0) :
      Named objects slots := by
    intro slot hslot hused
    rcases hslots slot hslot with hold | ⟨method, hmethod, rfl⟩
    · exact h.named slot hold hused
    · refine ⟨klass.2, fun hname => ?_⟩
      simp [NativeSlot.used, hnames method hmethod hname] at hused
  have hnames (hfaithful :
      Faithful ⟨slots, (.registerNatives klass methods, r.slots) :: r.history⟩) :
      ∀ method ∈ methods, method.name = [] → method.fnPtr = 0 := by
    intro method hmethod hname
    by_contra hfn
    have hnone := getNativeMethod_nil_eq_none (hvisible method hmethod hfn) hc hname
    rw [hfaithful.lookups c []] at hnone
    cases hnone
  refine ⟨⟨fun hfaithful method hmethod => ⟨hnames hfaithful method hmethod, ?_⟩, ?_⟩, ?_⟩
  · have hlookup := (lookups_iff htidy (hnamed (hnames hfaithful))).mp hfaithful.lookups klass c
      method.name hc
    rw [← hsame, hlookup, getLastD_given hmethod 0 _]
    exact if_pos hc
  · intro hserved
    refine ⟨(lookups_iff htidy (hnamed fun m hm => (hserved m hm).1)).mpr ?_, ?_⟩
    · intro handle klass' name hclass
      by_cases hhandle : handle = klass.1
      · subst hhandle
        obtain rfl : c = klass' := some.inj (hc.symm.trans hclass)
        have hwanted :
            wanted ⟨slots, (.registerNatives klass methods, r.slots) :: r.history⟩ c name =
              (given methods name).getLastD (r.wanted c name) := if_pos hc
        rw [hsame, hwanted]
        by_cases hmem : ∃ method ∈ methods, method.name = name
        · obtain ⟨method, hmethod, rfl⟩ := hmem
          rw [(hserved method hmethod).2]
          exact getLastD_given hmethod ..
        have hgiven : given methods name = [] := by
          rw [given, map_eq_nil_iff, filter_eq_nil_iff]
          intro method hmethod hname
          exact hmem ⟨method, hmethod, by simpa using hname⟩
        rw [hgiven]
        exact hold klass.1 c name hc
      · have hne : className objects klass.1 ≠ some klass' := by
          intro heq
          exact hhandle (htidy.className_inj hclass heq)
        rw [hother handle name hhandle, hold handle klass' name hclass]
        exact (if_neg hne).symm
    · intro klass' old earlier heq
      cases heq
  · intro hfaithful
    exact ⟨hfaithful, hnamed (hnames hfaithful), hshadowed⟩

theorem functionAt_unregister_self (slots : List NativeSlot) (klass : Nat) (name : List UInt8) :
    functionAt (Jvm.unregisterNatives klass slots) (klass, name) = 0 := by
  have hnone : (SlotTable.visible NativeSlot.used (unregisterNatives klass slots)).find?
      (fun slot => slot.key = (klass, name)) = none := by
    rw [find?_eq_none]
    intro slot hslot hkey
    rw [unregisterNatives, visible_clear rfl] at hslot
    have hother := mem_takeWhile_imp hslot
    have hclass : slot.klass = klass := (Prod.mk.inj (of_decide_eq_true hkey)).1
    simp [NativeSlot.ofClass, hclass] at hother
  rw [functionAt, hnone]
  rfl

theorem Sound.named_unregister (h : Sound r) (klass : Nat) :
    Named objects (Jvm.unregisterNatives klass r.slots) := fun slot hslot hused =>
  h.named slot (mem_clear rfl hslot hused).1 hused

/-- Other classes are found as before exactly when nothing of them gets out of sight. -/
theorem Sound.lookups_unregister (htidy : Tidy objects) (h : Sound r)
    (klass : ClassHandle objects) :
    (∀ c name, getNativeMethod objects c name (Jvm.unregisterNatives klass r.slots) =
        some (NativeCall.update c name (r.wanted c name) (.unregisterNatives klass))) ↔
      SlotTable.Repeated NativeSlot.used NativeSlot.key (NativeSlot.ofClass klass) r.slots := by
  have hold := (lookups_iff htidy h.named).mp h.lookups
  have hiff := lookups_iff
    (r := ⟨unregisterNatives klass r.slots, (.unregisterNatives klass, r.slots) :: r.history⟩)
    htidy (h.named_unregister klass)
  have hwanted {handle : Nat} {c : List UInt8} (hne : handle ≠ klass.1)
      (hclass : className objects handle = some c) (name : List UInt8) :
      NativeCall.update c name (r.wanted c name) (.unregisterNatives klass) = r.wanted c name := by
    apply if_neg
    intro heq
    exact hne (htidy.className_inj hclass heq)
  refine hiff.trans ⟨fun hlookups => ?_, fun hrepeated => ?_⟩
  · apply repeated_of_find? NativeSlot.used_blank
    intro slot hslot hother
    have hne : slot.klass ≠ klass.1 := by simpa [NativeSlot.ofClass] using hother
    obtain ⟨hsome, -⟩ := h.named slot (mem_of_mem_visible hslot) (used_of_mem_visible hslot)
    obtain ⟨c, hclass⟩ := isSome_iff_exists.mp hsome
    have hnow := (hlookups slot.klass c slot.name hclass).trans (hwanted hne hclass slot.name)
    refine (functionAt_ne_zero_iff slot.key).mp (hnow.trans_ne ?_)
    rw [← hold slot.klass c slot.name hclass, functionAt_ne_zero_iff, find?_isSome]
    exact ⟨slot, hslot, by simp [NativeSlot.key]⟩
  · intro handle c name hclass
    by_cases hne : handle = klass.1
    · subst hne
      rw [functionAt_unregister_self]
      exact (if_pos hclass).symm
    have hfind : functionAt (unregisterNatives klass r.slots) (handle, name) =
        functionAt r.slots (handle, name) := by
      rw [functionAt, functionAt, unregisterNatives, SlotTable.find?_clear rfl hrepeated]
      intro slot _ hkey
      obtain ⟨hklass, -⟩ := Prod.mk.inj hkey
      simpa [NativeSlot.ofClass, hklass] using hne
    rw [hfind, hold handle c name hclass]
    exact (hwanted hne hclass name).symm

theorem Sound.unregister (htidy : Tidy objects) (h : Sound r) (klass : ClassHandle objects) :
    (Faithful ⟨Jvm.unregisterNatives klass r.slots,
          (.unregisterNatives klass, r.slots) :: r.history⟩ ↔ r.Served (.unregisterNatives klass)) ∧
      (Faithful ⟨Jvm.unregisterNatives klass r.slots,
          (.unregisterNatives klass, r.slots) :: r.history⟩ →
        Sound ⟨Jvm.unregisterNatives klass r.slots,
          (.unregisterNatives klass, r.slots) :: r.history⟩) := by
  have hlookups := h.lookups_unregister htidy klass
  have hremoves : SlotTable.entries NativeSlot.used (unregisterNatives klass r.slots) =
      (SlotTable.entries NativeSlot.used r.slots).filter (fun slot => !slot.ofClass klass) ↔
        ∀ slot ∈ r.slots.dropWhile NativeSlot.used, slot.used → slot.ofClass klass = false :=
    entries_clear_iff NativeSlot.used_blank
  have hiff : Faithful ⟨unregisterNatives klass r.slots,
      (.unregisterNatives klass, r.slots) :: r.history⟩ ↔ r.Served (.unregisterNatives klass) := by
    rw [Served, ← hlookups, ← hremoves]
    constructor
    · intro hfaithful
      exact ⟨hfaithful.lookups, hfaithful.removes klass r.slots r.history rfl⟩
    · rintro ⟨hfound, hgone⟩
      refine ⟨hfound, fun klass' old earlier heq => ?_⟩
      cases heq
      exact hgone
  refine ⟨hiff, fun hfaithful => ⟨hfaithful, h.named_unregister klass, ?_⟩⟩
  obtain ⟨hrepeated, hhidden⟩ := hiff.mp hfaithful
  apply h.shadowed.clear rfl ?_ hrepeated hhidden
  intro a b hkey
  rw [NativeSlot.ofClass, NativeSlot.ofClass, (Prod.mk.inj hkey).1]

/-- **One call.** -/
theorem Sound.step (htidy : Tidy objects) (h : Sound r) {call : NativeCall objects}
    (hstep : r.step call = some r') : (Faithful r' ↔ r.Served call) ∧ (Faithful r' → Sound r') := by
  cases call with
  | registerNatives klass methods =>
    obtain ⟨slots, hregister, rfl⟩ := map_eq_some_iff.mp hstep
    exact h.register htidy hregister
  | unregisterNatives klass =>
    cases hstep
    exact h.unregister htidy klass

end Registry

/-! ## Whole runs -/

/-- **Lookups answer with the latest function exactly along the served runs**, for the classes of
every table that the pseudo-JVM can come to. -/
theorem natives_faithful_iff_served {dlsym : List UInt8 → Bool} {type : Nat → FieldType}
    {before : List VmCall} {g : Vm}
    (hg : run (tryStep (Vm.step dlsym type)) (some .initial) before = some g)
    {calls : List (NativeCall g.objects)}
    (hreturn : run (tryStep Registry.step) (some (.initial g.objects)) calls ≠ none) :
    (∀ n r, run (tryStep Registry.step) (some (.initial g.objects)) (calls.take n) = some r →
        r.Faithful) ↔
      StepsMeet (whileThere Registry.Served) (tryStep Registry.step) (some (.initial g.objects))
        calls := by
  have htidy : Tidy g.objects :=
    (run_tryStep_invariant (fun _ _ _ h hstep => Vm.Interns.step h hstep) Vm.interns_initial
      hg).tidy
  exact prefixes_iff_stepsMeet (fun _ h => h.toFaithful) (fun _ _ _ h hstep => h.step htidy hstep)
    Registry.sound_initial hreturn

def twoNames : List VmCall :=
  [.jni (.findClass (cstr "a/B")), .jni (.findClass (cstr "c/D"))]

def twoNamesVm : Vm :=
  (run (tryStep (Vm.step (fun _ => false) fun _ => .object)) (some .initial) twoNames).getD .initial

theorem run_twoNames :
    run (tryStep (Vm.step (fun _ => false) fun _ => .object)) (some .initial) twoNames =
      some twoNamesVm := rfl

theorem isSome_className_two : (className twoNamesVm.objects 2).isSome := by decide +kernel

theorem isSome_className_three : (className twoNamesVm.objects 3).isSome := by decide +kernel

/-- Methods of two classes, and the second class is taken out and registered again. -/
def registeredAgain : List (NativeCall twoNamesVm.objects) :=
  [.registerNatives ⟨2, isSome_className_two⟩ [⟨cstr "x", cstr "()V", 256⟩],
    .registerNatives ⟨3, isSome_className_three⟩ [⟨cstr "x", cstr "()V", 512⟩],
    .unregisterNatives ⟨3, isSome_className_three⟩,
    .registerNatives ⟨3, isSome_className_three⟩ [⟨cstr "x", cstr "()V", 768⟩]]

theorem registeredAgain_faithful :
    run (tryStep Registry.step) (some (.initial twoNamesVm.objects)) registeredAgain ≠ none ∧
      ∀ n r, run (tryStep Registry.step) (some (.initial twoNamesVm.objects))
        (registeredAgain.take n) = some r → r.Faithful := by
  refine (and_iff_left_of_imp fun hreturn => ?_).mpr (by decide +kernel)
  exact (natives_faithful_iff_served run_twoNames hreturn).mpr (by decide +kernel)

/-- A method that is registered again, and a class that is taken out from before another. -/
theorem not_faithful_registered :
    (∃ r, run (tryStep Registry.step) (some (.initial twoNamesVm.objects))
        [.registerNatives ⟨2, isSome_className_two⟩ [⟨cstr "x", cstr "()V", 256⟩],
          .registerNatives ⟨2, isSome_className_two⟩ [⟨cstr "x", cstr "()V", 512⟩]] = some r ∧
      getNativeMethod twoNamesVm.objects (cstr "a.B") (cstr "x") r.slots = some 256 ∧
      r.wanted (cstr "a.B") (cstr "x") = 512) ∧
    ∃ r, run (tryStep Registry.step) (some (.initial twoNamesVm.objects))
        [.registerNatives ⟨2, isSome_className_two⟩ [⟨cstr "x", cstr "()V", 256⟩],
          .registerNatives ⟨3, isSome_className_three⟩ [⟨cstr "x", cstr "()V", 512⟩],
          .unregisterNatives ⟨2, isSome_className_two⟩] = some r ∧
      getNativeMethod twoNamesVm.objects (cstr "c.D") (cstr "x") r.slots = some 0 ∧
      r.wanted (cstr "c.D") (cstr "x") = 512 :=
  ⟨⟨_, rfl, by decide +kernel, by decide +kernel⟩, ⟨_, rfl, by decide +kernel, by decide +kernel⟩⟩

end Lunaria.Jvm
