/-
# Frame callbacks

A frame is delivered to a Java `Choreographer.FrameCallback` through the bridge that the guest has
registered, with an array of one argument. The class of the bridge, the method and the boxed time
are made once and kept; the array is asked for every time. What is asked for is an array of zeros,
and the array of the frame before is none any more since its element was set, so unless something
leaves an array of eight zero bytes in the table, every frame takes a slot of it.
-/

import Lunaria.Jvm.Interning
import Lunaria.Layout
import Mathlib.Data.List.Infix

namespace Lunaria.Jvm

open Lib Elf List Option

/-! ## Delivering a frame -/

/-- `JniBridgeIface`. -/
structure BridgeIface where
  cls : Nat
  name : List UInt8

/-- What `drive_java_choreographer` finds of `RegisteredNative`. -/
structure BridgeNative where
  klass : List UInt8
  name : List UInt8
  fnVa : Nat

/-- What it reads beside its own variables: whether a callback is running, `g_jnibridge_iface` and
`natives`. -/
structure DriveEnv where
  inCb : Bool
  ifaces : List (Nat × List BridgeIface)
  natives : List BridgeNative

/-- `fc_ptr` and `fc_cls`: the last interface of that name. -/
def DriveEnv.frameCallback (env : DriveEnv) : Nat × Nat :=
  env.ifaces.foldl (fun found it => it.2.foldl (fun found rec =>
    if cstr "Choreographer$FrameCallback" <:+: rec.name then (it.1, rec.cls) else found) found)
    (0, 0)

/-- `fn`: the bridge's `invoke`. -/
def DriveEnv.invokeNative (env : DriveEnv) : Nat :=
  match env.natives.find? fun rn => rn.name = cstr "invoke" ∧ cstr "JNIBridge" <:+: rn.klass with
  | some rn => rn.fnVa
  | none => 0

/-- The pseudo-JVM, the three static variables of the function, and `g_java_choreo_pending`. -/
structure Choreo where
  vm : Vm
  brCls : Nat
  dof : Nat
  longBox : Nat
  pending : Nat

/-- A variable that is filled when it is first needed. -/
def cached (handle : Nat) (make : Objects → Option (Nat × Objects)) (objects : Objects) :
    Option (Nat × Objects) :=
  if handle = 0 then make objects else some (handle, objects)

/-- `AllocObject(FindClass("java/lang/Long"))`. -/
def allocLong (objects : Objects) : Option (Nat × Objects) := do
  let (klass, objects) ← makeClass objects (cstr "java/lang/Long")
  jniAllocObject objects klass

namespace Choreo

def used (g : Choreo) : Nat := g.vm.objects.length

/-- A delivery up to the call of the guest; the method handle is not null, since the class is not.
-/
def deliver (fcCls : Nat) (g : Choreo) : Option Choreo := do
  let (brCls, objects) ←
    cached g.brCls (makeClass · (cstr "bitter/jnibridge/JNIBridge")) g.vm.objects
  let (dof, objects) ← cached g.dof
    (addObjectIfNotThere · ⟨0, .method fcCls (cstr "doFrame") (cstr "(J)V")⟩) objects
  let (longBox, objects) ← cached g.longBox allocLong objects
  let (args, objects) ← jvmNewArray objects 1 8 (cstr "[Ljava/lang/Object;")
  let world ← World.step ⟨objects, []⟩ (.setObjectArrayElement args 0 (UInt64.ofNat longBox))
  some ⟨{ g.vm with objects := world.objects }, brCls, dof, longBox, 0⟩

/-- The early returns are passed. -/
def Delivers (g : Choreo) (env : DriveEnv) : Prop :=
  env.inCb = false ∧ g.pending ≠ 0 ∧ env.frameCallback.1 ≠ 0 ∧ env.frameCallback.2 ≠ 0 ∧
    env.invokeNative ≠ 0
  deriving Decidable

/-- `drive_java_choreographer`. -/
def drive (env : DriveEnv) (g : Choreo) : Option Choreo :=
  if g.Delivers env then g.deliver env.frameCallback.2 else some g

end Choreo

/-- What happens between frames: the guest posts or removes its callback and calls the pseudo-JVM,
but makes no objects. -/
inductive ChoreoEvent
  | drive (env : DriveEnv)
  | post
  | remove
  | guest (call : VmCall)

/-- One event; `none` when it does not return, or makes an object for the guest. -/
def Choreo.step (dlsym : List UInt8 → Bool) (type : Nat → FieldType) (g : Choreo) :
    ChoreoEvent → Option Choreo
  | .drive env => g.drive env
  | .post => some { g with pending := u32 (g.pending + 1) }
  | .remove => some { g with pending := 0 }
  | .guest call =>
    match g.vm.step dlsym type call with
    | none => none
    | some vm =>
      if vm.objects.length = g.vm.objects.length then some { g with vm := vm } else none

/-! ## How much the table grows -/

section Growth

variable {t t' : Objects} {handle : Nat}

theorem makeClass_length {name : List UInt8} (h : makeClass t name = some (handle, t')) :
    t'.length ≤ t.length + 1 ∧
      ((∃ klass, className t klass = some (cstrReplace true name)) → t' = t) := by
  rw [makeClass] at h
  split at h
  · cases h
  obtain ⟨⟨i, table⟩, hintern, heq⟩ := map_eq_some_iff.mp h
  cases heq
  cases intern_spec hintern with
  | found hget hsame => exact ⟨Nat.le_succ _, fun _ => rfl⟩
  | added habsent =>
    refine ⟨by simp, ?_⟩
    rintro ⟨klass, hclass⟩
    obtain ⟨k, hget⟩ := getObject_of_className hclass
    have hdiff := habsent _ (mem_of_getObject hget)
    simp [Object.same] at hdiff

theorem addObjectIfNotThere_length {needle : Object}
    (h : addObjectIfNotThere t needle = some (handle, t')) :
    t'.length ≤ t.length + 2 ∧ handle ≠ 0 := by
  obtain ⟨⟨i, table⟩, hintern, h⟩ := bind_eq_some_iff.mp h
  have hfirst : table.length ≤ t.length + 1 := by
    cases intern_spec hintern with
    | found hget hsame => exact Nat.le_succ _
    | added habsent => simp
  simp only at h
  split at h
  · cases h
    exact ⟨by omega, Nat.succ_ne_zero i⟩
  obtain ⟨name, -, h⟩ := bind_eq_some_iff.mp h
  obtain ⟨⟨klass, table'⟩, hmake, h⟩ := bind_eq_some_iff.mp h
  obtain ⟨rfl, rfl⟩ : i + 1 = handle ∧
      table'.set i { needle with thisKlass := klass } = t' := by simpa using h
  have hsecond := (makeClass_length hmake).1
  rw [length_set]
  omega

theorem allocLong_length (h : allocLong t = some (handle, t')) :
    t'.length ≤ t.length + 2 ∧ handle ≠ 0 := by
  obtain ⟨⟨klass, table⟩, hmake, halloc⟩ := bind_eq_some_iff.mp h
  have hklass : klass ≠ 0 := (makeClass_spec hmake).2.2
  have hfirst := (makeClass_length hmake).1
  have hadd : addObjectIfNotThere table ⟨klass, .opaqueObject⟩ = some (handle, t') := by
    simpa [jniAllocObject, allocClass, hklass] using halloc
  obtain ⟨i, rfl, hinterned⟩ := addObjectIfNotThere_interned hklass hadd
  cases hinterned with
  | found hget hsame => omega
  | added habsent =>
    rw [length_append, length_singleton]
    omega

/-- **An array is asked for**: one slot if there is no twin, once there is the class. -/
theorem jvmNewArray_length {size elementSz : Nat} {name : List UInt8}
    (h : jvmNewArray t size elementSz name = some (handle, t')) :
    t'.length ≤ t.length + 2 ∧ (∃ klass, className t' klass = some (cstrReplace true name)) ∧
      ((∃ klass, className t klass = some (cstrReplace true name)) →
        t'.length = t.length + if NoTwin t (size * elementSz) then 1 else 0) := by
  obtain ⟨⟨klass, table⟩, hmake, h⟩ := bind_eq_some_iff.mp h
  obtain ⟨-, hname, hklass⟩ := makeClass_spec hmake
  obtain ⟨hfirst, hsame⟩ := makeClass_length hmake
  obtain ⟨i, rfl, hinterned⟩ := addObjectIfNotThere_interned hklass h
  cases hinterned with
  | found hget hfound =>
    refine ⟨by omega, ⟨klass, hname⟩, fun hclass => ?_⟩
    obtain rfl := hsame hclass
    rw [if_neg]
    · rfl
    · intro hnone
      exact hnone _ (mem_of_getElem? hget) (Object.same_array_iff.mp hfound)
  | added habsent =>
    rw [length_append, length_singleton]
    refine ⟨by omega, ⟨klass, className_append _ _ hname⟩, fun hclass => ?_⟩
    obtain rfl := hsame hclass
    rw [if_pos]
    intro o ho hbytes
    have hdiff := habsent o ho
    rw [Object.same_array_iff.mpr hbytes] at hdiff
    cases hdiff

theorem setObjectArrayElement_length {index : Nat} {value : UInt64} {world : World}
    (h : World.step ⟨t, []⟩ (.setObjectArrayElement handle index value) = some world) :
    world.objects.length = t.length := by
  rw [World.step] at h
  split at h
  · cases h
  split at h
  · obtain rfl := some.inj h
    rfl
  split at h
  · obtain rfl := some.inj h
    rfl
  · obtain ⟨-, heq⟩ := ite_none_right_eq_some.mp h
    obtain rfl := some.inj heq
    exact length_set

end Growth

theorem cached_of_ne_zero {handle : Nat} (h : handle ≠ 0) (make : Objects → Option (Nat × Objects))
    (t : Objects) : cached handle make t = some (handle, t) := if_neg h

theorem cached_length {handle handle' n : Nat} {make : Objects → Option (Nat × Objects)}
    {t t' : Objects} (h : cached handle make t = some (handle', t'))
    (hmake : make t = some (handle', t') → t'.length ≤ t.length + n ∧ handle' ≠ 0) :
    t'.length ≤ t.length + n ∧ handle' ≠ 0 := by
  rw [cached] at h
  split at h
  · exact hmake h
  · rename_i hne
    obtain ⟨rfl, rfl⟩ := Prod.mk.inj (some.inj h)
    exact ⟨Nat.le_add_right .., hne⟩

/-! ## One event -/

namespace Choreo

variable {dlsym : List UInt8 → Bool} {type : Nat → FieldType} {g g' : Choreo}

/-- A frame was delivered before: the variables are filled, and there is the class of the array. -/
structure Ready (g : Choreo) : Prop where
  brCls : g.brCls ≠ 0
  dof : g.dof ≠ 0
  longBox : g.longBox ≠ 0
  arrayClass : ∃ klass, className g.vm.objects klass = some (cstr "[Ljava.lang.Object;")

theorem cstrReplace_arrayClass :
    cstrReplace true (cstr "[Ljava/lang/Object;") = cstr "[Ljava.lang.Object;" := by decide +kernel

/-- The steps of a delivery, through the tables between them. -/
theorem deliver_eq_some {fcCls : Nat} (h : g.deliver fcCls = some g') : ∃ t₁ t₂ t₃ t₄ args world,
    cached g.brCls (makeClass · (cstr "bitter/jnibridge/JNIBridge")) g.vm.objects =
      some (g'.brCls, t₁) ∧
    cached g.dof (addObjectIfNotThere · ⟨0, .method fcCls (cstr "doFrame") (cstr "(J)V")⟩) t₁ =
      some (g'.dof, t₂) ∧
    cached g.longBox allocLong t₂ = some (g'.longBox, t₃) ∧
    jvmNewArray t₃ 1 8 (cstr "[Ljava/lang/Object;") = some (args, t₄) ∧
    World.step ⟨t₄, []⟩ (.setObjectArrayElement args 0 (UInt64.ofNat g'.longBox)) = some world ∧
    g'.vm.objects = world.objects ∧ g'.pending = 0 := by
  obtain ⟨⟨brCls, t₁⟩, hbr, h⟩ := bind_eq_some_iff.mp h
  obtain ⟨⟨dof, t₂⟩, hdof, h⟩ := bind_eq_some_iff.mp h
  obtain ⟨⟨longBox, t₃⟩, hlong, h⟩ := bind_eq_some_iff.mp h
  obtain ⟨⟨args, t₄⟩, hargs, h⟩ := bind_eq_some_iff.mp h
  obtain ⟨world, hset, h⟩ := bind_eq_some_iff.mp h
  obtain rfl := some.inj h
  exact ⟨t₁, t₂, t₃, t₄, args, world, hbr, hdof, hlong, hargs, hset, rfl, rfl⟩

/-- **A delivery**: at most seven slots the first time, and then one if there is no array of eight
zero bytes. -/
theorem deliver_spec {fcCls : Nat} (h : g.deliver fcCls = some g') :
    g'.used ≤ g.used + 7 ∧ g'.Ready ∧
      (g.Ready → g'.used = g.used + if NoTwin g.vm.objects 8 then 1 else 0) := by
  obtain ⟨t₁, t₂, t₃, t₄, args, world, hbr, hdof, hlong, hargs, hset, hvm, -⟩ := deliver_eq_some h
  obtain ⟨hlen₁, hne₁⟩ := cached_length hbr fun hmake =>
    ⟨(makeClass_length hmake).1, (makeClass_spec hmake).2.2⟩
  obtain ⟨hlen₂, hne₂⟩ := cached_length hdof addObjectIfNotThere_length
  obtain ⟨hlen₃, hne₃⟩ := cached_length hlong allocLong_length
  obtain ⟨hlen₄, ⟨klass, hclass⟩, hexact⟩ := jvmNewArray_length hargs
  have hlen₅ := setObjectArrayElement_length hset
  have hclass₅ := (jni_carries hset rfl).1.toKeeps.className hclass
  rw [← hvm] at hlen₅ hclass₅
  rw [cstrReplace_arrayClass] at hclass₅ hexact
  refine ⟨?_, ⟨hne₁, hne₂, hne₃, klass, hclass₅⟩, fun hready => ?_⟩
  · simp only [used] at *
    omega
  rw [cached_of_ne_zero hready.brCls] at hbr
  obtain ⟨-, rfl⟩ := Prod.mk.inj (some.inj hbr)
  rw [cached_of_ne_zero hready.dof] at hdof
  obtain ⟨-, rfl⟩ := Prod.mk.inj (some.inj hdof)
  rw [cached_of_ne_zero hready.longBox] at hlong
  obtain ⟨-, rfl⟩ := Prod.mk.inj (some.inj hlong)
  rw [used, hlen₅]
  exact hexact hready.arrayClass

/-- A frame that takes no slot: there is an array of eight zero bytes. -/
def Served (g : Choreo) : ChoreoEvent → Prop
  | .drive env => g.Delivers env → ¬ NoTwin g.vm.objects 8
  | _ => True

instance choreoServedDecidable (g : Choreo) : ∀ event, Decidable (g.Served event)
  | .drive env => inferInstanceAs (Decidable (g.Delivers env → ¬ NoTwin g.vm.objects 8))
  | .post => isTrue trivial
  | .remove => isTrue trivial
  | .guest _ => isTrue trivial

/-- **One event** after the first delivery. -/
theorem Ready.step (hready : g.Ready) {event : ChoreoEvent}
    (h : g.step dlsym type event = some g') :
    g'.Ready ∧ g'.used = g.used + if g.Served event then 0 else 1 := by
  cases event with
  | drive env =>
    rw [Choreo.step, drive] at h
    split at h
    · rename_i hdelivers
      obtain ⟨-, hready', hexact⟩ := deliver_spec h
      refine ⟨hready', (hexact hready).trans (congrArg _ ?_)⟩
      by_cases hnone : NoTwin g.vm.objects 8
      · rw [if_pos hnone, if_neg fun hserved => hserved hdelivers hnone]
      · have hserved : g.Served (.drive env) := fun _ => hnone
        rw [if_neg hnone, if_pos hserved]
    · rename_i hnot
      obtain rfl := some.inj h
      have hserved : g.Served (.drive env) := fun hdelivers => absurd hdelivers hnot
      rw [if_pos hserved]
      exact ⟨hready, rfl⟩
  | post | remove =>
    obtain rfl := some.inj h
    exact ⟨{ hready with }, rfl⟩
  | guest call =>
    rw [Choreo.step] at h
    split at h
    · cases h
    rename_i vm hstep
    obtain ⟨hlength, heq⟩ := ite_none_right_eq_some.mp h
    obtain rfl := some.inj heq
    obtain ⟨klass, hclass⟩ := hready.arrayClass
    refine ⟨⟨hready.brCls, hready.dof, hready.longBox, klass, ?_⟩, hlength⟩
    exact (Vm.keeps_of_step hstep).className hclass

end Choreo

/-! ## Whole runs -/

/-- **Frames stop taking slots exactly when each finds an array of zeros.** The first delivery takes
at most seven; after it the table does not grow exactly when every delivery finds eight zero bytes.
-/
theorem frames_steady_iff_served {dlsym : List UInt8 → Bool} {type : Nat → FieldType}
    {start g₁ : Choreo} {env : DriveEnv} (hdelivers : start.Delivers env)
    (hfirst : start.step dlsym type (.drive env) = some g₁) {events : List ChoreoEvent}
    (hreturn : run (tryStep (Choreo.step dlsym type)) (some g₁) events ≠ none) :
    g₁.used ≤ start.used + 7 ∧
      ((∀ n g, run (tryStep (Choreo.step dlsym type)) (some g₁) (events.take n) = some g →
          g.used ≤ g₁.used) ↔
        StepsMeet (whileThere Choreo.Served) (tryStep (Choreo.step dlsym type)) (some g₁)
          events) := by
  rw [Choreo.step, Choreo.drive, if_pos hdelivers] at hfirst
  obtain ⟨hgrowth, hready, -⟩ := Choreo.deliver_spec hfirst
  refine ⟨hgrowth, ?_⟩
  have hstep (g : Choreo) (event : ChoreoEvent) (g' : Choreo) (h : g.Ready ∧ g.used = g₁.used)
      (hg : g.step dlsym type event = some g') :
      (g'.used ≤ g₁.used ↔ g.Served event) ∧
        (g'.used ≤ g₁.used → g'.Ready ∧ g'.used = g₁.used) := by
    obtain ⟨hready', hused⟩ := h.1.step hg
    rw [h.2] at hused
    by_cases hserved : g.Served event
    · rw [if_pos hserved] at hused
      exact ⟨iff_of_true hused.le hserved, fun _ => ⟨hready', hused⟩⟩
    · rw [if_neg hserved] at hused
      exact ⟨iff_of_false (by omega) hserved, fun hle => absurd hle (by omega)⟩
  exact prefixes_iff_stepsMeet (fun g h => h.2.le) hstep ⟨hready, rfl⟩ hreturn

/-- The pseudo-JVM with the class of the callback. -/
def frameVm : Vm :=
  (run (tryStep (Vm.step (fun _ => false) fun _ => .object)) (some .initial)
    [.jni (.findClass (cstr "android/view/Choreographer$FrameCallback"))]).getD .initial

/-- A proxy for the callback, and the bridge. -/
def frameEnv : DriveEnv where
  inCb := false
  ifaces := [(4096, [⟨2, cstr "android.view.Choreographer$FrameCallback"⟩])]
  natives := [⟨cstr "bitter.jnibridge.JNIBridge", cstr "invoke", 8192⟩]

def frameStart : Choreo := ⟨frameVm, 0, 0, 0, 1⟩

def firstFrame : Choreo := (frameStart.drive frameEnv).getD frameStart

theorem frameEnv_delivers : frameEnv.frameCallback.1 ≠ 0 ∧ frameEnv.frameCallback.2 ≠ 0 ∧
    frameEnv.invokeNative ≠ 0 := by decide +kernel

theorem delivers_frameStart : frameStart.Delivers frameEnv :=
  ⟨rfl, one_ne_zero, frameEnv_delivers⟩

theorem drive_frameStart : frameStart.drive frameEnv = some firstFrame := by
  rfl

/-- The guest takes the argument out of the array and posts the callback again. -/
def nulledBetween : List ChoreoEvent :=
  [.guest (.jni (.setObjectArrayElement 9 0 0)), .post, .drive frameEnv,
    .guest (.jni (.setObjectArrayElement 9 0 0)), .post, .drive frameEnv]

theorem nulledBetween_steady :
    run (tryStep (Choreo.step (fun _ => false) fun _ => .object)) (some firstFrame) nulledBetween ≠
        none ∧
      firstFrame.used ≤ frameStart.used + 7 ∧
      ∀ n g, run (tryStep (Choreo.step (fun _ => false) fun _ => .object)) (some firstFrame)
        (nulledBetween.take n) = some g → g.used ≤ firstFrame.used := by
  refine (and_iff_left_of_imp fun hreturn => ?_).mpr (isSome_iff_ne_none.mp (by decide +kernel))
  have hsteady := frames_steady_iff_served delivers_frameStart drive_frameStart hreturn
  exact ⟨hsteady.1, hsteady.2.mpr (by decide +kernel)⟩

/-! ## A guest that does nothing -/

theorem cached_noTwin {handle handle' len : Nat} {make : Objects → Option (Nat × Objects)}
    {t t' : Objects} (h : cached handle make t = some (handle', t'))
    (hmake : make t = some (handle', t') → Grows t t') : NoTwin t' len ↔ NoTwin t len := by
  rw [cached] at h
  split at h
  · exact (hmake h).noTwin_iff
  · obtain ⟨-, rfl⟩ := Prod.mk.inj (some.inj h)
    exact Iff.rfl

theorem objectBytes_ne_zero {value : UInt64} (h : value ≠ 0) :
    objectBytes value ≠ replicate 8 0 := by
  intro heq
  have hzero : objectBytes value = objectBytes 0 := heq.trans (by decide)
  have hlt := value.toNat_lt
  exact h (UInt64.toNat_inj.mp (Buffer.leBytes_inj hlt (by decide) hzero))

namespace Choreo

variable {g g' : Choreo} {fcCls : Nat}

/-- The array of a frame is not zero after its delivery. -/
theorem deliver_noTwin (h : g.deliver fcCls = some g') (hnone : NoTwin g.vm.objects 8)
    (hbox : UInt64.ofNat g'.longBox ≠ 0) : NoTwin g'.vm.objects 8 := by
  obtain ⟨t₁, t₂, t₃, t₄, args, world, hbr, hdof, hlong, hargs, hset, hvm, -⟩ := deliver_eq_some h
  have hnone₃ : NoTwin t₃ 8 := by
    rw [cached_noTwin hlong, cached_noTwin hdof, cached_noTwin hbr]
    · exact hnone
    · exact fun hmake => (makeClass_spec hmake).1
    · exact addObjectIfNotThere_grows rfl
    intro hmake
    obtain ⟨⟨klass, table⟩, hclass, halloc⟩ := bind_eq_some_iff.mp hmake
    have hklass : klass ≠ 0 := (makeClass_spec hclass).2.2
    have hadd : addObjectIfNotThere table ⟨klass, .opaqueObject⟩ = some (g'.longBox, t₃) := by
      simpa [jniAllocObject, allocClass, hklass] using halloc
    exact (makeClass_spec hclass).1.trans (addObjectIfNotThere_grows rfl hadd)
  cases jvmNewArray_spec hargs with
  | twin hgrows harray hdata => exact absurd hdata (noTwin_iff.mp hnone₃ _ _ _ harray)
  | made hnone' hfree harrays hnames hname =>
    rename_i klass
    have hat : arrayAt t₄ args = some (klass, .zero 1 8) := by rw [harrays args, if_pos rfl]
    have hargs0 : args ≠ 0 := by
      rintro rfl
      cases hat
    rw [World.step, if_neg hargs0, hat] at hset
    obtain rfl := some.inj hset
    rw [hvm, noTwin_iff]
    intro other k a harray
    rw [World.write, arrayAt_set hat] at harray
    split at harray
    · obtain ⟨-, rfl⟩ := Prod.mk.inj (some.inj harray)
      exact objectBytes_ne_zero hbox
    · rename_i hother
      rw [harrays other, if_neg hother] at harray
      exact noTwin_iff.mp hnone₃ other k a harray

theorem deliver_pending (h : g.deliver fcCls = some g') : g'.pending = 0 := by
  obtain ⟨_, _, _, _, _, _, -, -, -, -, -, -, hpending⟩ := deliver_eq_some h
  exact hpending

theorem deliver_longBox (h : g.deliver fcCls = some g') (hbox : g.longBox ≠ 0) :
    g'.longBox = g.longBox := by
  obtain ⟨_, _, _, _, _, _, -, -, hlong, -⟩ := deliver_eq_some h
  rw [cached_of_ne_zero hbox] at hlong
  exact (Prod.mk.inj (some.inj hlong)).1.symm

end Choreo

theorem used_frameStart : frameStart.used = 2 := by decide +kernel

theorem used_firstFrame : firstFrame.used = 9 := by decide +kernel

theorem longBox_firstFrame : firstFrame.longBox = 7 := by decide +kernel

theorem noTwin_firstFrame : NoTwin firstFrame.vm.objects 8 := by decide +kernel

/-- Frames for a callback that only posts itself again. -/
def frames : Nat → List ChoreoEvent
  | 0 => []
  | n + 1 => .drive frameEnv :: .post :: frames n

theorem used_of_frames {g g' : Choreo} {n : Nat} (hready : g.Ready)
    (hnone : NoTwin g.vm.objects 8) (hbox : g.longBox = 7) (hpending : g.pending = 0)
    (h : run (tryStep (Choreo.step (fun _ => false) fun _ => .object)) (some g)
      (.post :: frames n) = some g') : g'.used = g.used + n := by
  induction n generalizing g with
  | zero =>
    obtain rfl := some.inj h
    rfl
  | succ n ih =>
    obtain ⟨g₁, hpost, hafter⟩ := exists_step_of_run h
    obtain ⟨g₂, hdrive, hlater⟩ := exists_step_of_run hafter
    obtain rfl := some.inj hpost
    have hready₁ : Choreo.Ready { g with pending := u32 (g.pending + 1) } := { hready with }
    have hdelivers : Choreo.Delivers { g with pending := u32 (g.pending + 1) } frameEnv := by
      rw [hpending]
      exact ⟨rfl, one_ne_zero, frameEnv_delivers⟩
    rw [Choreo.step, Choreo.drive, if_pos hdelivers] at hdrive
    obtain ⟨-, hready₂, hused⟩ := Choreo.deliver_spec hdrive
    have hbox₂ : g₂.longBox = 7 := (Choreo.deliver_longBox hdrive hready.longBox).trans hbox
    have hnone₂ : NoTwin g₂.vm.objects 8 := by
      apply Choreo.deliver_noTwin hdrive hnone
      rw [hbox₂]
      decide
    have hrest := ih hready₂ hnone₂ hbox₂ (Choreo.deliver_pending hdrive) hlater
    have hone : g₂.used = g.used + 1 := (hused hready₁).trans (by rw [if_pos hnone]; rfl)
    omega

/-- **There is no bound.** -/
theorem not_bounded_frames :
    ¬ ∃ B, ∀ n, ∃ g, run (tryStep (Choreo.step (fun _ => false) fun _ => .object))
      (some frameStart) (frames n) = some g ∧ g.used ≤ frameStart.used + B := by
  rintro ⟨B, hbound⟩
  obtain ⟨g, hrun, hle⟩ := hbound (B + 2)
  obtain ⟨g₁, hdrive, hrest⟩ := exists_step_of_run hrun
  obtain rfl := some.inj hdrive
  have hdeliver := drive_frameStart
  have hused := used_of_frames (Choreo.deliver_spec hdeliver).2.1 noTwin_firstFrame
    longBox_firstFrame (Choreo.deliver_pending hdeliver) hrest
  rw [used_frameStart] at hle
  rw [used_firstFrame] at hused
  omega

end Lunaria.Jvm
