/-
# Classes, methods and strings

Class handles stand for names, method and field handles for a class handle, a name and a signature,
and string handles for contents. The table is tidy from the start and stays so, and every handle
the guest was given keeps standing for what it asked for; so two requests of one kind are answered
alike exactly when they ask for the same.

A class name is rewritten before it is looked up. The loop that does it gives up at an empty path
segment, and only there it differs from replacing every slash.
-/

import Lunaria.Jvm.Calls
import Mathlib.Data.List.Chain

namespace Lunaria.Jvm

open Lib Elf List Option

/-! ## Class names -/

/-- A class name with dots for slashes. -/
def dotted (name : List UInt8) : List UInt8 := name.map fun c => if c = 47 then 46 else c

def NoEmptySegment (name : List UInt8) : Prop := [] ∉ name.splitOn 47
  deriving Decidable

/-- Inside a segment the first one may be empty, since it has begun before. -/
theorem cstrReplace_eq_dotted {start : Bool} {name : List UInt8}
    (h : [] ∉ if start then name.splitOn 47 else (name.splitOn 47).tail) :
    cstrReplace start name = dotted name := by
  induction name generalizing start with
  | nil => rfl
  | cons c name ih =>
    rw [splitOn_cons_eq_if_modifyHead] at h
    by_cases hc : c = 47
    · subst hc
      cases start with
      | true => simp at h
      | false =>
        have hrest : [] ∉ if true then name.splitOn 47 else (name.splitOn 47).tail := by
          simpa using h
        simp [cstrReplace, dotted, ih hrest]
    · have hne : (c == 47) = false := by simpa using hc
      have hrest : [] ∉ if false then name.splitOn 47 else (name.splitOn 47).tail := by
        simp only [hne, Bool.false_eq_true, if_false, tail_modifyHead] at h
        cases start with
        | false => exact h
        | true =>
          intro hmem
          apply h
          rw [if_pos rfl]
          exact mem_of_mem_tail (by rwa [tail_modifyHead])
      rw [cstrReplace, if_neg hc, ih hrest, dotted, dotted, map_cons, if_neg hc]

theorem NoEmptySegment.cstrReplace {name : List UInt8} (h : NoEmptySegment name) :
    cstrReplace true name = dotted name := cstrReplace_eq_dotted h

/-! ### Separators -/

/-- No separator stands first or directly behind another. -/
def Spaced (stops : List UInt8) (s : List UInt8) : Prop :=
  (∀ b ∈ s.head?, b ∉ stops) ∧ s.IsChain fun a b => a ∈ stops → b ∉ stops

section Separators

variable {stops : List UInt8} {c : UInt8} {start : Bool} {s : List UInt8}

/-- What is left of the separators decides whether the loop met a gap of length zero. -/
theorem cstrReplaceAny_clean :
    (∀ b ∈ cstrReplaceAny stops c start s, b ∉ stops) ↔
      (c ∈ stops → ∀ b ∈ s, b ∉ stops) ∧ (start → ∀ b ∈ s.head?, b ∉ stops) ∧
        s.IsChain fun a b => a ∈ stops → b ∉ stops := by
  induction s generalizing start with
  | nil => simp [cstrReplaceAny]
  | cons b s ih =>
    rw [cstrReplaceAny, isChain_cons]
    by_cases hb : b ∈ stops
    · cases start with
      | true => simp [hb]
      | false => by_cases hc : c ∈ stops <;> simp [hb, hc, ih]
    · simp [hb, ih]

theorem cstrReplaceAny_eq_map (h : ∀ b ∈ cstrReplaceAny stops c start s, b ∉ stops) :
    cstrReplaceAny stops c start s = s.map fun b => if b ∈ stops then c else b := by
  induction s generalizing start with
  | nil => rfl
  | cons b s ih =>
    rw [cstrReplaceAny] at h ⊢
    by_cases hb : b ∈ stops
    · cases start with
      | true => simp [hb] at h
      | false => simp_all
    · simp_all

theorem cstrReplace_eq_any : cstrReplace start s = cstrReplaceAny [47] 46 start s := by
  induction s generalizing start with
  | nil => rfl
  | cons b s ih => simp [cstrReplace, cstrReplaceAny, ih]

end Separators

/-- **Replacing separators is right exactly where it meets no gap of length zero** and does not put
in what it takes out; so for the names of classes, and the symbols that fit. -/
theorem cstrReplaceAny_iff (stops : CStr) (c : UInt8) (s : CStr) :
    ((∀ b ∈ cstrReplaceAny stops c true s, b ∉ stops) ∧
        cstrReplaceAny stops c true s = s.map (fun b => if b ∈ stops then c else b) ↔
      (c ∈ stops → ∀ b ∈ s, b ∉ stops) ∧ Spaced stops s) ∧
    (∀ objects objects' name klass, makeClass objects name = some (klass, objects') →
      ∃ stored, className objects' klass = some stored ∧ (47 ∉ stored ↔ Spaced [47] name)) ∧
    ∀ klass name, (klass ++ cstr "_" ++ name).length ≤ 254 →
      ((∀ b ∈ formSymbol klass name, b ∉ cstr "./$") ↔
        Spaced (cstr "./$") (klass ++ cstr "_" ++ name)) := by
  have hclean (stops c s) : (∀ b ∈ cstrReplaceAny stops c true s, b ∉ stops) ↔
      (c ∈ stops → ∀ b ∈ s, b ∉ stops) ∧ Spaced stops s := by
    simp [cstrReplaceAny_clean, Spaced]
  refine ⟨?_, fun objects objects' name klass h => ?_, fun klass name h => ?_⟩
  · rw [← hclean, and_iff_left_of_imp cstrReplaceAny_eq_map]
  · refine ⟨_, (makeClass_spec h).2.1, ?_⟩
    have h47 := hclean [47] 46 name
    rw [← cstrReplace_eq_any] at h47
    simpa [forall_mem_ne'] using h47
  · rw [formSymbol, take_of_length_le h, hclean]
    exact and_iff_right fun h => absurd h (by decide)

/-- The second of two slashes stays. -/
theorem cstrReplaceAny_twice :
    cstrReplaceAny (cstr "/") 46 true (cstr "a//b") = cstr "a./b" := by decide +kernel

/-! ## The invariant -/

namespace Vm

/-- The table is tidy, and every handle in the log stands for what was asked for. A method of no
class has no handle. -/
structure Interns (g : Vm) : Prop where
  tidy : Tidy g.objects
  denotes : ∀ call handle body, (call, handle) ∈ g.log → VmCall.denotes call = some body →
    bodyAt g.objects handle = some body
  null : ∀ name signature handle, (.jni (.getMethodId 0 name signature), handle) ∈ g.log →
    handle = 0

variable {dlsym : List UInt8 → Bool} {type : Nat → FieldType} {g g' : Vm} {call : VmCall}

theorem interns_initial : Interns initial where
  tidy i j a b ha hb _ _ := by
    have hone {p : Nat} {x : Object} (hx : getObject initialObjects p = some x) : p = 1 := by
      rw [getObject] at hx
      split at hx
      · cases hx
      · have hlt : p - 1 < 1 := (List.getElem?_eq_some_iff.mp hx).1
        omega
    rw [hone ha, hone hb]
  denotes call handle body h := by cases h
  null name signature handle h := by cases h

theorem denotes_constant {body : Body} (h : call.denotes = some body) : body.isArray = false := by
  cases call with
  | jni call => exact Call.denotes_constant h
  | newObject _ | getField _ _ | setField _ _ _ => cases h

theorem Interns.log (h : Interns g) {t : Objects} (hkeeps : Keeps g.objects t) {a : Nat}
    (hdenotes : ∀ body, call.denotes = some body → bodyAt t a = some body)
    (hnull : ∀ name signature, call = .jni (.getMethodId 0 name signature) → a = 0)
    (fields : List ((Nat × Nat) × List UInt8)) : Interns ⟨t, fields, (call, a) :: g.log⟩ where
  tidy := hkeeps.tidy h.tidy
  denotes call' handle body hmem hbody := by
    rcases mem_cons.mp hmem with heq | hold
    · cases heq
      exact hdenotes body hbody
    · exact hkeeps.bodyAt (denotes_constant hbody) (h.denotes call' handle body hold hbody)
  null name signature handle hmem := by
    rcases mem_cons.mp hmem with heq | hold
    · obtain ⟨hcall, rfl⟩ := Prod.mk.inj heq
      exact hnull name signature hcall.symm
    · exact h.null name signature handle hold

theorem keeps_of_step (h : g.step dlsym type call = some g') : Keeps g.objects g'.objects := by
  cases step_outcome h with
  | carries hcarries hbound hdenotes hnull halloc hsets => exact hcarries.toKeeps
  | allocates halloc hsets hdenotes hclass hallocated => exact hallocated.keeps
  | sets hcall hsize hwrap => exact (wrapMethod_carries hwrap).toKeeps

/-- What a handle denotes at the end of a run is what it denoted at its beginning. -/
theorem bodyAt_run {handle : Nat} {body : Body} (hbody : body.isArray = false)
    (hat : bodyAt g.objects handle = some body) {later : List VmCall}
    (hlater : run (tryStep (Vm.step dlsym type)) (some g) later = some g') :
    bodyAt g'.objects handle = some body := by
  have hkeeps (g : Vm) (call : VmCall) (g' : Vm) (hg : bodyAt g.objects handle = some body)
      (hstep : g.step dlsym type call = some g') : bodyAt g'.objects handle = some body :=
    (keeps_of_step hstep).bodyAt hbody hg
  exact run_tryStep_invariant hkeeps hat hlater

theorem Interns.step (h : Interns g) (hstep : g.step dlsym type call = some g') : Interns g' := by
  have hkeeps := keeps_of_step hstep
  cases step_outcome hstep with
  | carries hcarries hbound hdenotes hnull halloc hsets => exact h.log hkeeps hdenotes hnull _
  | allocates halloc hsets hdenotes hclass hallocated =>
    apply h.log hkeeps
    · intro body hbody
      rw [hdenotes] at hbody
      cases hbody
    · rintro name signature rfl
      cases halloc
  | sets hcall hsize hwrap =>
    subst hcall
    apply h.log hkeeps
    · intro body hbody
      cases hbody
    · intro name signature heq
      cases heq

theorem denotes_ne_opaque {body : Body} (h : call.denotes = some body) : body ≠ .opaqueObject := by
  rintro rfl
  cases call with
  | jni call => cases call <;> simp [VmCall.denotes, Call.denotes] at h
  | newObject _ | getField _ _ | setField _ _ _ => cases h

/-- **Two requests are answered alike exactly when they ask for the same.** -/
theorem Interns.handle_eq_iff (h : Interns g) {call' : VmCall} {i j : Nat} {body body' : Body}
    (hi : (call, i) ∈ g.log) (hj : (call', j) ∈ g.log) (hbody : call.denotes = some body)
    (hbody' : call'.denotes = some body') : i = j ↔ body = body' := by
  have hati := h.denotes call i body hi hbody
  have hatj := h.denotes call' j body' hj hbody'
  constructor
  · rintro rfl
    exact some.inj (hati.symm.trans hatj)
  rintro rfl
  obtain ⟨o, hgeti, rfl⟩ := map_eq_some_iff.mp hati
  obtain ⟨o', hgetj, hsame⟩ := map_eq_some_iff.mp hatj
  apply h.tidy i j o o' hgeti hgetj (denotes_constant hbody)
  rw [Object.same_congr hsame.symm (hsame ▸ denotes_ne_opaque hbody)]
  exact o'.same_self

end Vm

/-- **Classes, methods and strings are interned.** Along every run, handles of `FindClass` are equal
exactly for equal names with dots for slashes, those of `GetMethodID` or `GetFieldID` exactly for
equal class, name and signature, and a handle denotes later what it denotes now. -/
theorem handles_interned {dlsym : List UInt8 → Bool} {type : Nat → FieldType}
    {earlier later : List VmCall} {g₁ g₂ : Vm}
    (h₁ : run (tryStep (Vm.step dlsym type)) (some .initial) earlier = some g₁)
    (h₂ : run (tryStep (Vm.step dlsym type)) (some g₁) later = some g₂) :
    (∀ a b i j, (.jni (.findClass a), i) ∈ g₂.log → (.jni (.findClass b), j) ∈ g₂.log →
      NoEmptySegment a → NoEmptySegment b → (i = j ↔ dotted a = dotted b)) ∧
    (∀ c n s i c' n' s' j, (.jni (.getMethodId c n s), i) ∈ g₂.log →
      (.jni (.getMethodId c' n' s'), j) ∈ g₂.log →
        if c = 0 then i = 0 else i ≠ 0 ∧ (i = j ↔ c = c' ∧ n = n' ∧ s = s')) ∧
    (∀ call i body, (call, i) ∈ g₂.log → call.denotes = some body →
      bodyAt g₂.objects i = some body) ∧
    ∀ i body, body.isArray = false → bodyAt g₁.objects i = some body →
      bodyAt g₂.objects i = some body := by
  have hstep (g : Vm) (call : VmCall) (g' : Vm) (h : g.Interns)
      (hg : g.step dlsym type call = some g') : g'.Interns := h.step hg
  have hinterns :=
    run_tryStep_invariant hstep (run_tryStep_invariant hstep Vm.interns_initial h₁) h₂
  refine ⟨?_, ?_, hinterns.denotes, fun _ _ hbody hat => Vm.bodyAt_run hbody hat h₂⟩
  · intro a b i j hi hj ha hb
    have hiff := hinterns.handle_eq_iff hi hj rfl rfl
    rw [hiff, ha.cstrReplace, hb.cstrReplace, Body.klass.injEq]
  intro c n s i c' n' s' j hi hj
  by_cases hc : c = 0
  · subst hc
    exact hinterns.null n s i hi
  have hbody : VmCall.denotes (.jni (.getMethodId c n s)) = some (.method c n s) := if_neg hc
  have hi0 : i ≠ 0 := by
    rintro rfl
    cases hinterns.denotes _ _ _ hi hbody
  rw [if_neg hc]
  refine ⟨hi0, ?_⟩
  by_cases hc' : c' = 0
  · subst hc'
    rw [hinterns.null n' s' j hj]
    exact ⟨fun heq => absurd heq hi0, fun heq => absurd heq.1 hc⟩
  · have hbody' : VmCall.denotes (.jni (.getMethodId c' n' s')) = some (.method c' n' s') :=
      if_neg hc'
    rw [hinterns.handle_eq_iff hi hj hbody hbody', Body.method.injEq]

/-- Two requests for methods of a null class are answered alike, whatever the names. -/
theorem null_class_not_interned : ¬ ∀ (calls : List VmCall) (g : Vm),
    run (tryStep (Vm.step (fun _ => false) fun _ => .object)) (some .initial) calls = some g →
      ∀ c n s i c' n' s' j, (.jni (.getMethodId c n s), i) ∈ g.log →
        (.jni (.getMethodId c' n' s'), j) ∈ g.log → (i = j ↔ c = c' ∧ n = n' ∧ s = s') := by
  intro h
  have hlog : (run (tryStep (Vm.step (fun _ => false) fun _ => .object)) (some .initial)
      [.jni (.getMethodId 0 [] []), .jni (.getMethodId 0 [97] [])]).map Vm.log =
      some [(.jni (.getMethodId 0 [97] []), 0), (.jni (.getMethodId 0 [] []), 0)] := rfl
  obtain ⟨g, hrun, hg⟩ := map_eq_some_iff.mp hlog
  have hsame := h _ g hrun 0 [] [] 0 0 [97] [] 0 (by simp [hg]) (by simp [hg])
  exact absurd (hsame.mp rfl).2.1 (by decide)

/-- Two spellings of one class with a method between them. -/
def spelledTwice : List VmCall :=
  [.jni (.findClass (cstr "a/B")), .jni (.getMethodId 2 (cstr "run") (cstr "()V")),
    .jni (.findClass (cstr "a.B"))]

/-- A string, a method of no class, and an object. -/
def afterwards : List VmCall :=
  [.jni (.newString (cstr "a")), .jni (.getMethodId 0 [] []), .newObject 2]

theorem spelledTwice_interned :
    ∃ g₁ g₂,
      run (tryStep (Vm.step (fun _ => false) fun _ => .object)) (some .initial) spelledTwice =
        some g₁ ∧
      run (tryStep (Vm.step (fun _ => false) fun _ => .object)) (some g₁) afterwards = some g₂ ∧
      g₂.log.map Prod.snd = [7, 0, 5, 2, 3, 2] ∧
      (∀ a b i j, (.jni (.findClass a), i) ∈ g₂.log → (.jni (.findClass b), j) ∈ g₂.log →
        NoEmptySegment a → NoEmptySegment b → (i = j ↔ dotted a = dotted b)) ∧
      ∀ i body, body.isArray = false → bodyAt g₁.objects i = some body →
        bodyAt g₂.objects i = some body := by
  have hlog : (run (tryStep (Vm.step (fun _ => false) fun _ => .object))
      (run (tryStep (Vm.step (fun _ => false) fun _ => .object)) (some .initial) spelledTwice)
      afterwards).map (fun g => g.log.map Prod.snd) = some [7, 0, 5, 2, 3, 2] := by decide +kernel
  have hsome : (run (tryStep (Vm.step (fun _ => false) fun _ => .object)) (some .initial)
      spelledTwice).isSome := by decide +kernel
  obtain ⟨g₁, h₁⟩ := isSome_iff_exists.mp hsome
  rw [h₁] at hlog
  obtain ⟨g₂, h₂, hanswers⟩ := map_eq_some_iff.mp hlog
  have h := handles_interned h₁ h₂
  exact ⟨g₁, g₂, h₁, h₂, hanswers, h.1, h.2.2.2⟩

end Lunaria.Jvm
