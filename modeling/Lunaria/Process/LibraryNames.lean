/-
# Where a library name leads

`ClassLoader.findLibrary`, in the JNI bridge and as a host stub, and the guest's `dlopen` each build
paths from a name and take the first that exists. The two `findLibrary` build the same paths. Those
of `dlopen` differ: it looks into the working directory first, and it does not tell names with the
prefix `lib` from others.
-/

import Lunaria.Elf.Format
import Mathlib.Data.List.Infix

namespace Lunaria.LibraryNames

open Elf List

/-- The system libraries: `dlopen` has a sentinel for a name that one of these occurs in. -/
def systemLibs : List CStr :=
  ["libandroid.so", "libaaudio.so", "libc.so", "libGLESv", "libEGL.so", "libOpenSLES.so",
    "libm.so", "libz.so"].map cstr

/-- `snprintf` of a path below the directory, into 4096 bytes. -/
def cand (dir pre name suf : CStr) : CStr := (dir ++ 47 :: (pre ++ name ++ suf)).take 4095

def lib : CStr := cstr "lib"

def so : CStr := cstr ".so"

section

variable (dir name : CStr)

def hasSo : Bool := decide (3 < name.length) && so.isSuffixOf name

def hasLib : Bool := decide (3 < name.length) && lib.isPrefixOf name

/-- A name with a slash: as it is, then with the suffix if that is missing. -/
def pathCands : List CStr :=
  name :: if name.length + 4 < 4096 ∧ ¬ so <:+ name then [name ++ so] else []

/-- The spellings of a bare name that both `findLibrary` try below the directory. -/
def spellings : List CStr :=
  if hasSo name then [cand dir [] name []]
  else if hasLib name then [cand dir [] name so, cand dir [] name []]
  else [cand dir lib name so, cand dir [] name so, cand dir lib name [], cand dir [] name []]

/-- What `findLibrary` of the JNI bridge tries. -/
def bridgeCands : List CStr :=
  if name = [] then []
  else if 47 ∈ name then pathCands name
  else if dir ≠ [] then spellings dir name
  else []

/-- What `java_lang_ClassLoader_findLibrary` tries. -/
def stubCands : List CStr :=
  if name = [] then []
  else if 47 ∈ name then pathCands name
  else if dir ≠ [] then spellings dir name
  else if hasSo name then [name]
  else if hasLib name then [(name ++ so).take 4095]
  else [(lib ++ name ++ so).take 4095]

/-- What `SVC_DLOPEN` tries. -/
def dlopenCands : List CStr :=
  if 47 ∈ name then pathCands name
  else name ::
    if dir = [] then []
    else if hasSo name then [cand dir [] name [], cand dir lib name [], cand dir [] name []]
    else [cand dir lib name so, cand dir [] name so, cand dir [] name []]

variable {File : Type} (fs : CStr → Option File)

/-- The name of a system library occurs in the name. -/
def IsSystem : Prop := ∃ sys ∈ systemLibs, sys <:+: name
  deriving Decidable

/-- `SVC_DLOPEN`: the file of the first path that exists; `none` is the sentinel. -/
def svcDlopen : Option (Option File) :=
  if IsSystem name then none else some ((dlopenCands dir name).findSome? fs)

/-- All three find the same file or none. -/
def Agree : Prop :=
  (stubCands dir name).findSome? fs = (bridgeCands dir name).findSome? fs ∧
    svcDlopen dir name fs = some ((bridgeCands dir name).findSome? fs)

/-- The name is none of a system library. What `dlopen` alone tries is not there, or is the same
file as the first spelling that is; what it alone leaves out is not there, or some path before it
is, or it is the file of the last. -/
def Undisturbed : Prop :=
  ¬ IsSystem name ∧
  if 47 ∈ name then True
  else if name = [] then ∀ path ∈ dlopenCands dir name, fs path = none
  else if fs name ≠ none then fs name = (spellings dir name).findSome? fs
  else if hasSo name then fs (cand dir [] name []) ≠ none ∨ fs (cand dir lib name []) = none
  else if hasLib name then
    fs (cand dir lib name so) = none ∨ fs (cand dir lib name so) = (spellings dir name).findSome? fs
  else
    fs (cand dir lib name so) ≠ none ∨ fs (cand dir [] name so) ≠ none ∨
      fs (cand dir lib name []) = none ∨ fs (cand dir lib name []) = fs (cand dir [] name [])

end

/-- A main library directory and the name of a library. -/
structure Query where
  dir : CStr
  name : CStr
  dir_ne : dir ≠ []

variable {File : Type} {fs : CStr → Option File} {a b c e : CStr}

theorem findSome?_cons_eq_iff {l : List CStr} :
    (a :: l).findSome? fs = l.findSome? fs ↔ fs a = none ∨ fs a = l.findSome? fs := by
  rw [findSome?_cons]
  cases fs a <;> simp

theorem findSome?_behind_iff : [a, b, a].findSome? fs = [a].findSome? fs ↔
    fs a ≠ none ∨ fs b = none := by
  simp only [findSome?_cons]
  cases fs a <;> cases fs b <;> simp

theorem findSome?_without_iff : [a, b, e].findSome? fs = [a, b, c, e].findSome? fs ↔
    fs a ≠ none ∨ fs b ≠ none ∨ fs c = none ∨ fs c = fs e := by
  simp only [findSome?_cons]
  cases fs a <;> cases fs b <;> cases fs c <;> cases fs e <;> simp [eq_comm]

/-- **The three agree exactly if what `dlopen` has more and less makes no difference.** -/
theorem agree_iff_undisturbed (q : Query) :
    Agree q.dir q.name fs ↔ Undisturbed q.dir q.name fs := by
  have hstub : stubCands q.dir q.name = bridgeCands q.dir q.name := by
    simp [stubCands, bridgeCands, q.dir_ne]
  rw [Agree, hstub, eq_self, true_and, svcDlopen, Undisturbed]
  by_cases hsystem : IsSystem q.name
  · rw [if_pos hsystem]
    exact ⟨nofun, fun h => absurd hsystem h.1⟩
  rw [if_neg hsystem, Option.some_inj, and_iff_right hsystem, bridgeCands]
  by_cases hslash : 47 ∈ q.name
  · have hname : q.name ≠ [] := ne_nil_of_mem hslash
    simp [hslash, hname, dlopenCands]
  by_cases hname : q.name = []
  · simp [hname]
  rw [if_neg hname, if_neg hslash, if_pos q.dir_ne, if_neg hslash, if_neg hname, dlopenCands,
    if_neg hslash, if_neg q.dir_ne, findSome?_cons]
  cases fs q.name with
  | some file => simp
  | none =>
    cases hso : hasSo q.name
    · cases hlib : hasLib q.name
      · simpa [spellings, hso, hlib] using findSome?_without_iff
      · simpa [spellings, hso, hlib] using findSome?_cons_eq_iff
    · simpa [spellings, hso] using findSome?_behind_iff

/-- A library of that name in the working directory and another in the APK. -/
theorem dlopen_prefers_working_directory : ¬ ∀ (q : Query) (fs : CStr → Option Nat),
    Agree q.dir q.name fs := by
  intro h
  have hagree := h ⟨cstr "/apk", cstr "mono", by decide⟩ fun path =>
    if path = cstr "mono" then some 0 else if path = cstr "/apk/libmono.so" then some 1 else none
  exact absurd hagree.2 (by decide +kernel)

end Lunaria.LibraryNames
