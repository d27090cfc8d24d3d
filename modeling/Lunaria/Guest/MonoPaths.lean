/-
# Paths and URIs of Mono

Three handlers stand in for functions of `libmono` that turn file names into `file://` URIs and
back. Both directions fit together, and going twice in one changes nothing. -/

import Lunaria.Elf.Format
import Mathlib.Data.List.Infix

namespace Lunaria.Mono

open Elf List

/-- `std::string::replace` of the first occurrence `std::string::find` finds, if there is one. -/
def replaceFirst (needle new : CStr) : CStr → CStr
  | [] => []
  | c :: s =>
    if needle <+: c :: s then new ++ (c :: s).drop needle.length else c :: replaceFirst needle new s

def monoRewriteCorlibPath (path : CStr) : CStr :=
  if cstr "/mono/" <:+: path then path
  else replaceFirst (cstr "/Managed/mscorlib.dll") (cstr "/Managed/mono/2.0/mscorlib.dll") path

/-- `while (p[0] == '/' && p[1] == '/') ++p`. -/
def skipSlashes : CStr → CStr
  | [] => []
  | c :: s => if c = 47 ∧ s.head? = some 47 then skipSlashes s else c :: s

section Handlers

variable (alloc : Bool)

/-- `SVC_G_FILENAME_URI`, on the string behind its argument, with the outcome of the allocation. -/
def svcGFilenameUri : Option CStr → Option CStr
  | none => none
  | some inp =>
    let norm :=
      if cstr "file:" <+: inp then
        if (inp.drop 5).take 2 = cstr "//" then inp.drop 7 else inp.drop 5
      else
        let p := skipSlashes inp
        if p.head? = some 47 then p else 47 :: p
    if alloc then some (cstr "file://" ++ monoRewriteCorlibPath norm) else none

/-- `SVC_G_FILENAME_FROM_URI`; a host in the URI is skipped. -/
def svcGFilenameFromUri : Option CStr → Option CStr
  | none => none
  | some uri =>
    let fpath :=
      if cstr "file://" <+: uri then
        if (uri.drop 7).head? = some 47 then uri.drop 7 else (uri.drop 7).dropWhile (· ≠ 47)
      else uri
    if cstr "file://" <+: uri ∧ fpath = [] then none
    else if alloc then some fpath else none

/-- The first half of `SVC_MONO_PATH_NORM`: the components, each behind one slash, unless the string
is a URI. -/
def normalised (inp : CStr) : CStr :=
  if inp ≠ [] ∧ ¬ cstr "://" <:+: inp then
    let norm := [47].intercalate (((skipSlashes inp).splitOn 47).filter (· ≠ []))
    if norm ≠ [] ∧ norm.head? ≠ some 47 then 47 :: norm else norm
  else inp

/-- Its second half, behind the rewriting. -/
def asUri (norm : CStr) : CStr :=
  if norm ≠ [] ∧ ¬ cstr "://" <:+: norm then
    if norm.head? = some 47 then cstr "file://" ++ norm else cstr "file:///" ++ norm
  else norm

/-- `SVC_MONO_PATH_NORM`; without a new string the argument is returned. -/
def svcMonoPathNorm : Option CStr → Option CStr
  | none => none
  | some inp =>
    let uri := asUri (monoRewriteCorlibPath (normalised inp))
    if uri ≠ [] ∧ alloc then some uri else some inp

end Handlers

/-! ## What the rewriting leaves alone -/

variable {s : CStr}

theorem replaceFirst_cases (needle new s : CStr) :
    replaceFirst needle new s = s ∨ new <:+: replaceFirst needle new s := by
  induction s with
  | nil => exact .inl rfl
  | cons c s ih =>
    rw [replaceFirst]
    split
    · exact .inr (prefix_append ..).isInfix
    · exact ih.imp (congrArg _) infix_cons

theorem rewrite_of_mono (h : cstr "/mono/" <:+: s) : monoRewriteCorlibPath s = s := if_pos h

theorem rewrite_cases (s : CStr) :
    monoRewriteCorlibPath s = s ∨ cstr "/mono/" <:+: monoRewriteCorlibPath s := by
  rw [monoRewriteCorlibPath]
  split
  · exact .inl rfl
  · refine (replaceFirst_cases ..).imp_right (IsInfix.trans ?_)
    decide

theorem rewrite_rewrite (s : CStr) :
    monoRewriteCorlibPath (monoRewriteCorlibPath s) = monoRewriteCorlibPath s := by
  rcases rewrite_cases s with heq | hmono
  · rw [heq, heq]
  · exact rewrite_of_mono hmono

theorem rewrite_cons {c : UInt8} (h : c = 47 → s.head? ≠ some 77 ∧ s.head? ≠ some 109) :
    monoRewriteCorlibPath (c :: s) = c :: s ↔ monoRewriteCorlibPath s = s := by
  have hpre {d : UInt8} {t : CStr} (hd : d = 77 ∨ d = 109) : ¬ 47 :: d :: t <+: c :: s := by
    rintro ⟨rest, heq⟩
    obtain ⟨rfl, rfl⟩ := cons.inj heq
    rcases hd with rfl | rfl
    · exact (h rfl).1 rfl
    · exact (h rfl).2 rfl
  have hmono : ¬ cstr "/mono/" <+: c :: s := hpre (.inr rfl)
  have hneedle : ¬ cstr "/Managed/mscorlib.dll" <+: c :: s := hpre (.inl rfl)
  simp only [monoRewriteCorlibPath, infix_cons_iff, hmono, false_or, replaceFirst, if_neg hneedle]
  split <;> simp

theorem cstr_file : cstr "file://" = [102, 105, 108, 101, 58, 47, 47] := by decide

theorem rewrite_file (h : monoRewriteCorlibPath (47 :: s) = 47 :: s) :
    monoRewriteCorlibPath (cstr "file://" ++ 47 :: s) = cstr "file://" ++ 47 :: s := by
  simpa [cstr_file, rewrite_cons] using h

/-! ## The laws -/

theorem svcGFilenameUri_file (s : CStr) : svcGFilenameUri true (some (cstr "file://" ++ s)) =
      some (cstr "file://" ++ monoRewriteCorlibPath s) := by
  have hscheme : cstr "file:" = [102, 105, 108, 101, 58] := by decide
  have hslashes : cstr "//" = [47, 47] := by decide
  simp [svcGFilenameUri, cstr_file, hscheme, hslashes]

theorem svcMonoPathNorm_of_uri (huri : cstr "://" <:+: s) (h : monoRewriteCorlibPath s = s) :
    svcMonoPathNorm true (some s) = some s := by
  simp [svcMonoPathNorm, normalised, asUri, huri, h]

theorem normalised_cases (s : CStr) :
    normalised s = [] ∨ cstr "://" <:+: normalised s ∨ ∃ rest, normalised s = 47 :: rest := by
  rw [normalised]
  split_ifs with hpath
  · simp only
    split_ifs with hroot
    · exact .inr (.inr ⟨_, rfl⟩)
    · grind [head?_eq_some_iff]
  · tauto

theorem scheme_asUri {norm : CStr} (h : asUri norm ≠ []) : cstr "://" <:+: asUri norm := by
  have hfile : cstr "://" <:+: cstr "file://" := by decide
  have hroot : cstr "://" <:+: cstr "file:///" := by decide
  rw [asUri] at h ⊢
  split_ifs at h ⊢ with hnorm hslash
  · exact hfile.trans (prefix_append ..).isInfix
  · exact hroot.trans (prefix_append ..).isInfix
  · by_contra huri
    exact hnorm ⟨h, huri⟩

theorem rewrite_asUri (s : CStr) :
    monoRewriteCorlibPath (asUri (monoRewriteCorlibPath (normalised s))) =
      asUri (monoRewriteCorlibPath (normalised s)) := by
  rcases rewrite_cases (normalised s) with heq | hmono
  · rw [heq]
    rcases normalised_cases s with hnil | huri | ⟨rest, hrest⟩
    · rw [hnil]
      rfl
    · rwa [asUri, if_neg fun h => h.2 huri]
    · rw [hrest] at heq ⊢
      rw [asUri]
      split
      · exact rewrite_file heq
      · exact heq
  · apply rewrite_of_mono
    rw [asUri]
    split_ifs <;> first | exact hmono.trans (suffix_append ..).isInfix | exact hmono

theorem skipSlashes_eq (rest : CStr) :
    skipSlashes (47 :: rest) = 47 :: rest.dropWhile (· = 47) := by
  induction rest with
  | nil => rfl
  | cons c rest ih =>
    by_cases hc : c = 47
    · simp [skipSlashes, hc, ← ih]
    · simp [skipSlashes, hc]

theorem rewrite_skipSlashes (h : monoRewriteCorlibPath s = s) :
    monoRewriteCorlibPath (skipSlashes s) = skipSlashes s := by
  induction s with
  | nil => exact h
  | cons c s ih =>
    rw [skipSlashes]
    split
    · rename_i hslash
      refine ih ((rewrite_cons fun _ => ?_).mp h)
      simp [hslash.2]
    · exact h

/-- **The handlers fit together.** -/
theorem monoPaths_laws :
    (∀ s, svcGFilenameUri true (svcGFilenameUri true s) = svcGFilenameUri true s) ∧
      (∀ s, svcMonoPathNorm true (svcMonoPathNorm true s) = svcMonoPathNorm true s) ∧
        ∀ rest, monoRewriteCorlibPath (47 :: rest) = 47 :: rest →
          svcGFilenameFromUri true (svcGFilenameUri true (some (47 :: rest))) =
            some (47 :: rest.dropWhile (· = 47)) := by
  refine ⟨fun s => ?_, fun s => ?_, fun rest h => ?_⟩
  · cases s with
    | none => rfl
    | some s =>
      obtain ⟨norm, hnorm⟩ : ∃ norm, svcGFilenameUri true (some s) =
          some (cstr "file://" ++ monoRewriteCorlibPath norm) := ⟨_, rfl⟩
      rw [hnorm, svcGFilenameUri_file, rewrite_rewrite]
  · cases s with
    | none => rfl
    | some s =>
      by_cases huri : asUri (monoRewriteCorlibPath (normalised s)) = []
      · have hsame : svcMonoPathNorm true (some s) = some s := by simp [svcMonoPathNorm, huri]
        rw [hsame, hsame]
      · have huri' : svcMonoPathNorm true (some s) = some _ := if_pos ⟨huri, rfl⟩
        rw [huri', svcMonoPathNorm_of_uri (scheme_asUri huri) (rewrite_asUri s)]
  · have hscheme : cstr "file:" = [102, 105, 108, 101, 58] := by decide
    have hkept := rewrite_skipSlashes h
    rw [skipSlashes_eq] at hkept
    simp [svcGFilenameUri, svcGFilenameFromUri, hscheme, skipSlashes_eq, hkept, cstr_file]

end Lunaria.Mono
