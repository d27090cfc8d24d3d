/-
# The directory of the archive

What is left behind when the archive cannot be read, and what the index says of directories: the
zip file has flat names, and `apk_list_dir` and `apk_is_dir` cut them at their slashes.
-/

import Lunaria.Apk.HostPaths
import Mathlib.Logic.Function.Iterate

namespace Lunaria.Apk

open Lib Zip List
open Elf (CStr cstr)

/-! ## `apk_open`, again and again -/

section Open

variable (env : ApkEnv) (fs : HostFs)

/-- The path that `apk_open` opens. -/
def archivePath : Option CStr :=
  match env.codePath with
  | none => none
  | some path =>
    match fs.stat path with
    | some (.dir _) => env.apkFile.filter (· ≠ [])
    | _ => some path

/-- What is opened, if anything is there, is a file with an end record in reach, and an empty code
path is no directory. -/
structure Openable : Prop where
  ending : ∀ path ∈ archivePath env fs, ∀ node ∈ fs.stat path,
    ∃ file, node = .file file ∧ findEocd (apkTail file) ≠ none
  path : env.codePath = some [] → archivePath env fs ≠ none

/-- The opened file is a valid archive whose comment does not show another end record. -/
def Archived (deflates : List UInt8 → List UInt8 → Prop) : Prop :=
  ∀ path ∈ archivePath env fs, ∀ node ∈ fs.stat path, ∃ file a, node = .file file ∧
    IsArchive deflates file a ∧ ¬ eocdSig <:+: a.comment ∧ NoStraddle a

/-- A first call that answers true leaves the complete index of a valid archive, if it has opened a
file. -/
def Indexed (deflates : List UInt8 → List UInt8 → Prop) : Prop :=
  (apkOpen env fs .initial).1 = true → ∀ path ∈ archivePath env fs, ∀ node ∈ fs.stat path,
    ∃ file a, node = .file file ∧ IsArchive deflates file a ∧
      (opened env fs).dir = a.entries.map fun e => (e.name, indexEntry e)

/-- The bridge after so many calls. -/
def openedBy (n : Nat) : Bridge := (fun b => (apkOpen env fs b).2)^[n] .initial

theorem openedBy_succ (n : Nat) : openedBy env fs (n + 1) = opened env fs := by
  induction n with
  | zero => rfl
  | succ n ih =>
    rw [openedBy, Function.iterate_succ_apply', ← openedBy, ih, apkOpen,
      if_pos (opened_tried env fs)]

/-- The first call: with no path to open, it answers whether there is a code path. -/
theorem apkOpen_initial : (archivePath env fs = none ∧ apkOpen env fs .initial =
      (env.codePath.isSome, ⟨true, none, env.codePath.getD [], []⟩)) ∨
    ∃ path dir, archivePath env fs = some path ∧
      apkOpen env fs .initial = openArchive fs path ⟨true, none, dir, []⟩ := by
  simp only [archivePath, apkOpen, Bridge.initial]
  cases env.codePath with
  | none => exact .inl ⟨rfl, rfl⟩
  | some path =>
    dsimp only
    rcases fs.stat path with _ | _ | size
    · exact .inr ⟨path, [], rfl, rfl⟩
    · exact .inr ⟨path, [], rfl, rfl⟩
    · rcases env.apkFile with _ | _ | ⟨b, apk⟩
      · exact .inl ⟨rfl, rfl⟩
      · exact .inl ⟨rfl, rfl⟩
      · exact .inr ⟨b :: apk, path, rfl, rfl⟩

theorem later_eq_first_iff : (apkOpen env fs (opened env fs)).1 = (apkOpen env fs .initial).1 ↔
    Openable env fs := by
  rw [apkOpen, opened]
  rcases apkOpen_initial env fs with ⟨hpath, hopen⟩ | ⟨path, dir, hpath, hopen⟩
  · have hiff : Openable env fs ↔ env.codePath ≠ some [] :=
      ⟨fun h hcode => h.path hcode hpath,
        fun h => ⟨fun path hmem => by simp [hpath] at hmem, fun hcode => absurd hcode h⟩⟩
    rw [hopen, hiff]
    rcases env.codePath with _ | _ | _ <;> simp
  · have hiff : Openable env fs ↔ ∀ node ∈ fs.stat path,
        ∃ file, node = .file file ∧ findEocd (apkTail file) ≠ none :=
      ⟨fun h => h.ending path hpath,
        fun h => ⟨fun q hq => by cases hpath.symm.trans hq; exact h, fun _ => by simp [hpath]⟩⟩
    rw [hopen, hiff]
    rcases hfile : fs.stat path with _ | file | size
    · simp [openArchive, hfile]
    · cases heocd : findEocd (apkTail file) <;> simp [openArchive, hfile, heocd]
    · simp [openArchive, hfile]

/-- The end record of an archive with so many entries, and nothing in front of it. -/
def endRecordOnly (count : UInt8) : List UInt8 :=
  eocdSig ++ [0, 0, 0, 0, count, 0, count, 0] ++ List.replicate 10 0

end Open

/-! ## Listing -/

/-- `pfx`. -/
def dirPrefix (name : CStr) : CStr :=
  if name = [] ∨ name.getLast? = some 47 then name else name ++ [47]

/-- The loop of `apk_list_dir` over the names that begin with `pfx`. -/
def listNames (pfx : CStr) : List CStr → List (CStr × Bool) → List (CStr × Bool)
  | [], out => out
  | e :: es, out =>
    let rest := e.drop pfx.length
    let child := rest.takeWhile (· ≠ 47)
    if child = [] ∨ child ∈ out.map (·.1) then listNames pfx es out
    else listNames pfx es (out ++ [(child, decide (47 ∈ rest))])

/-- `apk_list_dir` in zip mode; a map has its names in order. -/
def zipListDir (dir : List (CStr × ZipEntry)) (name : CStr) : List (CStr × Bool) :=
  listNames (dirPrefix name)
    ((dir.map (·.1)).mergeSort.filter (dirPrefix name).isPrefixOf) []

/-- `c` stands right below the directory `d`, which ends in its slash. -/
def Child (names : List CStr) (d c : CStr) : Prop :=
  c ≠ [] ∧ 47 ∉ c ∧ ∃ e ∈ names, e = d ++ c ∨ d ++ c ++ [47] <+: e

/-- The directory that a path names, whatever slashes it ends in. -/
def dirOf (name : CStr) : CStr := dirPrefix (name.reverse.dropWhile (· = 47)).reverse

theorem takeWhile_eq_iff (rest c : CStr) :
    rest.takeWhile (· ≠ 47) = c ↔ 47 ∉ c ∧ (rest = c ∨ c ++ [47] <+: rest) := by
  induction rest generalizing c with
  | nil => cases c <;> simp
  | cons b rest ih => cases c <;> grind [takeWhile_cons]

theorem listNames_spec (pfx : CStr) (es : List CStr) (out : List (CStr × Bool))
    (hout : (out.map (·.1)).Nodup) : ((listNames pfx es out).map (·.1)).Nodup ∧
      ∀ c, c ∈ (listNames pfx es out).map (·.1) ↔ c ∈ out.map (·.1) ∨
        c ≠ [] ∧ ∃ e ∈ es, (e.drop pfx.length).takeWhile (· ≠ 47) = c := by
  induction es generalizing out with
  | nil => simpa [listNames] using hout
  | cons e es ih =>
    simp only [listNames]
    split_ifs with h
    · have := ih out hout
      grind
    · have := ih (out ++ [((e.drop pfx.length).takeWhile (· ≠ 47),
        decide (47 ∈ e.drop pfx.length))]) (by grind)
      grind

theorem mem_zipListDir (dir : List (CStr × ZipEntry)) (name c : CStr) :
    c ∈ (zipListDir dir name).map (·.1) ↔ Child (dir.map (·.1)) (dirPrefix name) c := by
  simp only [zipListDir, (listNames_spec _ _ [] nodup_nil).2, takeWhile_eq_iff, Child,
    mem_filter, mem_mergeSort, isPrefixOf_iff_prefix, map_nil,
    not_mem_nil, false_or]
  refine and_congr_right fun _ => ⟨?_, ?_⟩
  · rintro ⟨e, ⟨he, rest, rfl⟩, hslash, h⟩
    rw [drop_left] at h
    refine ⟨hslash, _, he, h.imp (congrArg _) fun h => ?_⟩
    rwa [append_assoc, prefix_append_right_inj]
  · rintro ⟨hslash, e, he, rfl | ⟨rest, rfl⟩⟩
    · exact ⟨_, ⟨he, prefix_append ..⟩, hslash, .inl (drop_left ..)⟩
    · refine ⟨_, ⟨he, ?_⟩, hslash, .inr ?_⟩
      · simp
      · simp

/-- What the listing and `apk_is_dir` are to answer for a directory. -/
structure Lists (dir : List (CStr × ZipEntry)) (name : CStr) (listed : List CStr) (isDir : Bool) :
    Prop where
  nodup : listed.Nodup
  children : ∀ c, c ∈ listed ↔ Child (dir.map (·.1)) (dirOf name) c
  isDir : isDir = true ↔
    (∃ c, Child (dir.map (·.1)) (dirOf name) c) ∨ dirOf name ∈ dir.map (·.1)

/-- A directory that seems to be there, the root or one with an empty name below it, is there. A
path that ends in more slashes than one has the same children, and is there if the directory is. -/
structure Listable (names : List CStr) (name : CStr) : Prop where
  filled : name = [] ∨ (∃ e ∈ names, dirPrefix name ++ [47] <+: e) →
    (∃ c, Child names (dirOf name) c) ∨ dirOf name ∈ names
  slashes : dirPrefix name ≠ dirOf name →
    (∀ c, Child names (dirPrefix name) c ↔ Child names (dirOf name) c) ∧
      (dirPrefix name ∈ names → (∃ c, Child names (dirOf name) c) ∨ dirOf name ∈ names) ∧
        (dirOf name ∈ names → name = [] ∨ ∃ e ∈ names, dirPrefix name <+: e)

theorem Listable.same {names : List CStr} {name : CStr} (h : Listable names name) (c : CStr) :
    Child names (dirPrefix name) c ↔ Child names (dirOf name) c := by
  by_cases hone : dirPrefix name = dirOf name
  · rw [hone]
  · exact (h.slashes hone).1 c

theorem Listable.named {names : List CStr} {name : CStr} (h : Listable names name)
    (hname : dirPrefix name ∈ names) :
    (∃ c, Child names (dirOf name) c) ∨ dirOf name ∈ names := by
  by_cases hone : dirPrefix name = dirOf name
  · exact .inr (hone ▸ hname)
  · exact (h.slashes hone).2.1 hname

theorem Listable.entry {names : List CStr} {name : CStr} (h : Listable names name)
    (hdir : dirOf name ∈ names) : name = [] ∨ ∃ e ∈ names, dirPrefix name <+: e := by
  by_cases hone : dirPrefix name = dirOf name
  · exact .inr ⟨_, hdir, hone ▸ prefix_rfl⟩
  · exact (h.slashes hone).2.2 hdir

theorem apkIsDir_iff (env : ApkEnv) (fs : HostFs) (p : CStr) (dir : List (CStr × ZipEntry))
    (name : CStr) : (apkIsDir env fs ⟨true, some p, [], dir⟩ name).1 ↔
      name = [] ∨ ∃ e ∈ dir.map (·.1), dirPrefix name <+: e := by
  by_cases hname : name = [] <;> simp [apkIsDir, apkOpen, dirPrefix, hname]

theorem begins_iff (names : List CStr) (pfx : CStr) : (∃ e ∈ names, pfx <+: e) ↔
    pfx ∈ names ∨ (∃ e ∈ names, pfx ++ [47] <+: e) ∨ ∃ c, Child names pfx c := by
  constructor
  · rintro ⟨e, he, rest, rfl⟩
    rcases rest with _ | ⟨b, rest⟩
    · exact .inl (by simpa using he)
    by_cases hb : b = 47
    · exact .inr (.inl ⟨_, he, rest, by simp [hb]⟩)
    obtain ⟨hslash, h⟩ := (takeWhile_eq_iff ..).mp rfl
    refine .inr (.inr ⟨_, by simp [hb], hslash, _, he, h.imp (congrArg _) fun h => ?_⟩)
    rwa [append_assoc, prefix_append_right_inj]
  · rintro (h | ⟨e, he, h⟩ | ⟨c, -, -, e, he, rfl | h⟩)
    · exact ⟨pfx, h, prefix_rfl⟩
    · exact ⟨e, he, (prefix_append ..).trans h⟩
    · exact ⟨_, he, prefix_append ..⟩
    · exact ⟨e, he, (prefix_append ..).trans ((prefix_append ..).trans h)⟩

/-- **Directories of the zip file.** -/
theorem lists_iff (env : ApkEnv) (fs : HostFs) (p : CStr) (dir : List (CStr × ZipEntry))
    (name : CStr) : Lists dir name ((zipListDir dir name).map (·.1))
      (apkIsDir env fs ⟨true, some p, [], dir⟩ name).1 ↔ Listable (dir.map (·.1)) name := by
  have hbegins := begins_iff (dir.map (·.1)) (dirPrefix name)
  have hisDir := apkIsDir_iff env fs p dir name
  constructor
  · intro h
    have hthere := fun hd => h.isDir.mp (hisDir.mpr hd)
    refine ⟨fun hd => hthere (hd.imp_right fun hd => hbegins.mpr (.inr (.inl hd))), fun _ =>
      ⟨fun c => (mem_zipListDir dir name c).symm.trans (h.children c),
        fun hd => hthere (.inr (hbegins.mpr (.inl hd))),
        fun hd => hisDir.mp (h.isDir.mpr (.inr hd))⟩⟩
  intro h
  have hchild := exists_congr h.same
  refine ⟨(listNames_spec _ _ [] nodup_nil).1,
    fun c => (mem_zipListDir dir name c).trans (h.same c), hisDir.trans ⟨fun hd => ?_, ?_⟩⟩
  · rw [hbegins] at hd
    rcases hd with hd | hd | hd | hc
    · exact h.filled (.inl hd)
    · exact h.named hd
    · exact h.filled (.inr hd)
    · exact .inl (hchild.mp hc)
  · rintro (hc | hd)
    · exact .inr (hbegins.mpr (.inr (.inr (hchild.mpr hc))))
    · exact h.entry hd

/-- `a//` is not `a`. -/
theorem not_lists_slashes : ¬ Lists [(cstr "a/b", ⟨0, 0, 0, 0⟩)] (cstr "a//")
    ((zipListDir [(cstr "a/b", ⟨0, 0, 0, 0⟩)] (cstr "a//")).map (·.1))
    (apkIsDir apkEnv (apkFiles []) ⟨true, some [], [], [(cstr "a/b", ⟨0, 0, 0, 0⟩)]⟩
      (cstr "a//")).1 := by
  intro h
  have hb := (h.children (cstr "b")).mpr ⟨by decide, by decide, cstr "a/b", by decide, by decide⟩
  obtain ⟨-, -, e, he, h⟩ := (mem_zipListDir ..).mp hb
  cases mem_singleton.mp he
  revert h
  decide

end Lunaria.Apk
