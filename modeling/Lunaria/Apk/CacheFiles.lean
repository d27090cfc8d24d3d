/-
# Cache files

Writing a cache file changes the host at the path of that file alone, apart from new directories.
With that the functions that fill the cache are searches, followed by one reuse or one write.
-/

import Lunaria.Apk.AssetLookup

namespace Lunaria.Apk

open Lib FirstHit List
open Elf (CStr cstr)

variable {z : Zlib} {env : ApkEnv} {fs fs' : HostFs} {b : Bridge}

/-! ## Writing -/

/-- The regular files are the same, apart from one path. -/
structure SameBut (fs fs' : HostFs) (out : CStr) : Prop where
  resolve : fs'.resolve = fs.resolve
  bytes : ∀ p, p ≠ fs.resolve out → fs'.bytes? p = fs.bytes? p

theorem SameBut.trans {fs'' : HostFs} {out : CStr} (h : SameBut fs fs' out)
    (h' : SameBut fs' fs'' out) : SameBut fs fs'' out :=
  ⟨h'.resolve.trans h.resolve, fun p hp =>
    (h'.bytes p (h.resolve ▸ hp)).trans (h.bytes p hp)⟩

namespace HostFs

theorem bytes?_set_self (fs : HostFs) (path : CStr) (node : Option Node) :
    (fs.set path node).bytes? (fs.resolve path) = node.bind Node.bytes? := by
  simp [bytes?, set]

theorem bytes?_set_of_ne {path p : CStr} {node : Option Node}
    (hp : p ≠ fs.resolve path) : (fs.set path node).bytes? p = fs.bytes? p := by
  simp [bytes?, set, if_neg hp]

theorem set_sameBut (fs : HostFs) (out : CStr) (node : Option Node) :
    SameBut fs (fs.set out node) out :=
  ⟨rfl, fun _ => bytes?_set_of_ne⟩

theorem mkdir_cases (fs : HostFs) (size : Nat) (path : CStr) : fs.mkdir size path = fs ∨
    fs.stat path = none ∧ fs.mkdir size path = fs.set path (some (.dir size)) := by
  rw [mkdir]
  split
  · rename_i hstat _
    exact .inr ⟨hstat, rfl⟩
  · exact .inl rfl

theorem mkdir_bytes? (fs : HostFs) (size : Nat) (path p : CStr) :
    (fs.mkdir size path).bytes? p = fs.bytes? p := by
  rcases fs.mkdir_cases size path with hsame | ⟨hstat, hmade⟩
  · rw [hsame]
  · rw [hmade]
    by_cases hp : p = fs.resolve path
    · rw [stat] at hstat
      rw [hp, bytes?_set_self, bytes?, hstat]
      rfl
    · exact bytes?_set_of_ne hp

theorem mkdir_resolve (fs : HostFs) (size : Nat) (path : CStr) :
    (fs.mkdir size path).resolve = fs.resolve := by
  rcases fs.mkdir_cases size path with hsame | ⟨-, hmade⟩
  · rw [hsame]
  · rw [hmade]
    rfl

theorem foldl_mkdir (size : Nat) (paths : List CStr) (fs : HostFs) :
    (paths.foldl (mkdir · size) fs).resolve = fs.resolve ∧
      ∀ p, (paths.foldl (mkdir · size) fs).bytes? p = fs.bytes? p := by
  induction paths generalizing fs with
  | nil => exact ⟨rfl, fun _ => rfl⟩
  | cons path paths ih =>
    obtain ⟨hresolve, hbytes⟩ := ih _
    exact ⟨hresolve.trans (mkdir_resolve ..), fun p => (hbytes p).trans (mkdir_bytes? ..)⟩

theorem mkdirs_same (fs : HostFs) (d : Disk) (out : CStr) : (fs.mkdirs d out).resolve = fs.resolve ∧
      ∀ p, (fs.mkdirs d out).bytes? p = fs.bytes? p := by
  rw [mkdirs]
  cases d.newDir with
  | none => exact ⟨rfl, fun _ => rfl⟩
  | some size => exact foldl_mkdir ..

theorem mkdir_node {size : Nat} {path p : CStr} (hp : fs.resolve path ≠ p) :
    (fs.mkdir size path).node p = fs.node p := by
  rcases fs.mkdir_cases size path with hsame | ⟨-, hmade⟩
  · rw [hsame]
  · rw [hmade]
    exact if_neg (Ne.symm hp)

theorem foldl_mkdir_node {size : Nat} {paths : List CStr} {p : CStr} (fs : HostFs)
    (hp : ∀ path ∈ paths, fs.resolve path ≠ p) :
    (paths.foldl (mkdir · size) fs).node p = fs.node p := by
  induction paths generalizing fs with
  | nil => rfl
  | cons path paths ih =>
    refine (ih _ fun q hq => ?_).trans (mkdir_node (hp path mem_cons_self))
    rw [mkdir_resolve]
    exact hp q (mem_cons_of_mem path hq)

variable {d : Disk} {out : CStr}

theorem mkdirs_stat (hway : ∀ q ∈ cacheRoot :: parents out, fs.resolve q ≠ fs.resolve out) :
    (fs.mkdirs d out).stat out = fs.stat out := by
  rw [stat, (mkdirs_same fs d out).1, mkdirs]
  cases d.newDir with
  | none => rfl
  | some size => exact foldl_mkdir_node fs hway

theorem fopenWb_eq (h : fs.fopenWb d out = some fs') : fs' = fs.set out (some (.file [])) := by
  rw [fopenWb] at h
  split at h
  · cases h
  · cases h
  · exact (Option.some.inj h).symm

/-- A cache file is written: its directories, `fopen` and what follows. -/
def store (fs : HostFs) (d : Disk) (out : CStr) (bytes : List UInt8) : Bool × HostFs :=
  match (fs.mkdirs d out).fopenWb d out with
  | none => (false, fs.mkdirs d out)
  | some fs => fs.fwriteAll d out bytes

theorem fopenWb_sameBut (h : (fs.mkdirs d out).fopenWb d out = some fs') : SameBut fs fs' out := by
  obtain ⟨hresolve, hbytes⟩ := mkdirs_same fs d out
  cases fopenWb_eq h
  refine ⟨hresolve, fun p hp => ?_⟩
  rw [bytes?_set_of_ne (hresolve ▸ hp), hbytes]

theorem fwriteAll_sameBut (fs : HostFs) (d : Disk) (out : CStr) (bytes : List UInt8) :
    SameBut fs (fs.fwriteAll d out bytes).2 out := by
  rw [fwriteAll]
  split
  · exact set_sameBut ..
  · split
    · exact ⟨rfl, fun _ _ => rfl⟩
    · exact set_sameBut ..

theorem store_sameBut (fs : HostFs) (d : Disk) (out : CStr) (bytes : List UInt8) :
    SameBut fs (fs.store d out bytes).2 out := by
  rw [store]
  cases hopen : (fs.mkdirs d out).fopenWb d out with
  | none =>
    obtain ⟨hresolve, hbytes⟩ := mkdirs_same fs d out
    exact ⟨hresolve, fun p _ => hbytes p⟩
  | some fs' => exact (fopenWb_sameBut hopen).trans (fwriteAll_sameBut ..)

theorem regular?_store {bytes : List UInt8} (hkeeps : ∀ lost, d.writing = .full lost → lost = 0)
    (h : (fs.store d out bytes).1) : (fs.store d out bytes).2.regular? out = some bytes := by
  rw [store] at h ⊢
  cases hopen : (fs.mkdirs d out).fopenWb d out with
  | none =>
    rw [hopen] at h
    cases h
  | some fs' =>
    rw [hopen] at h
    cases fopenWb_eq hopen
    simp only [fwriteAll] at h ⊢
    cases hwriting : d.writing with
    | full lost =>
      simp only [hkeeps lost hwriting, Nat.sub_zero, take_length]
      exact bytes?_set_self ..
    | refused =>
      rw [fopenWb, hwriting] at hopen
      cases hopen
    | short =>
      simp only [hwriting] at h
      by_cases hempty : bytes = []
      · rw [hempty]
        exact bytes?_set_self ..
      · rw [if_neg hempty] at h
        cases h

theorem store_of_opened (bytes : List UInt8) (hwriting : d.writing ≠ .refused)
    (hway : ∀ q ∈ cacheRoot :: parents out, fs.resolve q ≠ fs.resolve out)
    (hplace : ∀ size, fs.stat out ≠ some (.dir size)) : fs.store d out bytes =
      ((fs.mkdirs d out).set out (some (.file []))).fwriteAll d out bytes := by
  have hopen : (fs.mkdirs d out).fopenWb d out =
      some ((fs.mkdirs d out).set out (some (.file []))) := by
    rw [fopenWb, mkdirs_stat hway]
    cases hd : d.writing with
    | refused => exact absurd hd hwriting
    | short | full lost =>
      rcases hstat : fs.stat out with _ | content | size
      · rfl
      · rfl
      · exact absurd hstat (hplace size)
  rw [store, hopen]

theorem bytes?_store_failed {p : CStr} {bytes content : List UInt8}
    (h : (fs.store d out bytes).1 = false)
    (hfile : (fs.store d out bytes).2.bytes? p = some content) : fs.bytes? p = some content := by
  by_cases hp : p = fs.resolve out
  · rw [store] at h hfile
    cases hopen : (fs.mkdirs d out).fopenWb d out with
    | none =>
      rw [hopen] at hfile
      rwa [(mkdirs_same fs d out).2] at hfile
    | some fs' =>
      have hresolve : fs'.resolve = fs.resolve := (fopenWb_sameBut hopen).resolve
      rw [hopen] at h hfile
      simp only [fwriteAll] at h hfile
      cases hwriting : d.writing with
      | full lost =>
        rw [hwriting] at h
        cases h
      | refused =>
        rw [fopenWb, hwriting] at hopen
        cases hopen
      | short =>
        simp only [hwriting] at h hfile
        by_cases hempty : bytes = []
        · rw [if_pos hempty] at h
          cases h
        · rw [if_neg hempty, hp, ← hresolve, bytes?_set_self] at hfile
          cases hfile
  · rwa [(store_sameBut ..).bytes p hp] at hfile

end HostFs

/-- The files that assets are read from. -/
def IsSource (fs : HostFs) (b : Bridge) (p : CStr) : Prop :=
  b.fp = some p ∨ b.apkDir ≠ [] ∧ ∃ name, fs.resolve (b.apkDir ++ cstr "/" ++ name) = p

section

variable (hresolve : fs'.resolve = fs.resolve)
    (hsources : ∀ p, IsSource fs b p → fs'.bytes? p = fs.bytes? p)
include hresolve hsources

theorem readOpened_congr (name : CStr) (v : Vec) :
    readOpened z fs' b name v = readOpened z fs b name v := by
  have harchive : b.fp.bind fs'.bytes? = b.fp.bind fs.bytes? := by
    cases hfp : b.fp with
    | none => rfl
    | some p => exact hsources p (.inl hfp)
  rw [readOpened, readOpened, harchive]
  by_cases hdir : b.apkDir = []
  · rw [if_pos hdir, if_pos hdir]
  · rw [if_neg hdir, if_neg hdir, HostFs.regular?, HostFs.regular?, hresolve,
      hsources _ (.inr ⟨hdir, name, rfl⟩)]

theorem entry_congr : entry z fs' b = entry z fs b := by
  funext name
  rw [entry, readOpened_congr hresolve hsources]
  rfl

end

/-! ## Parts -/

def treeFile (fs : HostFs) (b : Bridge) (name : CStr) : Option (List UInt8) :=
  fs.regular? (b.apkDir ++ cstr "/" ++ name)

/-- A part as `apk_concat_splits_to_cache` has it. -/
def part (z : Zlib) (fs : HostFs) (b : Bridge) (name : CStr) : Option (List UInt8) :=
  if b.apkDir = [] then entry z fs b name else treeFile fs b name

theorem part_congr (hresolve : fs'.resolve = fs.resolve)
    (hsources : ∀ p, IsSource fs b p → fs'.bytes? p = fs.bytes? p) :
    part z fs' b = part z fs b := by
  funext name
  rw [part, part, entry_congr hresolve hsources]
  by_cases hdir : b.apkDir = []
  · rw [if_pos hdir, if_pos hdir]
  · rw [if_neg hdir, if_neg hdir, treeFile, HostFs.regular?, hresolve,
      hsources _ (.inr ⟨hdir, name, rfl⟩)]
    rfl

/-- The sources of the assets are other files than the one at a path. -/
structure Apart (fs : HostFs) (b : Bridge) (out : CStr) : Prop where
  archive : ∀ p, b.fp = some p → p ≠ fs.resolve out
  tree : b.apkDir ≠ [] → ∀ name, fs.resolve (b.apkDir ++ cstr "/" ++ name) ≠ fs.resolve out

theorem SameBut.sources {out : CStr} (h : SameBut fs fs' out) (hapart : Apart fs b out) :
    ∀ p, IsSource fs b p → fs'.bytes? p = fs.bytes? p := by
  rintro p (hfp | ⟨hdir, name, rfl⟩)
  · exact h.bytes p (hapart.archive p hfp)
  · exact h.bytes _ (hapart.tree hdir name)

theorem partBytes_tried (h : b.tried) (name : CStr) :
    partBytes z env fs b name = (part z fs b name, b) := by
  rw [partBytes, part]
  by_cases hdir : b.apkDir = []
  · rw [if_pos hdir, if_pos hdir, apkRead_tried h]
    rfl
  · rw [if_neg hdir, if_neg hdir]
    rfl

theorem collectParts_tried (z : Zlib) (env : ApkEnv) (fs : HostFs) (h : b.tried) (name : CStr)
    (k n : Nat) : (collectParts z env fs name k n b).1.map (·.2) =
        (chunks (part z fs b) name k n).map length ∧ (collectParts z env fs name k n b).2 = b := by
  induction k generalizing n with
  | zero => exact ⟨rfl, rfl⟩
  | succ k ih =>
    rw [collectParts, partBytes_tried h, chunks]
    cases part z fs b (splitPart name n) with
    | none => exact ⟨rfl, rfl⟩
    | some bytes =>
      obtain ⟨hsizes, hbridge⟩ := ih _
      exact ⟨congrArg _ hsizes, hbridge⟩

/-- Read again from where they are still the same, they give the parts put together. -/
theorem copyParts_tried (h : b.tried) (hsame : part z fs' b = part z fs b) (name : CStr)
    (k n : Nat) : copyParts z env fs' ((collectParts z env fs name k n b).1.map (·.1)) b =
      (some (chunks (part z fs b) name k n).flatten, b) := by
  induction k generalizing n with
  | zero => rfl
  | succ k ih =>
    rw [collectParts, partBytes_tried h, chunks]
    cases hpart : part z fs b (splitPart name n) with
    | none => rfl
    | some bytes =>
      simp only [map_cons, copyParts, partBytes_tried h, hsame, hpart, ih _]
      rfl

/-- One turn of `apk_concat_splits_to_cache`: the parts put together, reused or written. -/
theorem concatPack_tried (h : b.tried) {d : Disk} {outsz : Nat} {name : CStr}
    (hapart : ∀ bytes, joined (part z fs b) name = some bytes →
      (fs.regular? (cachePath name)).map length ≠ some bytes.length →
        Apart fs b (cachePath name)) : concatPack z env d outsz name fs b =
      match joined (part z fs b) name with
      | none => (none, fs, b)
      | some bytes =>
        if outsz ≤ (cachePath name).length then (some none, fs, b)
        else if (fs.regular? (cachePath name)).map length = some bytes.length then
          (some (some (cachePath name)), fs, b)
        else
          let r := fs.store d (cachePath name) bytes
          (some (if r.1 then some (cachePath name) else none), r.2, b) := by
  obtain ⟨hsizes, hbridge⟩ := collectParts_tried z env fs h name 512 0
  have hcopy : ∀ fs', part z fs' b = part z fs b → copyParts z env fs'
      ((collectParts z env fs name 512 0 b).1.map (·.1)) b =
        (some (chunks (part z fs b) name 512 0).flatten, b) :=
    fun fs' hsame => copyParts_tried h hsame name 512 0
  have hchunks : chunks (part z fs b) name 512 0 = match part z fs b (splitPart name 0) with
      | none => []
      | some c => c :: chunks (part z fs b) name 511 1 := rfl
  rw [concatPack, partBytes_tried h, joined]
  cases hpart : part z fs b (splitPart name 0) with
  | none =>
    rw [hchunks, hpart]
    rfl
  | some c =>
    have hempty : (chunks (part z fs b) name 512 0).isEmpty = false := by
      rw [hchunks, hpart]
      rfl
    have hsum := congrArg sum hsizes
    rw [← length_flatten] at hsum
    have hparts : (collectParts z env fs name 512 0 b).1 ≠ [] := by
      intro hnil
      rw [hnil, hchunks, hpart] at hsizes
      cases hsizes
    simp only [hempty, hsum, hbridge, if_neg hparts, Bool.false_eq_true, if_false]
    by_cases hfits : outsz ≤ (cachePath name).length
    · rw [if_pos hfits, if_pos hfits]
    rw [if_neg hfits, if_neg hfits]
    by_cases hreuse : (fs.regular? (cachePath name)).map length =
        some (chunks (part z fs b) name 512 0).flatten.length
    · rw [if_pos hreuse, if_pos hreuse]
    rw [if_neg hreuse, if_neg hreuse, HostFs.store]
    have hapart : Apart fs b (cachePath name) := by
      refine hapart _ ?_ hreuse
      rw [joined, hempty]
      rfl
    cases hopen : (fs.mkdirs d (cachePath name)).fopenWb d (cachePath name) with
    | none => rfl
    | some fs' =>
      have hsame := HostFs.fopenWb_sameBut hopen
      simp [hcopy fs' (part_congr hsame.resolve (hsame.sources hapart))]

/-! ## Entries -/

/-- The first entry under the prefixes, with its name. -/
def firstEntry (z : Zlib) (fs : HostFs) (b : Bridge) (inner : CStr) : Option (CStr × List UInt8) :=
  packs.findSome? fun p => (entry z fs b (p ++ inner)).map (p ++ inner, ·)

/-- The first parts under the prefixes, put together. -/
def firstParts (z : Zlib) (fs : HostFs) (b : Bridge) (inner : CStr) : Option (CStr × List UInt8) :=
  packs.findSome? fun p => (pieces (part z fs b) (p ++ inner)).map (p ++ inner, ·)

theorem map_findSome?_snd {α β : Type*} (ps : List CStr) (name : CStr → α) (f : CStr → Option β) :
    (ps.findSome? fun p => (f p).map (name p, ·)).map Prod.snd = ps.findSome? f := by
  rw [map_findSome?]
  simp [Function.comp_def]

/-- `apk_extract_to_cache` behind the extracted tree: the first entry, reused or written, or else
the parts. -/
theorem extractIndexed_tried (h : b.tried) {a : Answers} {outsz : Nat} {inner : CStr}
    (hsteady : SteadyFrom z fs b inner (fun _ v => v) packs .fresh) :
    extractIndexed z env a outsz inner fs b =
      match firstEntry z fs b inner with
      | none => concatSplitsToCache z env a.parts outsz inner fs b
      | some (name, bytes) =>
        if outsz ≤ (cachePath name).length then (none, fs, b)
        else if (fs.stat (cachePath name)).map Node.size = some bytes.length then
          (some (cachePath name), fs, b)
        else
          let r := fs.store a.entry (cachePath name) bytes
          (if r.1 then some (cachePath name) else none, r.2, b) := by
  obtain ⟨hfound, hbridge⟩ := readWhole_tried env h hsteady
  rw [extractIndexed, firstEntry, ← hfound]
  generalize readWhole z env fs inner packs .fresh b = r at hbridge
  obtain ⟨found, b'⟩ := r
  cases hbridge
  cases found with
  | none => rfl
  | some found =>
    simp only [Option.map_some]
    rw [HostFs.store]
    cases (fs.mkdirs a.entry (cachePath found.1)).fopenWb a.entry (cachePath found.1) with
    | none | some _ => rfl

end Lunaria.Apk
