/-
# Where assets are looked for

An extraction asks the host for many paths: for the code path and the archive when the bridge is
opened, for files of the extracted tree, and for the cache file with the directories on its way.
What it asks for depends on what the host answers. The paths it can ask for are those built from
the name of the asset in five ways, and each of them is asked for on some host.
-/

import Lunaria.Apk.Confinement
import Lunaria.Apk.CacheRuns

namespace Lunaria.Apk

open Lib List
open Elf (CStr cstr)

/-! ## The paths an extraction asks for -/

def inTree (dir name : CStr) : CStr := dir ++ cstr "/" ++ name

section Looks

variable (z : Zlib) (env : ApkEnv)

variable (fs : HostFs) (b : Bridge)

/-- The paths of `apk_open`. -/
def apkOpenLooks : List CStr :=
  if b.tried then []
  else
    match env.codePath with
    | none => []
    | some path =>
      path ::
        match fs.stat path with
        | some (.dir _) =>
          match env.apkFile with
          | none => []
          | some [] => []
          | some apk => [apk]
        | _ => [path]

def apkReadLooks (name : CStr) : List CStr :=
  apkOpenLooks env fs b ++
    match apkOpen env fs b with
    | (true, b) => if b.apkDir = [] then [] else [inTree b.apkDir name]
    | (false, _) => []

/-- Those of a part of an asset. -/
def partLooks (name : CStr) : List CStr :=
  if b.apkDir = [] then apkReadLooks env fs b name else [inTree b.apkDir name]

def collectLooks (fs : HostFs) (name : CStr) : Nat → Nat → Bridge → List CStr
  | 0, _, _ => []
  | k + 1, n, b =>
    partLooks env fs b (splitPart name n) ++
      match partBytes z env fs b (splitPart name n) with
      | (none, _) => []
      | (some _, b) => collectLooks fs name k (n + 1) b

def copyLooks (fs : HostFs) : List CStr → Bridge → List CStr
  | [], _ => []
  | name :: names, b =>
    partLooks env fs b name ++
      match partBytes z env fs b name with
      | (none, _) => []
      | (some _, b) => copyLooks fs names b

/-- The paths of one turn of `apk_concat_splits_to_cache`. -/
def concatPackLooks (d : Disk) (outsz : Nat) (name : CStr) (fs : HostFs) (b : Bridge) : List CStr :=
  partLooks env fs b (splitPart name 0) ++
    match partBytes z env fs b (splitPart name 0) with
    | (none, _) => []
    | (some _, b) =>
      let out := cachePath name
      if outsz ≤ out.length then []
      else
        collectLooks z env fs name 512 0 b ++
          let (parts, b) := collectParts z env fs name 512 0 b
          if parts = [] then []
          else if (fs.regular? out).map List.length = some (parts.map (·.2)).sum then [out]
          else
            ways name ++
              match (fs.mkdirs d out).fopenWb d out with
              | none => []
              | some fs => copyLooks z env fs (parts.map (·.1)) b

def concatPacksLooks (d : Disk) (outsz : Nat) (inner : CStr) :
    List CStr → HostFs → Bridge → List CStr
  | [], _, _ => []
  | p :: ps, fs, b =>
    concatPackLooks z env d outsz (p ++ inner) fs b ++
      match concatPack z env d outsz (p ++ inner) fs b with
      | (some _, _, _) => []
      | (none, fs, b) => concatPacksLooks d outsz inner ps fs b

def concatSplitsLooks (d : Disk) (outsz : Nat) (inner : CStr) (fs : HostFs) (b : Bridge) :
    List CStr :=
  if isSplitName inner then [] else concatPacksLooks z env d outsz inner packs fs b

def readWholeLooks (fs : HostFs) (inner : CStr) : List CStr → Vec → Bridge → List CStr
  | [], _, _ => []
  | p :: ps, data, b =>
    apkReadLooks env fs b (p ++ inner) ++
      match apkRead z env fs b (p ++ inner) data with
      | ((true, _), _) => []
      | ((false, data), b) => readWholeLooks fs inner ps data b

def extractIndexedLooks (a : Answers) (outsz : Nat) (inner : CStr) (fs : HostFs) (b : Bridge) :
    List CStr :=
  readWholeLooks z env fs inner packs .fresh b ++
    match readWhole z env fs inner packs .fresh b with
    | (none, b) => concatSplitsLooks z env a.parts outsz inner fs b
    | (some (name, data), _) =>
      let out := cachePath name
      if outsz ≤ out.length then []
      else if (fs.stat out).map Node.size = some data.bytes.length then [out]
      else ways name

/-- The loop over the extracted tree, up to the file it takes. -/
def onDiskLooks (fs : HostFs) (b : Bridge) (outsz : Nat) (inner : CStr) : List CStr → List CStr
  | [] => []
  | p :: ps =>
    inTree b.apkDir (p ++ inner) ::
      match onDisk fs b outsz (p ++ inner) with
      | some _ => []
      | none => onDiskLooks fs b outsz inner ps

def extractLooks (a : Answers) (outsz : Nat) (path : CStr) (fs : HostFs) (b : Bridge) : List CStr :=
  match apkPathInner env path with
  | none => []
  | some inner =>
    if b.apkDir = [] then extractIndexedLooks z env a outsz inner fs b
    else
      onDiskLooks fs b outsz inner packs ++
        match packs.findSome? fun p => onDisk fs b outsz (p ++ inner) with
        | some _ => []
        | none =>
          concatSplitsLooks z env a.tree outsz inner fs b ++
            match concatSplitsToCache z env a.tree outsz inner fs b with
            | (some _, _, _) => []
            | (none, fs, b) => extractIndexedLooks z env a outsz inner fs b

def apkIsDir (name : CStr) : Bool × Bridge :=
  match apkOpen env fs b with
  | (false, b) => (false, b)
  | (true, b) =>
    if name = [] then (true, b)
    else if b.apkDir = [] then
      let pfx := if name.getLast? = some 47 then name else name ++ [47]
      (b.dir.any fun e => pfx.isPrefixOf e.1, b)
    else
      match fs.stat (inTree b.apkDir name) with
      | some (.dir _) => (true, b)
      | _ => (false, b)

def apkIsDirLooks (name : CStr) : List CStr :=
  apkOpenLooks env fs b ++
    match apkOpen env fs b with
    | (true, b) => if name = [] ∨ b.apkDir = [] then [] else [inTree b.apkDir name]
    | (false, _) => []

/-- The loop of `apk_path_is_dir`: its paths. -/
def isDirLooks (fs : HostFs) (inner : CStr) : List CStr → Bridge → List CStr
  | [], _ => []
  | p :: ps, b =>
    apkIsDirLooks env fs b (p ++ inner) ++
      match apkIsDir env fs b (p ++ inner) with
      | (true, _) => []
      | (false, b) => isDirLooks fs inner ps b

def apkPathIsDirLooks (path : CStr) : List CStr :=
  match apkPathInner env path with
  | none => []
  | some inner => isDirLooks env fs inner packs b

end Looks

/-! ## The places of an asset -/

/-- The host paths that an asset of this name can be looked for at. -/
inductive AssetPlace (env : ApkEnv) (outsz : Nat) (inner : CStr) : CStr → Prop
  | code {path : CStr} : env.codePath = some path → AssetPlace env outsz inner path
  | archive {code path : CStr} : env.codePath = some code → env.apkFile = some path → path ≠ [] →
      AssetPlace env outsz inner path
  | file {dir p : CStr} : env.codePath = some dir → dir ≠ [] → p ∈ packs →
      AssetPlace env outsz inner (inTree dir (p ++ inner))
  | part {dir p : CStr} (n : Nat) : env.codePath = some dir → dir ≠ [] →
      isSplitName inner = false → p ∈ packs →
      AssetPlace env outsz inner (inTree dir (splitPart (p ++ inner) n))
  | cache {code p path : CStr} : env.codePath = some code → p ∈ packs →
      (cachePath (p ++ inner)).length < outsz → path ∈ ways (p ++ inner) →
      AssetPlace env outsz inner path

/-- What a bridge serves comes from the code path. -/
structure Bridge.Stems (env : ApkEnv) (b : Bridge) : Prop where
  tree : b.apkDir ≠ [] → env.codePath = some b.apkDir
  archive : b.fp.isSome = true → env.codePath.isSome = true

section Places

variable {z : Zlib} {env : ApkEnv} {fs : HostFs} {b : Bridge} {d : Disk} {a : Answers}
  {outsz : Nat} {inner name q : CStr}

theorem Bridge.stems_initial (env : ApkEnv) : Bridge.initial.Stems env :=
  ⟨absurd rfl, fun h => absurd h Bool.false_ne_true⟩

theorem openArchive_apkDir (fs : HostFs) (path : CStr) (b : Bridge) :
    (openArchive fs path b).2.apkDir = b.apkDir := by
  rw [openArchive]
  rcases fs.stat path with _ | file | size
  · rfl
  · dsimp only
    cases findEocd (apkTail file) <;> rfl
  · rfl

theorem apkOpen_none (hpath : env.codePath = none) (htried : b.tried = false) :
    apkOpen env fs b = (false, { b with tried := true }) := by
  rw [apkOpen, htried, if_neg Bool.false_ne_true, hpath]

variable {path : CStr}

theorem apkOpen_apkDir (fs : HostFs) (hpath : env.codePath = some path) :
    (apkOpen env fs b).2.apkDir = b.apkDir ∨ (apkOpen env fs b).2.apkDir = path := by
  rw [apkOpen]
  cases b.tried with
  | true => exact .inl rfl
  | false =>
    rw [hpath]
    simp only
    cases fs.stat path with
    | none => exact .inl (openArchive_apkDir ..)
    | some node =>
      cases node with
      | file bytes => exact .inl (openArchive_apkDir ..)
      | dir size =>
        cases env.apkFile with
        | none => exact .inr rfl
        | some apk =>
          cases apk with
          | nil => exact .inr rfl
          | cons c cs => exact .inr (openArchive_apkDir ..)

theorem Bridge.Stems.apkOpen (h : b.Stems env) (fs : HostFs) : (apkOpen env fs b).2.Stems env := by
  cases hpath : env.codePath with
  | none =>
    cases htried : b.tried with
    | true =>
      rw [Apk.apkOpen, if_pos htried]
      exact h
    | false =>
      rw [apkOpen_none hpath htried]
      exact ⟨h.tree, h.archive⟩
  | some path =>
    refine ⟨fun hdir => ?_, fun _ => by rw [hpath]; rfl⟩
    rcases apkOpen_apkDir fs hpath with heq | heq
    · rw [heq] at hdir ⊢
      exact h.tree hdir
    · rw [heq, hpath]

theorem Bridge.Stems.code (h : b.Stems env) (hopen : (Apk.apkOpen env fs b).1) :
    ∃ code, env.codePath = some code := by
  apply Option.isSome_iff_exists.mp
  cases hpath : env.codePath with
  | some path => rfl
  | none =>
    cases htried : b.tried with
    | false =>
      rw [apkOpen_none hpath htried] at hopen
      cases hopen
    | true =>
      rw [Apk.apkOpen, if_pos htried] at hopen
      rcases (Bool.or_eq_true ..).mp hopen with hfp | hdir
      · rw [← hpath]
        exact h.archive hfp
      · rw [← hpath, h.tree (of_decide_eq_true hdir)]
        rfl

theorem apkOpenLooks_places (outsz : Nat) (inner : CStr) (h : q ∈ apkOpenLooks env fs b) :
    AssetPlace env outsz inner q := by
  rw [apkOpenLooks] at h
  cases htried : b.tried with
  | true => simp only [htried, if_true, not_mem_nil] at h
  | false =>
    rw [htried, if_neg Bool.false_ne_true] at h
    cases hpath : env.codePath with
    | none => simp only [hpath, not_mem_nil] at h
    | some path =>
      simp only [hpath] at h
      rcases mem_cons.mp h with rfl | h
      · exact .code hpath
      split at h
      · split at h
        · cases h
        · cases h
        · next apk hne hapk =>
            cases mem_singleton.mp h
            exact .archive hpath hapk hne
      · cases mem_singleton.mp h
        exact .code hpath

/-- A name whose file of the extracted tree is a place of the asset. -/
def TreePlace (env : ApkEnv) (outsz : Nat) (inner name : CStr) : Prop :=
  ∀ dir, env.codePath = some dir → dir ≠ [] → AssetPlace env outsz inner (inTree dir name)

/-- What a function that extracts leaves behind: a bridge as before, and a place of the asset if it
has an answer. -/
structure Extracted (env : ApkEnv) (outsz : Nat) (inner : CStr) (out : Option CStr) (b : Bridge) :
    Prop where
  stems : b.Stems env
  place : ∀ path, out = some path → AssetPlace env outsz inner path

theorem Extracted.none (h : b.Stems env) : Extracted env outsz inner none b := by
  refine ⟨h, fun path hout => ?_⟩
  cases hout

theorem Extracted.some (h : b.Stems env) (hpath : AssetPlace env outsz inner path) :
    Extracted env outsz inner (some path) b :=
  ⟨h, fun _ hout => Option.some.inj hout ▸ hpath⟩

/-- The same of a function together with the paths it asks for: those are places too. -/
structure Asks (env : ApkEnv) (outsz : Nat) (inner : CStr) (looks : List CStr) (out : Option CStr)
    (b : Bridge) : Prop extends Extracted env outsz inner out b where
  asked : ∀ q ∈ looks, AssetPlace env outsz inner q

namespace Asks

variable {looks looks' : List CStr} {out out' : Option CStr} {b' : Bridge}

theorem nothing (h : Extracted env outsz inner out b) : Asks env outsz inner [] out b :=
  ⟨h, fun _ hq => absurd hq not_mem_nil⟩

theorem after (h : Asks env outsz inner looks out b) (h' : Asks env outsz inner looks' out' b') :
    Asks env outsz inner (looks ++ looks') out' b' := by
  refine ⟨h'.toExtracted, fun q hq => ?_⟩
  rcases mem_append.mp hq with hq | hq
  · exact h.asked q hq
  · exact h'.asked q hq

theorem stop (h : Asks env outsz inner looks out b) (h' : Extracted env outsz inner out' b') :
    Asks env outsz inner (looks ++ []) out' b' :=
  h.after (.nothing h')

theorem inTree (h : b.Stems env) (hname : TreePlace env outsz inner name) (hdir : b.apkDir ≠ []) :
    Asks env outsz inner [inTree b.apkDir name] none b :=
  ⟨.none h, fun _ hq => mem_singleton.mp hq ▸ hname _ (h.tree hdir) hdir⟩

end Asks

section

variable (h : b.Stems env)
include h

theorem apkOpen_asks (fs : HostFs) (outsz : Nat) (inner : CStr) :
    Asks env outsz inner (apkOpenLooks env fs b) none (apkOpen env fs b).2 :=
  ⟨.none (h.apkOpen fs), fun _ => apkOpenLooks_places outsz inner⟩

theorem apkRead_asks (hname : TreePlace env outsz inner name) (fs : HostFs) (v : Vec) :
    Asks env outsz inner (apkReadLooks env fs b name) none (apkRead z env fs b name v).2 := by
  rw [apkRead_eq]
  refine (apkOpen_asks h fs outsz inner).after ?_
  have hopened := h.apkOpen fs
  generalize apkOpen env fs b = r at hopened
  obtain ⟨ok, b₁⟩ := r
  cases ok with
  | false => exact .nothing (.none hopened)
  | true =>
    by_cases hdir : b₁.apkDir = []
    · simp only [hdir]
      exact .nothing (.none hopened)
    · simp only [if_neg hdir]
      exact .inTree hopened hname hdir

theorem Bridge.Stems.readCode {out : Vec} (hread : (Apk.apkRead z env fs b name out).1.1) :
    ∃ code, env.codePath = some code := by
  rw [apkRead_eq] at hread
  cases hopen : (Apk.apkOpen env fs b).1 with
  | true => exact h.code hopen
  | false =>
    rw [hopen] at hread
    cases hread

/-! ## Parts -/

theorem partBytes_asks (hname : TreePlace env outsz inner name) (fs : HostFs) :
    Asks env outsz inner (partLooks env fs b name) none (partBytes z env fs b name).2 := by
  rw [partLooks, partBytes]
  by_cases hdir : b.apkDir = []
  · rw [if_pos hdir, if_pos hdir]
    exact apkRead_asks h hname fs .fresh
  · rw [if_neg hdir, if_neg hdir]
    exact .inTree h hname hdir

theorem Bridge.Stems.partCode {bytes : List UInt8}
    (hpart : (Apk.partBytes z env fs b name).1 = some bytes) :
    ∃ code, env.codePath = some code := by
  rw [partBytes] at hpart
  by_cases hdir : b.apkDir = []
  · rw [if_pos hdir] at hpart
    have hread : (apkRead z env fs b name .fresh).1.1 := by
      by_contra hfalse
      simp only [answered, if_neg hfalse, reduceCtorEq] at hpart
    exact h.readCode hread
  · exact ⟨_, h.tree hdir⟩

theorem collectParts_asks (hparts : ∀ n, TreePlace env outsz inner (splitPart name n)) (fs : HostFs)
    (k n : Nat) : Asks env outsz inner (collectLooks z env fs name k n b) none
        (collectParts z env fs name k n b).2 ∧
      ∀ part ∈ (collectParts z env fs name k n b).1, ∃ n, part.1 = splitPart name n := by
  induction k generalizing n b with
  | zero => exact ⟨.nothing (.none h), fun _ hpart => absurd hpart not_mem_nil⟩
  | succ k ih =>
    rw [collectLooks, collectParts]
    have hpart := partBytes_asks (z := z) h (hparts n) fs
    generalize partBytes z env fs b (splitPart name n) = r at hpart
    obtain ⟨bytes, b₁⟩ := r
    cases bytes with
    | none => exact ⟨hpart.stop (.none hpart.stems), fun _ hpart => absurd hpart not_mem_nil⟩
    | some bytes =>
      obtain ⟨hrest, hnames⟩ := ih hpart.stems _
      refine ⟨hpart.after hrest, fun part hpart => ?_⟩
      rcases mem_cons.mp hpart with rfl | hpart
      · exact ⟨n, rfl⟩
      · exact hnames part hpart

theorem copyParts_asks {names : List CStr}
    (hnames : ∀ name ∈ names, TreePlace env outsz inner name) (fs : HostFs) :
    Asks env outsz inner (copyLooks z env fs names b) none (copyParts z env fs names b).2 := by
  induction names generalizing b with
  | nil => exact .nothing (.none h)
  | cons name names ih =>
    rw [copyLooks, copyParts]
    have hpart := partBytes_asks (z := z) h (hnames name mem_cons_self) fs
    generalize partBytes z env fs b name = r at hpart
    obtain ⟨bytes, b₁⟩ := r
    cases bytes with
    | none => exact hpart.stop (.none hpart.stems)
    | some bytes =>
      exact hpart.after (ih hpart.stems (forall_mem_cons.mp hnames).2)

end

/-! ## One extraction -/

variable {p : CStr}

theorem concatPack_asks (h : b.Stems env) (hp : p ∈ packs) (hsplit : isSplitName inner = false)
    (d : Disk) (outsz : Nat) (fs : HostFs) :
    Asks env outsz inner (concatPackLooks z env d outsz (p ++ inner) fs b)
      (concatPack z env d outsz (p ++ inner) fs b).1.join
      (concatPack z env d outsz (p ++ inner) fs b).2.2 := by
  have hparts : ∀ n, TreePlace env outsz inner (splitPart (p ++ inner) n) :=
    fun n _ hpath hdir => .part n hpath hdir hsplit hp
  have hfirst := partBytes_asks (z := z) h (hparts 0) fs
  have hcode : ∀ bytes, (partBytes z env fs b (splitPart (p ++ inner) 0)).1 = some bytes →
      ∃ code, env.codePath = some code := fun _ => h.partCode
  rw [concatPackLooks, concatPack]
  generalize partBytes z env fs b (splitPart (p ++ inner) 0) = r at hfirst hcode ⊢
  obtain ⟨first, b₁⟩ := r
  cases first with
  | none => exact hfirst.stop (.none hfirst.stems)
  | some first =>
    obtain ⟨code, hpath⟩ := hcode first rfl
    refine hfirst.after ?_
    by_cases hfits : outsz ≤ (cachePath (p ++ inner)).length
    · simp only [if_pos hfits]
      exact .nothing (.none hfirst.stems)
    have hcache : ∀ q ∈ ways (p ++ inner), AssetPlace env outsz inner q :=
      fun _ => .cache hpath hp (not_le.mp hfits)
    have hout := hcache _ mem_cons_self
    obtain ⟨hcollected, hnames⟩ := collectParts_asks hfirst.stems hparts fs 512 0
    simp only [if_neg hfits]
    generalize collectParts z env fs (p ++ inner) 512 0 b₁ = r at hcollected hnames ⊢
    obtain ⟨parts, b₂⟩ := r
    refine hcollected.after ?_
    split
    · exact .nothing (.none hcollected.stems)
    split
    · exact ⟨.some hcollected.stems hout, fun q hq => mem_singleton.mp hq ▸ hout⟩
    have hways : Asks env outsz inner (ways (p ++ inner)) none b₂ :=
      ⟨.none hcollected.stems, hcache⟩
    cases (fs.mkdirs d (cachePath (p ++ inner))).fopenWb d (cachePath (p ++ inner)) with
    | none => exact hways.stop (.none hcollected.stems)
    | some fs₁ =>
      have hcopied : Asks env outsz inner (copyLooks z env fs₁ (parts.map (·.1)) b₂) none
          (copyParts z env fs₁ (parts.map (·.1)) b₂).2 := by
        refine copyParts_asks hcollected.stems (fun name hname => ?_) fs₁
        obtain ⟨part, hpart, rfl⟩ := mem_map.mp hname
        obtain ⟨n, hn⟩ := hnames part hpart
        rw [hn]
        exact hparts n
      simp only
      generalize copyParts z env fs₁ (parts.map (·.1)) b₂ = r at hcopied
      obtain ⟨bytes, b₃⟩ := r
      refine ⟨?_, (hways.after hcopied).asked⟩
      cases bytes with
      | none => exact .none hcopied.stems
      | some bytes =>
        simp only
        split
        · exact .some hcopied.stems hout
        · exact .none hcopied.stems

variable {ps : List CStr}

section

variable (h : b.Stems env)
include h

theorem concatPacks_asks (hsplit : isSplitName inner = false) (d : Disk)
    (outsz : Nat) (hps : ∀ p ∈ ps, p ∈ packs) (fs : HostFs) :
    Asks env outsz inner (concatPacksLooks z env d outsz inner ps fs b)
      (concatPacks z env d outsz inner ps fs b).1
        (concatPacks z env d outsz inner ps fs b).2.2 := by
  induction ps generalizing fs b with
  | nil => exact .nothing (.none h)
  | cons p ps ih =>
    rw [concatPacksLooks, concatPacks]
    have hpack := concatPack_asks (z := z) h (hps p mem_cons_self) hsplit d outsz fs
    generalize concatPack z env d outsz (p ++ inner) fs b = r at hpack
    obtain ⟨result, fs₁, b₁⟩ := r
    cases result with
    | some result => exact hpack.stop hpack.toExtracted
    | none =>
      exact hpack.after (ih hpack.stems (forall_mem_cons.mp hps).2 fs₁)

theorem concatSplits_asks (d : Disk) (outsz : Nat) (inner : CStr) (fs : HostFs) :
    Asks env outsz inner (concatSplitsLooks z env d outsz inner fs b)
      (concatSplitsToCache z env d outsz inner fs b).1
      (concatSplitsToCache z env d outsz inner fs b).2.2 := by
  rw [concatSplitsLooks, concatSplitsToCache]
  cases hsplit : isSplitName inner with
  | true => exact .nothing (.none h)
  | false => exact concatPacks_asks h hsplit d outsz (fun _ => id) fs

/-- What the loop over the prefixes finds comes from the code path. -/
theorem readWhole_asks (hps : ∀ p ∈ ps, p ∈ packs) (fs : HostFs) (outsz : Nat) (data : Vec) :
    Asks env outsz inner (readWholeLooks z env fs inner ps data b) none
        (readWhole z env fs inner ps data b).2 ∧ ((readWhole z env fs inner ps data b).1.isSome →
        ∃ code, env.codePath = some code) := by
  induction ps generalizing data b with
  | nil => exact ⟨.nothing (.none h), fun hsome => absurd hsome Bool.false_ne_true⟩
  | cons p ps ih =>
    have hname : TreePlace env outsz inner (p ++ inner) :=
      fun _ hpath hdir => .file hpath hdir (hps p mem_cons_self)
    have hread := apkRead_asks (z := z) h hname fs data
    have hcode : (apkRead z env fs b (p ++ inner) data).1.1 →
        ∃ code, env.codePath = some code := h.readCode
    rw [readWholeLooks, readWhole]
    generalize apkRead z env fs b (p ++ inner) data = r at hread hcode ⊢
    obtain ⟨⟨ok, read⟩, b₁⟩ := r
    cases ok with
    | true => exact ⟨hread.stop (.none hread.stems), fun _ => hcode rfl⟩
    | false =>
      obtain ⟨hrest, hfound⟩ := ih hread.stems (forall_mem_cons.mp hps).2 read
      exact ⟨hread.after hrest, hfound⟩

theorem extractIndexed_asks (a : Answers) (outsz : Nat) (inner : CStr) (fs : HostFs) :
    Asks env outsz inner (extractIndexedLooks z env a outsz inner fs b)
      (extractIndexed z env a outsz inner fs b).1
        (extractIndexed z env a outsz inner fs b).2.2 := by
  obtain ⟨hwhole, hcode⟩ := @readWhole_asks z env b inner packs h (fun _ => id) fs outsz .fresh
  have hfound : ∀ name found, (readWhole z env fs inner packs .fresh b).1 = some (name, found) →
      ∃ p ∈ packs, name = p ++ inner := fun _ _ => readWhole_name
  rw [extractIndexedLooks, extractIndexed]
  generalize readWhole z env fs inner packs .fresh b = r at hwhole hcode hfound ⊢
  obtain ⟨found, b₁⟩ := r
  refine hwhole.after ?_
  cases found with
  | none => exact concatSplits_asks hwhole.stems a.parts outsz inner fs
  | some found =>
    obtain ⟨name, data⟩ := found
    obtain ⟨p, hp, rfl⟩ := hfound name data rfl
    obtain ⟨code, hpath⟩ := hcode rfl
    by_cases hfits : outsz ≤ (cachePath (p ++ inner)).length
    · simp only [if_pos hfits]
      exact .nothing (.none hwhole.stems)
    have hcache : ∀ q ∈ ways (p ++ inner), AssetPlace env outsz inner q :=
      fun _ => .cache hpath hp (not_le.mp hfits)
    have hout := hcache _ mem_cons_self
    simp only [if_neg hfits]
    split
    · exact ⟨.some hwhole.stems hout, fun q hq => mem_singleton.mp hq ▸ hout⟩
    refine ⟨?_, hcache⟩
    cases (fs.mkdirs a.entry (cachePath (p ++ inner))).fopenWb a.entry (cachePath _) with
    | none => exact .none hwhole.stems
    | some fs₁ =>
      simp only
      split
      · exact .some hwhole.stems hout
      · exact .none hwhole.stems

theorem onDiskLooks_places (hdir : b.apkDir ≠ [])
    (hps : ∀ p ∈ ps, p ∈ packs) (hq : q ∈ onDiskLooks fs b outsz inner ps) :
    AssetPlace env outsz inner q := by
  induction ps with
  | nil => cases hq
  | cons p ps ih =>
    rcases mem_cons.mp hq with rfl | hq
    · exact .file (h.tree hdir) hdir (hps p mem_cons_self)
    · split at hq
      · cases hq
      · exact ih (forall_mem_cons.mp hps).2 hq

theorem onDisk_place (hdir : b.apkDir ≠ []) (hp : p ∈ packs)
    (hfile : onDisk fs b outsz (p ++ inner) = some path) : AssetPlace env outsz inner path := by
  rw [onDisk] at hfile
  split at hfile
  · cases hfile
    exact .file (h.tree hdir) hdir hp
  · cases hfile

/-- **What an extraction asks for** are places of the asset, and its answer is one. -/
theorem extract_asks (hpath : apkPathInner env path = some inner)
    (a : Answers) (outsz : Nat) (fs : HostFs) :
    Asks env outsz inner (extractLooks z env a outsz path fs b)
      (extractToCache z env a outsz path fs b).1 (extractToCache z env a outsz path fs b).2.2 := by
  rw [extractLooks, extractToCache, hpath]
  simp only
  by_cases hdir : b.apkDir = []
  · rw [if_pos hdir, if_pos hdir]
    exact extractIndexed_asks h a outsz inner fs
  have hdisk : Asks env outsz inner (onDiskLooks fs b outsz inner packs) none b :=
    ⟨.none h, fun _ => onDiskLooks_places h hdir fun _ => id⟩
  rw [if_neg hdir, if_neg hdir]
  cases hfile : packs.findSome? fun p => onDisk fs b outsz (p ++ inner) with
  | some out =>
    obtain ⟨p, hp, hfile⟩ := exists_of_findSome?_eq_some hfile
    exact hdisk.stop (.some h (onDisk_place h hdir hp hfile))
  | none =>
    have hparts := concatSplits_asks (z := z) h a.tree outsz inner fs
    refine hdisk.after ?_
    generalize concatSplitsToCache z env a.tree outsz inner fs b = r at hparts
    obtain ⟨result, fs₁, b₁⟩ := r
    cases result with
    | some out => exact hparts.stop hparts.toExtracted
    | none => exact hparts.after (extractIndexed_asks hparts.stems a outsz inner fs₁)

/-! ## Directories -/

theorem apkIsDir_asks (hname : TreePlace env outsz inner name) (fs : HostFs) :
    Asks env outsz inner (apkIsDirLooks env fs b name) none (apkIsDir env fs b name).2 := by
  rw [apkIsDir]
  refine (apkOpen_asks h fs outsz inner).after ?_
  have hopened := h.apkOpen fs
  generalize apkOpen env fs b = r at hopened
  obtain ⟨ok, b₁⟩ := r
  cases ok with
  | false => exact .nothing (.none hopened)
  | true =>
    by_cases hempty : name = []
    · simp only [hempty]
      exact .nothing (.none hopened)
    by_cases hdir : b₁.apkDir = []
    · simp only [hempty, hdir]
      exact .nothing (.none hopened)
    · have htree : Asks env outsz inner [inTree b₁.apkDir name] none b₁ :=
        .inTree hopened hname hdir
      simp only [hempty, hdir, or_self, if_false]
      split <;> exact htree

theorem isDirLooks_places (hps : ∀ p ∈ ps, p ∈ packs)
    (hq : q ∈ isDirLooks env fs inner ps b) : AssetPlace env outsz inner q := by
  induction ps generalizing b with
  | nil => cases hq
  | cons p ps ih =>
    have hname : TreePlace env outsz inner (p ++ inner) :=
      fun _ hpath hdir => .file hpath hdir (hps p mem_cons_self)
    have hdir := apkIsDir_asks h hname fs
    rcases mem_append.mp hq with hq | hq
    · exact hdir.asked q hq
    generalize apkIsDir env fs b (p ++ inner) = r at hq hdir
    obtain ⟨dir, b₁⟩ := r
    cases dir with
    | true => cases hq
    | false => exact ih hdir.stems (forall_mem_cons.mp hps).2 hq

end

end Places

/-! ## Every place is asked for -/

/-- A host path that the extraction of a guest path asks for, on some host, before or behind the
first call. -/
def Asked (env : ApkEnv) (path q : CStr) : Prop :=
  ∃ (z : Zlib) (fs fs₀ : HostFs) (a : Answers) (b : Bridge), Reached env fs₀ b ∧
    q ∈ extractLooks z env a pathMax path fs b

def noFiles : HostFs := ⟨id, fun _ => none⟩

def onlyDirs : HostFs := ⟨id, fun _ => some (.dir 0)⟩

def onlyFile (bytes : List UInt8) : HostFs := ⟨id, fun _ => some (.file bytes)⟩

variable {b : Bridge} {code : CStr}

theorem Bridge.stems_of_reached {env : ApkEnv} {fs : HostFs}
    (h : Reached env fs b) : b.Stems env := by
  rcases h with rfl | rfl
  · exact stems_initial env
  · exact (stems_initial env).apkOpen fs

section Asked

variable {env : ApkEnv} {path inner q dir p : CStr}

theorem asked_of_open (hpath : apkPathInner env path = some inner) {fs : HostFs}
    (hq : q ∈ apkOpenLooks env fs .initial) : Asked env path q := by
  refine ⟨plainZlib, fs, fs, making, .initial, .inl rfl, ?_⟩
  have hdir : Bridge.initial.apkDir = [] := rfl
  simp only [extractLooks, hpath, if_pos hdir, extractIndexedLooks, packs, readWholeLooks,
    apkReadLooks, mem_append]
  exact .inl (.inl (.inl hq))

theorem opened_onlyDirs (hcode : env.codePath = some dir) : (opened env onlyDirs).apkDir = dir := by
  have htried : Bridge.initial.tried = false := rfl
  rw [opened, apkOpen, htried, if_neg Bool.false_ne_true, hcode]
  cases env.apkFile with
  | none => rfl
  | some apk =>
    cases apk with
    | nil => rfl
    | cons c cs => exact openArchive_apkDir ..

theorem onDisk_noFiles (b : Bridge) (outsz : Nat) (name : CStr) :
    onDisk noFiles b outsz name = none := by
  rw [onDisk, if_neg]
  intro h
  cases h.1

theorem mem_onDiskLooks {outsz : Nat} {ps : List CStr} (hp : p ∈ ps) :
    inTree b.apkDir (p ++ inner) ∈ onDiskLooks noFiles b outsz inner ps := by
  induction ps with
  | nil => cases hp
  | cons p' ps ih =>
    rcases mem_cons.mp hp with rfl | hp
    · exact mem_cons_self
    · exact mem_cons_of_mem _ (ih hp)

theorem mem_concatPacksLooks {z : Zlib} {d : Disk} {outsz : Nat} {ps : List CStr}
    (hdir : b.apkDir ≠ []) (hp : p ∈ ps) : inTree b.apkDir (splitPart (p ++ inner) 0) ∈
      concatPacksLooks z env d outsz inner ps noFiles b := by
  induction ps with
  | nil => cases hp
  | cons p' ps ih =>
    have hpart : partBytes z env noFiles b (splitPart (p' ++ inner) 0) = (none, b) := by
      rw [partBytes, if_neg hdir]
      rfl
    have hpack : concatPack z env d outsz (p' ++ inner) noFiles b = (none, noFiles, b) := by
      rw [concatPack, hpart]
    rw [concatPacksLooks, hpack, concatPackLooks, partLooks, if_neg hdir]
    rcases mem_cons.mp hp with rfl | hp
    · exact mem_append_left _ mem_cons_self
    · exact mem_append_right _ (ih hp)

/-- With an extracted tree that is empty by now, the whole files are asked for and then the first
parts. -/
theorem asked_inTree (hpath : apkPathInner env path = some inner)
    (hcode : env.codePath = some dir) (hdir : dir ≠ []) (hp : p ∈ packs) :
    Asked env path (inTree dir (p ++ inner)) ∧
      (isSplitName inner = false → Asked env path (inTree dir (splitPart (p ++ inner) 0))) := by
  have hroot := opened_onlyDirs hcode
  have htree : (opened env onlyDirs).apkDir ≠ [] := hroot ▸ hdir
  have hlooks : ∀ q, q ∈ onDiskLooks noFiles (opened env onlyDirs) pathMax inner packs ∨
      q ∈ concatSplitsLooks plainZlib env making.tree pathMax inner noFiles (opened env onlyDirs) →
      Asked env path q := by
    intro q hq
    refine ⟨plainZlib, noFiles, onlyDirs, making, opened env onlyDirs, .inr rfl, ?_⟩
    have hnone : packs.findSome? (fun p => onDisk noFiles (opened env onlyDirs) pathMax
        (p ++ inner)) = none :=
      findSome?_eq_none_iff.mpr fun _ _ => onDisk_noFiles ..
    simp only [extractLooks, hpath, if_neg htree, hnone, mem_append]
    rcases hq with hq | hq
    · exact .inl hq
    · exact .inr (.inl hq)
  refine ⟨hlooks _ (.inl ?_), fun hsplit => hlooks _ (.inr ?_)⟩
  · rw [← hroot]
    exact mem_onDiskLooks hp
  · rw [concatSplitsLooks, hsplit, ← hroot]
    exact mem_concatPacksLooks htree hp

section Stored

variable {name : CStr} (hname : name.length < 256 ^ 2)

/-- The archive of one stored entry of this name. -/
def storedArchive : Zip.Archive :=
  oneArchive name hname false [120] oneByte_length_lt [] noComment_length_lt

def storedFile : List UInt8 :=
  oneFile name hname false [120] oneByte_length_lt [] noComment_length_lt

def storedHost : HostFs := onlyFile (storedFile hname)

def storedIndex (code : CStr) : Bridge := indexed (storedHost hname) code (storedArchive hname)

theorem storedFile_isArchive :
    Zip.IsArchive plainZlib.deflates (storedFile hname) (storedArchive hname) :=
  oneFile_isArchive ..

theorem storedHost_stat (path : CStr) :
    (storedHost hname).stat path = some (.file (storedFile hname)) := rfl

theorem opened_storedHost (hcode : env.codePath = some code) :
    opened env (storedHost hname) = storedIndex hname code := by
  have hcomment : ¬ Zip.eocdSig <:+: ([] : List UInt8) := by decide
  exact congrArg Prod.snd (apkOpen_eq hcode (storedHost_stat hname code)
    (storedFile_isArchive hname) hcomment (noStraddle_of_nil rfl))

/-- The entry is read, into any vector, and nothing else. -/
theorem readOpened_stored (code other : CStr) (out : Vec) :
    answered (readOpened plainZlib (storedHost hname) (storedIndex hname code) other out) =
      if other = name then some [120] else none := by
  have htried : (storedIndex hname code).tried := rfl
  have hread : readOpened plainZlib (storedHost hname) (storedIndex hname code) other out =
      (apkRead plainZlib ⟨none, none⟩ (storedHost hname) (storedIndex hname code) other out).1 := by
    rw [apkRead_tried htried]
  have hfile := storedHost_stat hname code
  rw [hread, storedIndex]
  by_cases hother : other = name
  · have hstored : (false ∧ plainZlib.emptyIsNull ∧ out.allocated = false ∧
      ([120] : List UInt8) = []) → False := fun h => Bool.false_ne_true h.1
    rw [if_pos hother, hother]
    exact (apkRead_entry hfile (storedFile_isArchive hname) (mem_singleton_self _) out).trans
      (if_neg hstored)
  · have hlookup : (indexed (storedHost hname) code (storedArchive hname)).dir.lookup other =
        none := by
      have hbeq : (other == name) = false := beq_eq_false_iff_ne.mpr hother
      change lookup other [(name, _)] = none
      rw [lookup_cons, hbeq]
      rfl
    rw [apkRead_indexed hfile, hlookup, if_neg hother]
    rfl

theorem readWhole_stored (hp : p ∈ packs) (hentry : name = p ++ inner) :
    ∃ data : Vec, data.bytes = [120] ∧
      readWhole plainZlib env (storedHost hname) inner packs .fresh (storedIndex hname code) =
        (some (name, data), storedIndex hname code) := by
  have hread := readOpened_stored hname code
  have hsteady : ∀ p ∈ packs,
      Steady plainZlib (storedHost hname) (storedIndex hname code) (p ++ inner) := by
    intro p' _ out
    rw [entry, hread, hread]
  obtain ⟨hfound, hbridge⟩ := readWhole_tried env rfl (steadyFrom_of_forall hsteady _ .fresh)
  generalize readWhole plainZlib env (storedHost hname) inner packs .fresh
    (storedIndex hname code) = r at hfound hbridge
  obtain ⟨found, b⟩ := r
  cases hbridge
  simp only [entry, hread] at hfound
  cases hsearch : packs.findSome? (fun p' => (if p' ++ inner = name then some [120] else
      none).map fun bytes : List UInt8 => (p' ++ inner, bytes)) with
  | none =>
    have hnone := findSome?_eq_none_iff.mp hsearch p hp
    rw [if_pos hentry.symm] at hnone
    cases hnone
  | some hit =>
    obtain ⟨p', hp', hhit⟩ := exists_of_findSome?_eq_some hsearch
    rw [hsearch] at hfound
    obtain ⟨⟨name', data⟩, rfl, hdata⟩ := Option.map_eq_some_iff.mp hfound
    by_cases heq : p' ++ inner = name
    · rw [if_pos heq, heq] at hhit
      rw [← Option.some.inj hhit, Prod.mk.injEq] at hdata
      obtain ⟨rfl, hbytes⟩ := hdata
      exact ⟨data, hbytes, rfl⟩
    · rw [if_neg heq] at hhit
      cases hhit

/-- With an archive of that entry, all that is on the way to its cache file is asked for. -/
theorem asked_cache (hpath : apkPathInner env path = some inner)
    (hcode : env.codePath = some code) (hp : p ∈ packs)
    (hfits : (cachePath (p ++ inner)).length < pathMax) (hq : q ∈ ways (p ++ inner)) :
    Asked env path q := by
  have hname : (p ++ inner).length < 256 ^ 2 := by
    rw [cachePath, length_append, pathMax] at hfits
    omega
  have hbridge := opened_storedHost hname hcode
  have hdir : (storedIndex hname code).apkDir = [] := rfl
  obtain ⟨data, hdata, hread⟩ : ∃ data : Vec, data.bytes = [120] ∧
      readWhole plainZlib env (storedHost hname) inner packs .fresh (storedIndex hname code) =
        (some (p ++ inner, data), storedIndex hname code) := readWhole_stored hname hp rfl
  -- The file that is there is longer than the entry.
  have hsize : ¬ ((storedHost hname).stat (cachePath (p ++ inner))).map Node.size =
      some data.bytes.length := by
    have hend := (storedFile_isArchive hname).ending.length_le
    rw [Zip.Archive.endRecord_length] at hend
    intro heq
    have hlength : (storedFile hname).length = data.bytes.length := Option.some.inj heq
    rw [hdata, length_singleton] at hlength
    omega
  refine ⟨plainZlib, storedHost hname, storedHost hname, making, storedIndex hname code,
    .inr hbridge.symm, ?_⟩
  simp only [extractLooks, hpath, if_pos hdir, extractIndexedLooks, hread, mem_append,
    if_neg (not_le.mpr hfits), if_neg hsize]
  exact .inr hq

end Stored

/-- **Every place is asked for** on some host, of the parts of an asset the first one. -/
theorem asked_of_place (hpath : apkPathInner env path = some inner)
    (h : AssetPlace env pathMax inner q) :
    Asked env path q ∨ ∃ dir p n, q = inTree dir (splitPart (p ++ inner) n) ∧
      Asked env path (inTree dir (splitPart (p ++ inner) 0)) := by
  cases h with
  | code hcode =>
    have hlook : q ∈ apkOpenLooks env noFiles .initial := by
      simp only [apkOpenLooks, hcode]
      exact mem_cons_self
    exact .inl (asked_of_open hpath hlook)
  | archive hcode hapk hne =>
    have hlook : q ∈ apkOpenLooks env onlyDirs .initial := by
      simp only [apkOpenLooks, hcode, hapk]
      exact mem_cons_of_mem _ mem_cons_self
    exact .inl (asked_of_open hpath hlook)
  | file hcode hdir hp => exact .inl (asked_inTree hpath hcode hdir hp).1
  | part n hcode hdir hsplit hp =>
    exact .inr ⟨_, _, n, rfl, (asked_inTree hpath hcode hdir hp).2 hsplit⟩
  | cache hcode hp hfits hway => exact .inl (asked_cache hpath hcode hp hfits hway)

end Asked

end Lunaria.Apk
