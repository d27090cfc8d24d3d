/-
# The two ways to an asset

`AssetManager.open` goes through the packs one by one and asks each for the entry and then for its
parts. The fallback of `fopen` asks all packs for the entry first, and then all of them for parts;
with an extracted tree, it looks for files and for parts there ahead of both.
-/

import Lunaria.Apk.CacheFiles
import Lunaria.Apk.Index

namespace Lunaria.Apk

open Lib FirstHit List Option
open Elf (CStr cstr)

/-! ## Streams -/

/-- The bytes of one `read` after the other. -/
def Stream.drain (s : Stream) : List Nat → List UInt8
  | [] => []
  | len :: lens => (s.read len).1 ++ (s.read len).2.drain lens

theorem Stream.drain_eq (s : Stream) (lens : List Nat) :
    s.drain lens = (s.data.drop s.pos).take lens.sum := by
  induction lens generalizing s with
  | nil => rfl
  | cons len lens ih =>
    rw [drain, ih, sum_cons, take_add]
    by_cases hlen : len ≤ (s.data.drop s.pos).length
    · simp only [read, length_take, min_eq_left hlen, drop_drop]
    · have hend : (s.data.drop s.pos).length ≤ len := Nat.le_of_not_le hlen
      simp only [read, length_take, min_eq_right hend, ← drop_drop]
      rw [drop_length, drop_of_length_le hend]

/-- Both fail, or reading the stream gives what reading the file gives. -/
def SameBytes : Option Stream → Option (List UInt8) → Prop
  | none, none => True
  | some s, some bytes => ∀ lens, s.drain lens = bytes.take lens.sum
  | _, _ => False

theorem sameBytes_iff (data file : Option (List UInt8)) :
    SameBytes (data.map (⟨·, 0⟩)) file ↔ data = file := by
  cases data with
  | none => cases file <;> simp [SameBytes]
  | some data =>
    cases file with
    | none => simp [SameBytes]
    | some bytes =>
      simp only [map_some, SameBytes, Stream.drain_eq, drop_zero, some.injEq]
      constructor
      · intro h
        have hall := h [data.length + bytes.length]
        rwa [sum_singleton, take_of_length_le (Nat.le_add_right ..),
          take_of_length_le (Nat.le_add_left ..)] at hall
      · rintro rfl lens
        rfl

/-! ## The first call -/

variable {z : Zlib} {env : ApkEnv} {fs : HostFs}

/-- The bridge behind the first call. -/
def opened (env : ApkEnv) (fs : HostFs) : Bridge := (apkOpen env fs .initial).2

def Reached (env : ApkEnv) (fs : HostFs) (b : Bridge) : Prop := b = .initial ∨ b = opened env fs

/-- The first call answers like the later ones: it does not fail on the archive although there is
an extracted tree. -/
def Answering (env : ApkEnv) (fs : HostFs) : Prop :=
  (apkOpen env fs .initial).1 = true ∨ (opened env fs).apkDir = []

theorem openArchive_tried (fs : HostFs) (path : CStr) (b : Bridge) :
    (openArchive fs path b).2.tried = b.tried := by
  rw [openArchive]
  rcases fs.stat path with _ | file | size
  · rfl
  · dsimp only
    cases findEocd (apkTail file) <;> rfl
  · rfl

variable {b : Bridge} {path name : CStr} {d : Disk}

theorem openArchive_dir (h : (openArchive fs path b).1 = false) :
    (openArchive fs path b).2.dir = b.dir := by
  rw [openArchive] at h ⊢
  rcases hfile : fs.stat path with _ | file | size
  · rfl
  · simp only [hfile] at h ⊢
    cases heocd : findEocd (apkTail file) with
    | none => rfl
    | some e =>
      rw [heocd] at h
      cases h
  · rfl

theorem apkOpen_untried (env : ApkEnv) (fs : HostFs) (h : b.tried = false) :
    (∃ ok dir, apkOpen env fs b = (ok, { b with tried := true, apkDir := dir })) ∨
      ∃ path dir, apkOpen env fs b =
        openArchive fs path { b with tried := true, apkDir := dir } := by
  rw [apkOpen, h]
  cases env.codePath with
  | none => exact .inl ⟨false, b.apkDir, rfl⟩
  | some path =>
    simp only
    cases fs.stat path with
    | none => exact .inr ⟨path, b.apkDir, rfl⟩
    | some node =>
      cases node with
      | file bytes => exact .inr ⟨path, b.apkDir, rfl⟩
      | dir size =>
        cases env.apkFile with
        | none => exact .inl ⟨true, path, rfl⟩
        | some apk =>
          cases apk with
          | nil => exact .inl ⟨true, path, rfl⟩
          | cons c cs => exact .inr ⟨c :: cs, path, rfl⟩

theorem apkOpen_tried (env : ApkEnv) (fs : HostFs) (b : Bridge) : (apkOpen env fs b).2.tried := by
  cases h : b.tried with
  | true => rw [apkOpen, if_pos h, h]
  | false =>
    rcases apkOpen_untried env fs h with ⟨ok, dir, hopen⟩ | ⟨path, dir, hopen⟩
    · rw [hopen]
    · rw [hopen, openArchive_tried]

theorem opened_tried (env : ApkEnv) (fs : HostFs) : (opened env fs).tried :=
  apkOpen_tried env fs .initial

theorem opened_dir (h : (apkOpen env fs .initial).1 = false) : (opened env fs).dir = [] := by
  rw [opened]
  have huntried : Bridge.initial.tried = false := rfl
  rcases apkOpen_untried env fs huntried with ⟨ok, dir, hopen⟩ | ⟨path, dir, hopen⟩
  · rw [hopen]
    rfl
  · rw [hopen] at h ⊢
    exact openArchive_dir h

theorem apkRead_initial (h : Answering env fs) (name : CStr) (out : Vec) :
    apkRead z env fs .initial name out = apkRead z env fs (opened env fs) name out := by
  rw [apkRead_tried (opened_tried env fs), apkRead]
  have hbridge : (apkOpen env fs .initial).2 = opened env fs := rfl
  cases hok : (apkOpen env fs .initial).1 with
  | true => rw [← Prod.eta (apkOpen env fs .initial), hok, hbridge]
  | false =>
    have hdir : (opened env fs).apkDir = [] := by
      rcases h with h | h
      · rw [hok] at h
        cases h
      · exact h
    rw [← Prod.eta (apkOpen env fs .initial), hok, hbridge]
    simp [readOpened, hdir, opened_dir hok]

theorem assetManagerOpen_reached (h : b = .initial → Answering env fs) (hb : Reached env fs b)
    (rel : CStr) :
    assetManagerOpen z env fs b rel = assetManagerOpen z env fs (opened env fs) rel := by
  rcases hb with rfl | rfl
  · rw [assetManagerOpen, assetManagerOpen, assetPrefixes, openFirst, openFirst, apkReadOrSplits,
      apkReadOrSplits, apkRead_initial (h rfl)]
  · rfl

theorem extractIndexed_initial (h : Answering env fs) (a : Answers) (outsz : Nat) (inner : CStr) :
    extractIndexed z env a outsz inner fs .initial =
      extractIndexed z env a outsz inner fs (opened env fs) := by
  rw [extractIndexed, extractIndexed, packs, readWhole, readWhole, apkRead_initial h]

/-! ## The cache -/

/-- The copy that a request uses: its name and bytes, the host's answers for it, and whether it is
put together from parts, which are read while it is written. -/
structure Copy where
  name : CStr
  bytes : List UInt8
  disk : Disk
  joined : Bool

/-- A new copy can be written: there is no directory and no file of that size, it is no directory on
its own way and not one of the files its parts are in, and the host lets it be written. -/
structure Writable (fs : HostFs) (b : Bridge) (c : Copy) : Prop where
  other : ∀ node, fs.stat (cachePath c.name) = some node →
    ∃ old, node = .file old ∧ old.length ≠ c.bytes.length
  way : ∀ q ∈ cacheRoot :: HostFs.parents (cachePath c.name),
    fs.resolve q ≠ fs.resolve (cachePath c.name)
  apart : c.joined = true → Apart fs b (cachePath c.name)
  opens : c.disk.writing ≠ .refused
  keeps : c.bytes ≠ [] → c.disk.writing = .full 0

/-- The copy can be had: its path has room, and it is there or can be written. -/
structure Copyable (fs : HostFs) (b : Bridge) (outsz : Nat) (c : Copy) : Prop where
  fits : (cachePath c.name).length < outsz
  stored : fs.regular? (cachePath c.name) = some c.bytes ∨ Writable fs b c

/-- The copy that a request uses. If it looks into the tree first, files there need none, and parts
there come before the entries. -/
def copied (z : Zlib) (fs : HostFs) (b : Bridge) (a : Answers) (outsz : Nat) (inner : CStr)
    (tree : Bool) : Option Copy :=
  let whole := (firstEntry z fs b inner).map fun e => ⟨e.1, e.2, a.entry, false⟩
  let parts := fun disk => (firstParts z fs b inner).map fun e => ⟨e.1, e.2, disk, true⟩
  if tree then
    if (packs.findSome? fun p => onDisk fs b outsz (p ++ inner)).isSome then none
    else (parts a.tree).or whole
  else whole.or (parts a.parts)

/-- What a request that looks into the tree first has there: a file, or else parts. -/
def ahead (z : Zlib) (fs : HostFs) (b : Bridge) (outsz : Nat) (inner : CStr) (tree : Bool) :
    Option (List UInt8) :=
  if tree then
    ((packs.findSome? fun p => onDisk fs b outsz (p ++ inner)).bind fs.regular?).or
      (packs.findSome? fun p => pieces (part z fs b) (p ++ inner))
  else none

/-- The copy the request uses can be had and, if it comes to the entries, they are read as into a
fresh vector. -/
structure Ready (z : Zlib) (fs : HostFs) (b : Bridge) (a : Answers) (outsz : Nat) (inner : CStr)
    (tree : Bool) : Prop where
  copy : ∀ c ∈ copied z fs b a outsz inner tree, Copyable fs b outsz c
  steady : ahead z fs b outsz inner tree = none →
    SteadyFrom z fs b inner (fun _ v => v) packs .fresh

section Extraction

variable {b : Bridge} {a : Answers} {outsz : Nat} {inner : CStr} {tree : Bool}

/-- The bytes of the file an extraction has named. -/
def extracted (r : Option CStr × HostFs × Bridge) : Option (List UInt8) := r.1.bind r.2.1.regular?

theorem Writable.store {c : Copy} (h : Writable fs b c) :
    (fs.store c.disk (cachePath c.name) c.bytes).1 ∧
      (fs.store c.disk (cachePath c.name) c.bytes).2.regular? (cachePath c.name) =
        some c.bytes := by
  have hplace : ∀ size, fs.stat (cachePath c.name) ≠ some (.dir size) := by
    intro size hdir
    obtain ⟨old, hold, -⟩ := h.other _ hdir
    cases hold
  rw [HostFs.store_of_opened c.bytes h.opens h.way hplace, HostFs.fwriteAll]
  cases hwriting : c.disk.writing with
  | refused => exact absurd hwriting h.opens
  | short =>
    have hempty : c.bytes = [] := by
      by_contra hne
      cases hwriting.symm.trans (h.keeps hne)
    simp only [hempty, if_true]
    exact ⟨trivial, HostFs.bytes?_set_self ..⟩
  | full lost =>
    have hkept : c.bytes.take (c.bytes.length - lost) = c.bytes := by
      by_cases hempty : c.bytes = []
      · rw [hempty, take_nil]
      · cases hwriting.symm.trans (h.keeps hempty)
        exact take_length
    simp only [hkept]
    exact ⟨trivial, HostFs.bytes?_set_self ..⟩

theorem Writable.size_ne {c : Copy} (h : Writable fs b c) :
    (fs.stat (cachePath c.name)).map Node.size ≠ some c.bytes.length ∧
      (fs.regular? (cachePath c.name)).map length ≠ some c.bytes.length := by
  rw [HostFs.regular?, HostFs.bytes?, ← HostFs.stat]
  cases hstat : fs.stat (cachePath c.name) with
  | none => exact ⟨by simp, by simp⟩
  | some node =>
    obtain ⟨old, rfl, hne⟩ := h.other node hstat
    exact ⟨fun heq => hne (some.inj heq), fun heq => hne (some.inj heq)⟩

/-- The parts of the first pack that has any are put together. -/
theorem concatPacks_copied (h : b.tried) (hname : isSplitName inner = false) {ps : List CStr}
    (hps : ∀ p ∈ ps, p ∈ packs)
    (hcopy : ∀ e, ps.findSome? (fun p => (pieces (part z fs b) (p ++ inner)).map (p ++ inner, ·)) =
      some e → Copyable fs b outsz ⟨e.1, e.2, d, true⟩) :
    extracted (concatPacks z env d outsz inner ps fs b) =
        ps.findSome? (fun p => pieces (part z fs b) (p ++ inner)) ∧
      (ps.findSome? (fun p => pieces (part z fs b) (p ++ inner)) = none →
        concatPacks z env d outsz inner ps fs b = (none, fs, b)) := by
  induction ps with
  | nil => exact ⟨rfl, fun _ => rfl⟩
  | cons p ps ih =>
    have hpieces := pieces_pack (part z fs b) (hps p mem_cons_self) hname
    rw [findSome?_cons, hpieces] at hcopy
    rw [concatPacks, findSome?_cons, hpieces, concatPack_tried h]
    · cases hjoined : joined (part z fs b) (p ++ inner) with
      | none =>
        rw [hjoined] at hcopy
        exact ih (forall_mem_cons.mp hps).2 hcopy
      | some w =>
        rw [hjoined] at hcopy
        obtain ⟨hfits, hstored⟩ := hcopy _ rfl
        simp only [if_neg (not_le.mpr hfits)]
        rcases hstored with hfile | hwritable
        · simp only [hfile, Option.map_some, if_true]
          exact ⟨hfile, nofun⟩
        · obtain ⟨hok, hfile⟩ := hwritable.store
          simp only [if_neg hwritable.size_ne.2, hok]
          exact ⟨hfile, nofun⟩
    · intro bytes hjoined hreuse
      rw [hjoined] at hcopy
      rcases (hcopy _ rfl).stored with hfile | hwritable
      · exact absurd (congrArg (Option.map length) hfile) hreuse
      · exact hwritable.apart rfl

theorem concatSplitsToCache_copied (env : ApkEnv) (h : b.tried)
    (hcopy : ∀ e, firstParts z fs b inner = some e →
      Copyable fs b outsz ⟨e.1, e.2, d, true⟩) :
    extracted (concatSplitsToCache z env d outsz inner fs b) =
        packs.findSome? (fun p => pieces (part z fs b) (p ++ inner)) ∧
      (packs.findSome? (fun p => pieces (part z fs b) (p ++ inner)) = none →
        concatSplitsToCache z env d outsz inner fs b = (none, fs, b)) := by
  rw [concatSplitsToCache]
  cases hname : isSplitName inner with
  | false => exact concatPacks_copied h hname (fun _ => id) hcopy
  | true =>
    have hnone : packs.findSome? (fun p => pieces (part z fs b) (p ++ inner)) = none := by
      apply findSome?_eq_none_iff.mpr
      intro p hp
      rw [pieces, isSplitName_pack hp, hname]
      rfl
    exact ⟨hnone.symm, fun _ => rfl⟩

/-- Behind the extracted tree, the packs are asked for the entry and then for parts. -/
theorem extractIndexed_copied (h : b.tried)
    (hsteady : SteadyFrom z fs b inner (fun _ v => v) packs .fresh)
    (hcopy : ∀ c ∈ copied z fs b a outsz inner false, Copyable fs b outsz c) :
    extracted (extractIndexed z env a outsz inner fs b) =
      (packs.findSome? fun p => entry z fs b (p ++ inner)).or
        (packs.findSome? fun p => pieces (part z fs b) (p ++ inner)) := by
  have hfound : (firstEntry z fs b inner).map Prod.snd = _ := map_findSome?_snd ..
  rw [extractIndexed_tried h hsteady, ← hfound]
  simp only [copied, Bool.false_eq_true, if_false] at hcopy
  cases hfirst : firstEntry z fs b inner with
  | none =>
    rw [hfirst] at hcopy
    refine (concatSplitsToCache_copied env h fun e he => ?_).1
    exact hcopy _ (by rw [he]; rfl)
  | some e =>
    rw [hfirst] at hcopy
    obtain ⟨hfits, hstored⟩ := hcopy ⟨e.1, e.2, a.entry, false⟩ rfl
    simp only [if_neg (not_le.mpr hfits)]
    rcases hstored with hfile | hwritable
    · have hstat : (fs.stat (cachePath e.1)).map Node.size = some e.2.length := by
        obtain ⟨node, hnode, hbytes⟩ := bind_eq_some_iff.mp hfile
        cases node with
        | dir size => cases hbytes
        | file content =>
          cases hbytes
          exact congrArg (Option.map Node.size) hnode
      simp only [if_pos hstat]
      exact hfile
    · obtain ⟨hok, hfile⟩ := hwritable.store
      simp only [if_neg hwritable.size_ne.1, hok]
      exact hfile

/-! ## The extracted tree -/

/-- A file that is named in the tree is the entry. -/
theorem entry_of_onDisk (z : Zlib) (hdir : b.apkDir ≠ []) {fp : CStr}
    (h : onDisk fs b outsz name = some fp) : fp = b.apkDir ++ cstr "/" ++ name ∧
      ∃ bytes, fs.regular? fp = some bytes ∧ entry z fs b name = some bytes := by
  obtain ⟨⟨hregular, -⟩, heq⟩ := ite_none_right_eq_some.mp h
  obtain ⟨bytes, hbytes⟩ := isSome_iff_exists.mp hregular
  cases heq
  refine ⟨rfl, bytes, hbytes, ?_⟩
  simp only [entry, readOpened, if_neg hdir, hbytes, answered, if_true, Vec.overwrite_resize]

/-- Without an entry there is no file in the tree. -/
theorem ahead_or (htree : tree = true → b.apkDir ≠ [])
    (h : packs.findSome? (fun p => entry z fs b (p ++ inner)) = none) :
    (ahead z fs b outsz inner tree).or
        (packs.findSome? fun p => pieces (part z fs b) (p ++ inner)) =
      packs.findSome? fun p => pieces (part z fs b) (p ++ inner) := by
  cases tree with
  | false => rfl
  | true =>
    have hdisk : packs.findSome? (fun p => onDisk fs b outsz (p ++ inner)) = none := by
      refine findSome?_eq_none_iff.mpr fun p hp => eq_none_iff_forall_ne_some.mpr fun fp hfp => ?_
      obtain ⟨-, bytes, -, hbytes⟩ := entry_of_onDisk z (htree rfl) hfp
      cases (findSome?_eq_none_iff.mp h p hp).symm.trans hbytes
    rw [ahead, if_pos rfl, hdisk, bind_none, none_or, Option.or_self]

/-- With a tree, its files are asked for first, then its parts. -/
theorem extractToCache_tree (h : b.tried) (hready : Ready z fs b a outsz inner true)
    (hdir : b.apkDir ≠ []) (hpath : apkPathInner env path = some inner) :
    extracted (extractToCache z env a outsz path fs b) =
      (ahead z fs b outsz inner true).or
        ((packs.findSome? fun p => entry z fs b (p ++ inner)).or
          (packs.findSome? fun p => pieces (part z fs b) (p ++ inner))) := by
  obtain ⟨hcopy, hsteady⟩ := hready
  simp only [extractToCache, hpath, if_neg hdir]
  simp only [ahead, copied, if_true] at hcopy hsteady ⊢
  cases hdisk : packs.findSome? fun p => onDisk fs b outsz (p ++ inner) with
  | some fp =>
    obtain ⟨p, -, hp⟩ := exists_of_findSome?_eq_some hdisk
    obtain ⟨-, bytes, hbytes, -⟩ := entry_of_onDisk z hdir hp
    rw [bind_some, hbytes]
    exact hbytes
  | none =>
    simp only [hdisk, Option.isSome_none, Bool.false_eq_true, if_false, bind_none, none_or]
      at hcopy hsteady ⊢
    have hfound : (firstParts z fs b inner).map Prod.snd = _ := map_findSome?_snd ..
    obtain ⟨hparts, hsame⟩ := concatSplitsToCache_copied (d := a.tree) env h fun e he =>
      hcopy _ (by rw [he]; rfl)
    cases hfile : extracted (concatSplitsToCache z env a.tree outsz inner fs b) with
    | none =>
      have hnone := hparts.symm.trans hfile
      have hfirst := map_eq_none_iff.mp (hfound.trans hnone)
      have hindexed : extracted (extractIndexed z env a outsz inner fs b) = _ :=
        extractIndexed_copied h (hsteady hnone) fun c hc =>
          hcopy c (by simpa [copied, hfirst] using hc)
      rw [hnone] at hindexed
      rw [hsame hnone, hnone, none_or]
      exact hindexed
    | some bytes =>
      rw [← hparts, hfile]
      generalize concatSplitsToCache z env a.tree outsz inner fs b = r at hfile
      obtain ⟨result, fs', b'⟩ := r
      cases result with
      | none => cases hfile
      | some out => exact hfile

/-- What the fallback finds, before or behind the first call. -/
theorem fopenFallback_reached (hanswering : b = .initial → Answering env fs)
    (hb : Reached env fs b)
    (hready : Ready z fs (opened env fs) a outsz inner (b.apkDir ≠ []))
    (hpath : apkPathInner env path = some inner) : fopenFallback z env a outsz path fs b =
      (ahead z fs (opened env fs) outsz inner (b.apkDir ≠ [])).or
        ((packs.findSome? fun p => entry z fs (opened env fs) (p ++ inner)).or
          (packs.findSome? fun p => pieces (part z fs (opened env fs)) (p ++ inner))) := by
  have htried := opened_tried env fs
  change extracted (extractToCache z env a outsz path fs b) = _
  by_cases hdir : b.apkDir = []
  · have hlooks : decide (b.apkDir ≠ []) = false := decide_eq_false (not_not.mpr hdir)
    rw [hlooks] at hready ⊢
    have hindexed : extracted (extractIndexed z env a outsz inner fs (opened env fs)) = _ :=
      extractIndexed_copied htried (hready.steady rfl) hready.copy
    simp only [extractToCache, hpath, if_pos hdir]
    rcases hb with rfl | rfl
    · rw [extractIndexed_initial (hanswering rfl), hindexed]
      rfl
    · exact hindexed
  · rcases hb with rfl | rfl
    · exact absurd rfl hdir
    have hlooks : decide ((opened env fs).apkDir ≠ []) = true := decide_eq_true hdir
    rw [hlooks] at hready ⊢
    exact extractToCache_tree htried hready hdir hpath

theorem tree_of_reached (h : Reached env fs b) (htree : decide (b.apkDir ≠ []) = true) :
    (opened env fs).apkDir ≠ [] := by
  rcases h with rfl | rfl
  · cases htree
  · exact of_decide_eq_true htree

end Extraction

/-- The parts `AssetManager.open` takes: those that are not all empty. -/
def streamed (z : Zlib) (fs : HostFs) (b : Bridge) (name : CStr) : Option (List UInt8) :=
  (pieces (entry z fs b) name).filter nonempty

section Tree

variable {b : Bridge} (hdir : b.apkDir ≠ []) (hindex : b.dir = [])
include hdir hindex

theorem entry_tree (name : CStr) (out : Vec) :
    answered (readOpened z fs b name out) = treeFile fs b name := by
  rw [readOpened, if_neg hdir, treeFile, hindex]
  cases fs.regular? (b.apkDir ++ cstr "/" ++ name) with
  | none => rfl
  | some bytes => simp [answered, Vec.overwrite_resize]

theorem steady_tree (name : CStr) : Steady z fs b name := by
  intro out
  rw [entry_tree hdir hindex, entry, entry_tree hdir hindex]

end Tree

/-- An APK that was extracted to `/d`. -/
def treeEnv : ApkEnv := ⟨some (cstr "/d"), none⟩

def treeFiles (files : List (CStr × List UInt8)) : HostFs :=
  ⟨id, fun p => if p = cstr "/" ∨ p = cstr "/tmp" ∨ p = cstr "/d" then some (.dir 0)
    else (files.lookup p).map .file⟩

def willing : Answers := ⟨⟨.full 0, some 4096⟩, ⟨.full 0, some 4096⟩, ⟨.full 0, some 4096⟩⟩

def pathMax : Nat := 4096

/-- Parts in front of the pack with the entry. -/
def contestedFiles : HostFs :=
  treeFiles [(cstr "/d/assets/x.split0", [1]), (cstr "/d/base/assets/x", [2])]

def emptyPartFiles : HostFs := treeFiles [(cstr "/d/assets/x.split0", [])]

/-- On the first call, the asset of a tree is written into the cache. -/
theorem ready_tree : Ready plainZlib (treeFiles [(cstr "/d/assets/x", [1])])
    (opened treeEnv (treeFiles [(cstr "/d/assets/x", [1])])) willing pathMax
      (cstr "assets/" ++ cstr "x") false := by
  have hopened : opened treeEnv (treeFiles [(cstr "/d/assets/x", [1])]) =
      ⟨true, none, cstr "/d", []⟩ := by
    simp [opened, apkOpen, treeEnv, Bridge.initial, HostFs.stat, treeFiles]
  have hfirst : firstEntry plainZlib (treeFiles [(cstr "/d/assets/x", [1])])
      ⟨true, none, cstr "/d", []⟩ (cstr "assets/" ++ cstr "x") = some (cstr "assets/x", [1]) := by
    decide +kernel
  have hstat : (treeFiles [(cstr "/d/assets/x", [1])]).stat (cachePath (cstr "assets/x")) =
      none := by
    decide +kernel
  rw [hopened]
  refine ⟨fun c hc => ?_, fun _ => steadyFrom_of_forall (fun p _ =>
    steady_tree (by decide) rfl _) _ _⟩
  rw [copied, hfirst] at hc
  cases hc
  refine ⟨by decide +kernel, .inr ⟨?_, ?_, Bool.noConfusion, by decide, fun _ => rfl⟩⟩
  · intro node hnode
    cases hstat.symm.trans hnode
  · exact (by decide +kernel : ∀ q ∈ cacheRoot :: HostFs.parents (cachePath (cstr "assets/x")),
      q ≠ cachePath (cstr "assets/x"))

end Lunaria.Apk
