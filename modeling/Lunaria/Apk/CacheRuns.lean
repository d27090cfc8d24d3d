/-
# The cache over many runs

The cache stays on the host from one run of the program to the next, and a file that is there
already is taken for the asset if it has its size. What an extraction names is the asset in every
sequence of runs in which no other bytes of that size were extracted to the same path before.
-/

import Lunaria.Apk.Confinement
import Lunaria.Lib.Run

namespace Lunaria.Apk

open Lib FirstHit List Option
open Elf (CStr cstr)

variable {z : Zlib} {env : ApkEnv} {fs fs' fs'' : HostFs} {b : Bridge} {d : Disk} {a : Answers}
  {outsz : Nat} {inner name out : CStr}

/-! ## What one attempt leaves -/

/-- The directory of the cache, as a place of resolved paths. -/
def InCache (p : CStr) : Prop := (cacheRoot ++ cstr "/") <+: p
  deriving Decidable

/-- An attempt that failed: no file is new or has changed, and outside the cache nothing has. -/
structure Failed (d : Disk) (fs fs' : HostFs) : Prop where
  resolve : fs'.resolve = fs.resolve
  files : ∀ p bytes, fs'.bytes? p = some bytes → fs.bytes? p = some bytes
  outside : ∀ p, ¬ InCache p → fs'.bytes? p = fs.bytes? p
  dirs : ∀ p size, fs'.node p = some (.dir size) →
    fs.node p = some (.dir size) ∨ d.newDir = some size

theorem Failed.refl (d : Disk) (fs : HostFs) : Failed d fs fs :=
  ⟨rfl, fun _ _ => id, fun _ _ => rfl, fun _ _ => .inl⟩

/-- An attempt that names a path for some bytes: a file of that size was there, or the file was
written. -/
inductive Placed (fs fs' : HostFs) (out : CStr) (bytes : List UInt8) : Prop
  | reused (found : List UInt8) (hsame : fs' = fs) (hfound : fs.regular? out = some found)
      (hsize : found.length = bytes.length)
  | written (hothers : SameBut fs fs' out) (hfile : fs'.regular? out = some bytes)

namespace HostFs

variable {p path : CStr} {size : Nat}

theorem mkdir_dir {size' : Nat} (h : (fs.mkdir size path).node p = some (.dir size')) :
    fs.node p = some (.dir size') ∨ size = size' := by
  rcases fs.mkdir_cases size path with hsame | ⟨-, hmade⟩
  · exact .inl (hsame ▸ h)
  · simp only [hmade, set] at h
    split at h
    · exact .inr (Node.dir.inj (some.inj h))
    · exact .inl h

theorem foldl_mkdir_dir {paths : List CStr} {size' : Nat}
    (h : (paths.foldl (mkdir · size) fs).node p = some (.dir size')) :
    fs.node p = some (.dir size') ∨ size = size' := by
  induction paths generalizing fs with
  | nil => exact .inl h
  | cons path paths ih =>
    rcases ih h with h | h
    · exact mkdir_dir h
    · exact .inr h

theorem mkdirs_dir (h : (fs.mkdirs d out).node p = some (.dir size)) :
    fs.node p = some (.dir size) ∨ d.newDir = some size := by
  rw [mkdirs] at h
  cases hdir : d.newDir with
  | none =>
    rw [hdir] at h
    exact .inl h
  | some size' =>
    rw [hdir] at h
    rcases foldl_mkdir_dir h with h | h
    · exact .inl h
    · exact .inr (congrArg some h)

theorem set_dir {node : Option Node}
    (h : (fs.set path node).node p = some (.dir size)) (hnode : ∀ size, node ≠ some (.dir size)) :
    fs.node p = some (.dir size) := by
  simp only [set] at h
  split at h
  · exact absurd h (hnode size)
  · exact h

theorem store_dir {bytes : List UInt8} (h : (fs.store d out bytes).2.node p = some (.dir size)) :
    fs.node p = some (.dir size) ∨ d.newDir = some size := by
  rw [store] at h
  cases hopen : (fs.mkdirs d out).fopenWb d out with
  | none =>
    rw [hopen] at h
    exact mkdirs_dir h
  | some fs₁ =>
    rw [hopen] at h
    cases fopenWb_eq hopen
    simp only [fwriteAll] at h
    refine mkdirs_dir (?_ : (fs.mkdirs d out).node p = some _)
    have hfile (bytes : List UInt8) (size : Nat) : some (Node.file bytes) ≠ some (.dir size) := by
      intro heq
      cases heq
    have hgone (size : Nat) : (none : Option Node) ≠ some (.dir size) := by
      intro heq
      cases heq
    split at h
    · exact set_dir (set_dir h (hfile _)) (hfile _)
    · split at h
      · exact set_dir h (hfile _)
      · exact set_dir (set_dir h hgone) (hfile _)

theorem store_cases (hkeeps : ∀ lost, d.writing = .full lost → lost = 0)
    (hinside : InCache (fs.resolve out)) (bytes : List UInt8) :
    ((fs.store d out bytes).1 ∧ Placed fs (fs.store d out bytes).2 out bytes) ∨
      ((fs.store d out bytes).1 = false ∧ Failed d fs (fs.store d out bytes).2) := by
  have hothers := store_sameBut fs d out bytes
  cases hok : (fs.store d out bytes).1 with
  | true => exact .inl ⟨rfl, .written hothers (regular?_store hkeeps hok)⟩
  | false =>
    refine .inr ⟨rfl, hothers.resolve, fun p content => bytes?_store_failed hok, ?_,
      fun p size => store_dir⟩
    intro p hp
    apply hothers.bytes
    rintro rfl
    exact hp hinside

end HostFs

/-! ## Requests -/

/-- The bytes that a name stands for in the APK of the run: those of the entry, or of its parts. -/
def Wanted (z : Zlib) (fs : HostFs) (b : Bridge) (name : CStr) (bytes : List UInt8) : Prop :=
  entry z fs b name = some bytes ∨ pieces (part z fs b) name = some bytes

/-- The copies of a name are kept in the cache, and its sources are not. -/
structure Kept (fs : HostFs) (b : Bridge) (inner : CStr) : Prop where
  inside : ∀ p ∈ packs, InCache (fs.resolve (cachePath (p ++ inner)))
  archive : ∀ p, b.fp = some p → ¬ InCache p
  tree : b.apkDir ≠ [] → ∀ name, ¬ InCache (fs.resolve (b.apkDir ++ cstr "/" ++ name))

theorem Kept.apart (h : Kept fs b inner) (hp : p ∈ packs) :
    Apart fs b (cachePath (p ++ inner)) := by
  constructor
  · rintro q hq rfl
    exact h.archive _ hq (h.inside p hp)
  · intro hdir name heq
    exact h.tree hdir name (heq ▸ h.inside p hp)

theorem Failed.sources (h : Failed d fs fs') (hkept : Kept fs b inner) :
    ∀ p, IsSource fs b p → fs'.bytes? p = fs.bytes? p := by
  rintro p (hfp | ⟨hdir, name, rfl⟩)
  · exact h.outside p (hkept.archive p hfp)
  · exact h.outside _ (hkept.tree hdir name)

/-- What comes of a request: it fails, names the place of wanted bytes, or takes a directory of the
same size for an entry. -/
inductive Outcome (z : Zlib) (d : Disk) (fs : HostFs) (b : Bridge) (inner : CStr) :
    Option CStr × HostFs × Bridge → Prop
  | failed {fs' : HostFs} (h : Failed d fs fs') : Outcome z d fs b inner (none, fs', b)
  | placed {fs' : HostFs} {p : CStr} {bytes : List UInt8} (hp : p ∈ packs)
      (hwanted : Wanted z fs b (p ++ inner) bytes)
      (h : Placed fs fs' (cachePath (p ++ inner)) bytes) :
      Outcome z d fs b inner (some (cachePath (p ++ inner)), fs', b)
  | directory {p : CStr} {bytes : List UInt8} (hp : p ∈ packs)
      (hentry : entry z fs b (p ++ inner) = some bytes)
      (hfound : fs.stat (cachePath (p ++ inner)) = some (.dir bytes.length)) :
      Outcome z d fs b inner (some (cachePath (p ++ inner)), fs, b)

section

variable (h : b.tried) (hkept : Kept fs b inner)
  (hkeeps : ∀ lost, d.writing = .full lost → lost = 0)
include h hkept hkeeps

theorem concatPacks_outcome (hname : isSplitName inner = false)
    {ps : List CStr} (hps : ∀ p ∈ ps, p ∈ packs) :
    Outcome z d fs b inner (concatPacks z env d outsz inner ps fs b) := by
  induction ps with
  | nil => exact .failed (.refl d fs)
  | cons p ps ih =>
    have hp := hps p mem_cons_self
    have hpieces := pieces_pack (part z fs b) hp hname
    rw [concatPacks, concatPack_tried h fun _ _ _ => hkept.apart hp]
    cases hjoined : joined (part z fs b) (p ++ inner) with
    | none => exact ih (forall_mem_cons.mp hps).2
    | some bytes =>
      have hwanted : Wanted z fs b (p ++ inner) bytes := .inr (hpieces.trans hjoined)
      by_cases hfits : outsz ≤ (cachePath (p ++ inner)).length
      · simp only [if_pos hfits]
        exact .failed (.refl d fs)
      simp only [if_neg hfits]
      by_cases hreuse : (fs.regular? (cachePath (p ++ inner))).map length = some bytes.length
      · obtain ⟨found, hfound, hsize⟩ := map_eq_some_iff.mp hreuse
        simp only [if_pos hreuse]
        exact .placed hp hwanted (.reused found rfl hfound hsize)
      simp only [if_neg hreuse]
      rcases HostFs.store_cases hkeeps (hkept.inside p hp) bytes with
        ⟨hok, hplaced⟩ | ⟨hok, hfailed⟩
      · simp only [hok]
        exact .placed hp hwanted hplaced
      · simp only [hok]
        exact .failed hfailed

theorem concatSplitsToCache_outcome :
    Outcome z d fs b inner (concatSplitsToCache z env d outsz inner fs b) := by
  rw [concatSplitsToCache]
  cases hname : isSplitName inner with
  | true => exact .failed (.refl d fs)
  | false => exact concatPacks_outcome h hkept hkeeps hname fun _ => id

end

theorem apkRead_eq (name : CStr) (v : Vec) : apkRead z env fs b name v =
      (if (apkOpen env fs b).1 then readOpened z fs (apkOpen env fs b).2 name v else (false, v),
        (apkOpen env fs b).2) := by
  rw [apkRead]
  rcases apkOpen env fs b with ⟨ok, b₁⟩
  cases ok <;> rfl

theorem readWhole_tried_entry (env : ApkEnv) (h : b.tried) {ps : List CStr}
    (hsteady : ∀ p ∈ ps, Steady z fs b (p ++ inner)) {data found : Vec}
    (hfound : (readWhole z env fs inner ps data b).1 = some (name, found)) :
    ∃ p ∈ ps, name = p ++ inner ∧ entry z fs b (p ++ inner) = some found.bytes := by
  have hsearch := (readWhole_tried env h (steadyFrom_of_forall hsteady _ data)).1
  rw [hfound] at hsearch
  obtain ⟨p, hp, hentry⟩ := exists_of_findSome?_eq_some hsearch.symm
  obtain ⟨bytes, hbytes, heq⟩ := map_eq_some_iff.mp hentry
  cases heq
  exact ⟨p, hp, rfl, hbytes⟩

/-- The bridge behind the loop over the prefixes, and what the loop finds. -/
theorem readWhole_entry (data : Vec)
    (hsteady : ∀ p ∈ packs, Steady z fs (apkOpen env fs b).2 (p ++ inner)) :
    (readWhole z env fs inner packs data b).2 = (apkOpen env fs b).2 ∧
      ∀ name found, (readWhole z env fs inner packs data b).1 = some (name, found) →
        ∃ p ∈ packs, name = p ++ inner ∧
          entry z fs (apkOpen env fs b).2 (p ++ inner) = some found.bytes := by
  have htried := apkOpen_tried env fs b
  obtain ⟨first, rest, hpacks⟩ : ∃ first rest, packs = first :: rest := ⟨_, _, rfl⟩
  rw [hpacks] at hsteady ⊢
  have hlater := (forall_mem_cons.mp hsteady).2
  have hhere : ∀ read, (if (apkOpen env fs b).1 then
        readOpened z fs (apkOpen env fs b).2 (first ++ inner) data else (false, data)) =
      (true, read) → entry z fs (apkOpen env fs b).2 (first ++ inner) = some read.bytes := by
    intro read hread
    rw [← hsteady first mem_cons_self data]
    split at hread
    · rw [hread]
      rfl
    · cases hread
  rw [readWhole, apkRead_eq]
  generalize (if (apkOpen env fs b).1 then
    readOpened z fs (apkOpen env fs b).2 _ data else _) = r at hhere
  obtain ⟨ok, read⟩ := r
  cases ok with
  | true =>
    refine ⟨rfl, fun name found h => ?_⟩
    cases h
    exact ⟨first, mem_cons_self, rfl, hhere read rfl⟩
  | false =>
    refine ⟨(readWhole_tried env htried (steadyFrom_of_forall hlater _ read)).2,
      fun name found h => ?_⟩
    obtain ⟨p, hp, hname⟩ := readWhole_tried_entry env htried hlater h
    exact ⟨p, mem_cons_of_mem first hp, hname⟩

/-- Behind the tree, an entry or its parts are placed, or the attempt fails. -/
theorem extractIndexed_outcome (hkept : Kept fs (apkOpen env fs b).2 inner)
    (hsteady : ∀ p ∈ packs, Steady z fs (apkOpen env fs b).2 (p ++ inner))
    (hentry : ∀ lost, a.entry.writing = .full lost → lost = 0)
    (hparts : ∀ lost, a.parts.writing = .full lost → lost = 0) :
    ∃ d, Outcome z d fs (apkOpen env fs b).2 inner (extractIndexed z env a outsz inner fs b) := by
  obtain ⟨hbridge, hfound⟩ := readWhole_entry .fresh hsteady
  rw [extractIndexed]
  generalize readWhole z env fs inner packs .fresh b = r at hfound hbridge
  obtain ⟨found, b₁⟩ := r
  cases hbridge
  cases found with
  | none => exact ⟨a.parts, concatSplitsToCache_outcome (apkOpen_tried env fs b) hkept hparts⟩
  | some found =>
    obtain ⟨name, data⟩ := found
    obtain ⟨p, hp, rfl, hread⟩ := hfound name data rfl
    refine ⟨a.entry, ?_⟩
    by_cases hfits : outsz ≤ (cachePath (p ++ inner)).length
    · simp only [if_pos hfits]
      exact .failed (.refl a.entry fs)
    simp only [if_neg hfits]
    by_cases hreuse : (fs.stat (cachePath (p ++ inner))).map Node.size = some data.bytes.length
    · obtain ⟨node, hnode, hsize⟩ := map_eq_some_iff.mp hreuse
      simp only [if_pos hreuse]
      cases node with
      | file content =>
        exact .placed hp (.inl hread) (.reused content rfl (HostFs.regular?_of_file hnode) hsize)
      | dir size =>
        cases hsize
        exact .directory hp hread hnode
    simp only [if_neg hreuse]
    have hstore := HostFs.store_cases hentry (hkept.inside p hp) data.bytes
    rw [HostFs.store] at hstore
    cases hopen : (fs.mkdirs a.entry (cachePath (p ++ inner))).fopenWb a.entry (cachePath _) with
    | none =>
      rw [hopen] at hstore
      rcases hstore with ⟨hok, -⟩ | ⟨-, hfailed⟩
      · cases hok
      · exact .failed hfailed
    | some fs₁ =>
      rw [hopen] at hstore
      rcases hstore with ⟨hok, hplaced⟩ | ⟨hok, hfailed⟩
      · simp only [hok]
        exact .placed hp (.inl hread) hplaced
      · simp only [hok]
        exact .failed hfailed

/-! ## One request -/

/-- Every file of the cache is one that was extracted to its path. -/
def Logged (fs : HostFs) (log : List (CStr × List UInt8)) : Prop :=
  ∀ p bytes, InCache p → fs.bytes? p = some bytes → (p, bytes) ∈ log

/-- The file an extraction has named, for the log. -/
def logged (r : Option CStr × HostFs × Bridge) : List (CStr × List UInt8) :=
  match r.1 with
  | none => []
  | some out => ((r.2.1.regular? out).map (r.2.1.resolve out, ·)).toList

/-- What an extraction names holds wanted bytes. -/
def Delivers (z : Zlib) (fs : HostFs) (b : Bridge) (inner : CStr)
    (r : Option CStr × HostFs × Bridge) : Prop :=
  ∀ out, r.1 = some out → ∃ p ∈ packs,
    (out = cachePath (p ++ inner) ∨ out = b.apkDir ++ cstr "/" ++ (p ++ inner)) ∧
      ∃ bytes, Wanted z fs b (p ++ inner) bytes ∧ r.2.1.regular? out = some bytes

/-- To the cache paths of a name only its own bytes were extracted, or bytes of another size. -/
def Unmixed (z : Zlib) (fs : HostFs) (b : Bridge) (log : List (CStr × List UInt8)) (inner : CStr) :
    Prop :=
  ∀ p ∈ packs, ∀ bytes, Wanted z fs b (p ++ inner) bytes →
    ∀ found, (fs.resolve (cachePath (p ++ inner)), found) ∈ log →
      found.length = bytes.length → found = bytes

/-- No directory of the size of an entry is in its place. -/
def NoDirectory (z : Zlib) (fs : HostFs) (b : Bridge) (inner : CStr) : Prop :=
  ∀ p ∈ packs, ∀ bytes, entry z fs b (p ++ inner) = some bytes →
    fs.stat (cachePath (p ++ inner)) ≠ some (.dir bytes.length)

variable {log : List (CStr × List UInt8)}

theorem Logged.failed (h : Logged fs log) (hfailed : Failed d fs fs') : Logged fs' log :=
  fun p bytes hp hbytes => h p bytes hp (hfailed.files p bytes hbytes)

theorem mem_logged {bytes : List UInt8} (h : fs'.regular? out = some bytes) :
    logged (some out, fs', b) = [(fs'.resolve out, bytes)] := by
  simp [logged, h]

theorem Outcome.bridge {r : Option CStr × HostFs × Bridge} (h : Outcome z d fs b inner r) :
    r.2.2 = b := by
  cases h <;> rfl

theorem Outcome.delivers {r : Option CStr × HostFs × Bridge}
    (h : Outcome z d fs b inner r) (hkept : Kept fs b inner) (hlogged : Logged fs log)
    (hunmixed : Unmixed z fs b log inner) (hnoDir : NoDirectory z fs b inner) :
    Delivers z fs b inner r ∧ Logged r.2.1 (logged r ++ log) := by
  cases h with
  | failed hfailed => exact ⟨nofun, hlogged.failed hfailed⟩
  | directory hp hentry hfound => exact absurd hfound (hnoDir _ hp _ hentry)
  | @placed fs' p bytes hp hwanted hplaced =>
    cases hplaced with
    | reused found hsame hfound hsize =>
      cases hsame
      have hmem := hlogged _ found (hkept.inside p hp) hfound
      have hbytes := hunmixed p hp bytes hwanted found hmem hsize
      refine ⟨?_, fun q content hq hcontent =>
        mem_append_right _ (hlogged q content hq hcontent)⟩
      intro out hout
      cases hout
      exact ⟨p, hp, .inl rfl, bytes, hwanted, hbytes ▸ hfound⟩
    | written hothers hfile =>
      constructor
      · intro out hout
        cases hout
        exact ⟨p, hp, .inl rfl, bytes, hwanted, hfile⟩
      intro q content hq hcontent
      rw [mem_logged hfile]
      by_cases hplace : q = fs.resolve (cachePath (p ++ inner))
      · have hresolve : fs'.resolve = fs.resolve := hothers.resolve
        rw [HostFs.regular?, hresolve, ← hplace, hcontent] at hfile
        cases hfile
        rw [hplace, hresolve]
        exact mem_cons_self
      · rw [hothers.bytes q hplace] at hcontent
        exact mem_cons_of_mem _ (hlogged q content hq hcontent)

/-- The condition on a request: its copies are kept apart from its sources, its entries read alike,
closing a file loses nothing, no directory of its size is in its place, and nothing else of its size
was extracted there. -/
structure Unspoiled (z : Zlib) (fs : HostFs) (b : Bridge) (log : List (CStr × List UInt8))
    (a : Answers) (inner : CStr) : Prop where
  kept : Kept fs b inner
  steady : ∀ p ∈ packs, Steady z fs b (p ++ inner)
  flushed : ∀ lost, a.tree.writing = .full lost ∨ a.entry.writing = .full lost ∨
    a.parts.writing = .full lost → lost = 0
  noDirectory : NoDirectory z fs b inner
  noNewDirectory : ∀ p ∈ packs, ∀ bytes, entry z fs b (p ++ inner) = some bytes →
    a.tree.newDir ≠ some bytes.length
  unmixed : Unmixed z fs b log inner

theorem Unspoiled.flushed_entry (h : Unspoiled z fs b log a inner) :
    ∀ lost, a.entry.writing = .full lost → lost = 0 :=
  fun lost hlost => h.flushed lost (.inr (.inl hlost))

theorem Unspoiled.flushed_parts (h : Unspoiled z fs b log a inner) :
    ∀ lost, a.parts.writing = .full lost → lost = 0 :=
  fun lost hlost => h.flushed lost (.inr (.inr hlost))

/-- Behind a failed attempt the condition is what it was. -/
theorem Unspoiled.failed (h : Unspoiled z fs b log a inner) (hfailed : Failed a.tree fs fs') :
    Kept fs' b inner ∧ (∀ p ∈ packs, Steady z fs' b (p ++ inner)) ∧
      Unmixed z fs' b log inner ∧ NoDirectory z fs' b inner ∧ Wanted z fs' b = Wanted z fs b := by
  have hsources := hfailed.sources h.kept
  have hentry : entry z fs' b = entry z fs b := entry_congr hfailed.resolve hsources
  have hpart : part z fs' b = part z fs b := part_congr hfailed.resolve hsources
  have hwanted : Wanted z fs' b = Wanted z fs b := by
    funext name bytes
    rw [Wanted, hentry, hpart]
    rfl
  refine ⟨?_, ?_, ?_, ?_, hwanted⟩
  · exact ⟨hfailed.resolve ▸ h.kept.inside, h.kept.archive, hfailed.resolve ▸ h.kept.tree⟩
  · intro p hp v
    rw [readOpened_congr hfailed.resolve hsources, hentry]
    exact h.steady p hp v
  · rw [Unmixed, hwanted, hfailed.resolve]
    exact h.unmixed
  intro p hp bytes hbytes hdir
  rw [hentry] at hbytes
  rw [HostFs.stat, hfailed.resolve] at hdir
  rcases hfailed.dirs _ _ hdir with hdir | hdir
  · exact h.noDirectory p hp bytes hbytes hdir
  · exact h.noNewDirectory p hp bytes hbytes hdir

/-- A file of the tree serves the request. -/
def FromTree (fs : HostFs) (b : Bridge) (outsz : Nat) (inner : CStr) : Prop :=
  b.apkDir ≠ [] ∧ (packs.findSome? fun p => onDisk fs b outsz (p ++ inner)).isSome

theorem delivers_onDisk (hdir : b.apkDir ≠ []) {fp : CStr}
    (h : packs.findSome? (fun p => onDisk fs b outsz (p ++ inner)) = some fp) :
    Delivers z fs b inner (some fp, fs, b) := by
  obtain ⟨p, hp, hfp⟩ := exists_of_findSome?_eq_some h
  obtain ⟨hplace, bytes, hbytes, hentry⟩ := entry_of_onDisk z hdir hfp
  intro out hout
  cases hout
  exact ⟨p, hp, .inr hplace, bytes, .inl hentry, hbytes⟩

/-- What one extraction names is what was requested, and its file is logged. -/
theorem extractToCache_delivers (outsz : Nat)
    (hpath : apkPathInner env path = some inner) (hb : b.tried ∨ b.apkDir = [])
    (h : ¬ FromTree fs b outsz inner → Unspoiled z fs (apkOpen env fs b).2 log a inner)
    (hlogged : Logged fs log) :
    Delivers z fs (apkOpen env fs b).2 inner (extractToCache z env a outsz path fs b) ∧
      Logged (extractToCache z env a outsz path fs b).2.1
        (logged (extractToCache z env a outsz path fs b) ++ log) ∧
      (extractToCache z env a outsz path fs b).2.2 = (apkOpen env fs b).2 := by
  simp only [extractToCache, hpath]
  by_cases hdir : b.apkDir = []
  · simp only [if_pos hdir]
    have h := h fun htree => htree.1 hdir
    obtain ⟨d, houtcome⟩ : ∃ d, Outcome z d fs (apkOpen env fs b).2 inner
        (extractIndexed z env a outsz inner fs b) :=
      extractIndexed_outcome h.kept h.steady h.flushed_entry h.flushed_parts
    obtain ⟨hdelivers, hlog⟩ := houtcome.delivers h.kept hlogged h.unmixed h.noDirectory
    exact ⟨hdelivers, hlog, houtcome.bridge⟩
  have htried := hb.resolve_right hdir
  have hopen : ∀ fs, (apkOpen env fs b).2 = b := fun fs => by rw [apkOpen, if_pos htried]
  rw [hopen] at h ⊢
  simp only [if_neg hdir]
  cases hdisk : packs.findSome? fun p => onDisk fs b outsz (p ++ inner) with
  | some fp =>
    refine ⟨delivers_onDisk hdir hdisk, fun q content hq hcontent => ?_, rfl⟩
    exact mem_append_right _ (hlogged q content hq hcontent)
  | none =>
    have h := h fun htree => Bool.false_ne_true (by simpa [hdisk] using htree.2)
    have htree : Outcome z a.tree fs b inner (concatSplitsToCache z env a.tree outsz inner fs b) :=
      concatSplitsToCache_outcome htried h.kept fun lost hlost => h.flushed lost (.inl hlost)
    generalize concatSplitsToCache z env a.tree outsz inner fs b = r at htree
    cases hr : r.1 with
    | some out =>
      obtain ⟨result, fs₁, b₁⟩ := r
      cases hr
      obtain ⟨hdelivers, hlog⟩ := htree.delivers h.kept hlogged h.unmixed h.noDirectory
      exact ⟨hdelivers, hlog, htree.bridge⟩
    | none =>
      cases htree with
      | placed | directory => cases hr
      | @failed fs₁ hfailed =>
        obtain ⟨hkept, hsteady, hunmixed, hnoDir, hwanted⟩ := h.failed hfailed
        obtain ⟨d, houtcome⟩ : ∃ d, Outcome z d fs₁ (apkOpen env fs₁ b).2 inner
            (extractIndexed z env a outsz inner fs₁ b) := by
          rw [← hopen fs₁] at hkept hsteady
          exact extractIndexed_outcome hkept hsteady h.flushed_entry h.flushed_parts
        rw [hopen] at houtcome
        obtain ⟨hdelivers, hlog⟩ := houtcome.delivers hkept (hlogged.failed hfailed) hunmixed hnoDir
        rw [Delivers, hwanted] at hdelivers
        exact ⟨hdelivers, hlog, houtcome.bridge⟩

/-! ## Sequences of runs -/

/-- The host, the environment and the bridge of the current run, and what was extracted so far. -/
structure CacheState where
  fs : HostFs
  env : ApkEnv
  bridge : Bridge
  log : List (CStr × List UInt8)

/-- The program starts, with whatever stands outside the cache; it opens the bridge; it extracts; or
a directory changes its size. -/
inductive CacheEvent
  | start (env : ApkEnv) (outside : CStr → Option Node)
  | opens
  | extract (a : Answers) (outsz : Nat) (path : CStr)
  | resized (p : CStr) (size : Nat)

namespace CacheState

def step (z : Zlib) (s : CacheState) : CacheEvent → CacheState
  | .start env outside =>
    { s with
      fs := { s.fs with node := fun p => if InCache p then s.fs.node p else outside p }
      env := env
      bridge := .initial }
  | .opens => { s with bridge := (apkOpen s.env s.fs s.bridge).2 }
  | .extract a outsz path =>
    let r := extractToCache z s.env a outsz path s.fs s.bridge
    { s with fs := r.2.1, bridge := r.2.2, log := logged r ++ s.log }
  | .resized p size =>
    match s.fs.node p with
    | some (.dir _) =>
      { s with fs := { s.fs with
          node := fun q => if q = p then some (.dir size) else s.fs.node q } }
    | _ => s

/-- A request that the tree does not serve meets the condition in the state it finds. -/
def Meets (z : Zlib) (s : CacheState) : CacheEvent → Prop
  | .extract a outsz path => ∀ inner, apkPathInner s.env path = some inner →
      ¬ FromTree s.fs s.bridge outsz inner →
        Unspoiled z s.fs (apkOpen s.env s.fs s.bridge).2 s.log a inner
  | _ => True

/-- The files of the cache are logged, and the tree is known only behind the first call. -/
structure Sound (s : CacheState) : Prop where
  logged : Logged s.fs s.log
  bridge : s.bridge.tried = true ∨ s.bridge.apkDir = []

end CacheState

namespace CacheState

theorem Sound.step {s : CacheState} {event : CacheEvent} (h : s.Sound) (hmeets : s.Meets z event) :
    (s.step z event).Sound := by
  cases event with
  | start env outside =>
    refine ⟨fun p bytes hp hbytes => h.logged p bytes hp ?_, .inr rfl⟩
    rw [HostFs.bytes?] at hbytes
    simp only [CacheState.step, if_pos hp] at hbytes
    exact hbytes
  | opens => exact ⟨h.logged, .inl (apkOpen_tried ..)⟩
  | extract a outsz path =>
    cases hpath : apkPathInner s.env path with
    | none =>
      have hsame : extractToCache z s.env a outsz path s.fs s.bridge =
          (none, s.fs, s.bridge) := by simp [extractToCache, hpath]
      simp only [CacheState.step, hsame]
      exact ⟨h.logged, h.bridge⟩
    | some inner =>
      obtain ⟨-, hlog, hopen⟩ := extractToCache_delivers outsz hpath h.bridge
        (hmeets inner hpath) h.logged
      exact ⟨hlog, .inl ((congrArg Bridge.tried hopen).trans (apkOpen_tried ..))⟩
  | resized p size =>
    rw [CacheState.step]
    split
    · next hdir =>
        refine ⟨fun q bytes hq hbytes => h.logged q bytes hq ?_, h.bridge⟩
        simp only [HostFs.bytes?] at hbytes
        split at hbytes
        · cases hbytes
        · exact hbytes
    · exact h

/-- A host with an asset in the extracted tree, and an empty cache. -/
def firstInstall : CacheState :=
  ⟨treeFiles [(cstr "/d/assets/x", [1])], treeEnv, .initial, []⟩

def request : CacheEvent := .extract willing pathMax (cstr "/d/assets/x")

/-- The program starts again with another asset of that name. -/
def updated (bytes : List UInt8) : CacheEvent :=
  .start treeEnv (treeFiles [(cstr "/d/assets/x", bytes)]).node

/-- The state in which the asset is requested again. -/
def afterUpdate (bytes : List UInt8) : CacheState :=
  run (step plainZlib) firstInstall [request, updated bytes]

theorem logged_firstInstall : Logged firstInstall.fs firstInstall.log := by
  intro p bytes hp hbytes
  have hasset : p ≠ cstr "/d/assets/x" := by
    rintro rfl
    revert hp
    decide +kernel
  have hother : [(cstr "/d/assets/x", [(1 : UInt8)])].lookup p = none := by
    rw [lookup_cons, beq_eq_false_iff_ne.mpr hasset]
    rfl
  have hnode : firstInstall.fs.node p =
      if p = cstr "/" ∨ p = cstr "/tmp" ∨ p = cstr "/d" then some (.dir 0) else none := by
    simp only [firstInstall, treeFiles, hother, map_none]
  rw [HostFs.bytes?, hnode] at hbytes
  split at hbytes
  · cases hbytes
  · cases hbytes

/-- The condition for this asset, with the tree at `/d` and no links. -/
theorem unspoiled_tree (hresolve : fs.resolve = id) (hplaces : ∀ p ∈ packs,
      (fs.stat (cachePath (p ++ cstr "assets/x"))).all (·.bytes?.isSome))
    (hsize : ∀ p ∈ packs, ∀ bytes ∈
      entry plainZlib fs ⟨true, none, cstr "/d", []⟩ (p ++ cstr "assets/x"), bytes.length ≠ 4096)
    (hlog : ∀ p ∈ packs, ∀ bytes ∈ (entry plainZlib fs ⟨true, none, cstr "/d", []⟩
          (p ++ cstr "assets/x")).toList ++
        (pieces (part plainZlib fs ⟨true, none, cstr "/d", []⟩) (p ++ cstr "assets/x")).toList,
      ∀ e ∈ log, e.1 = cachePath (p ++ cstr "assets/x") → e.2.length = bytes.length → e.2 = bytes) :
    Unspoiled plainZlib fs ⟨true, none, cstr "/d", []⟩ log willing (cstr "assets/x") := by
  have hinside : ∀ p ∈ packs, InCache (cachePath (p ++ cstr "assets/x")) := by decide +kernel
  refine ⟨⟨?_, nofun, ?_⟩, ?_, ?_, ?_, ?_, ?_⟩
  · rw [hresolve]
    exact hinside
  · rintro - name hcache
    rw [hresolve] at hcache
    obtain ⟨rest, hrest⟩ := hcache
    have hsecond := congrArg (·[1]?) hrest
    cases hsecond
  · exact fun p _ => steady_tree (by decide +kernel) rfl _
  · rintro lost (hlost | hlost | hlost) <;> exact (Writing.full.inj hlost).symm
  · intro p hp bytes _ hdir
    have hplace := hplaces p hp
    rw [hdir] at hplace
    cases hplace
  · intro p hp bytes hentry hnew
    exact hsize p hp bytes hentry (some.inj hnew).symm
  · intro p hp bytes hwanted found hfound hlength
    rw [hresolve] at hfound
    refine hlog p hp bytes (mem_append.mpr ?_) _ hfound rfl hlength
    simpa [Wanted] using hwanted

end CacheState

end Lunaria.Apk
