/-
# Where the cache is written

An extraction creates directories and one file on the way to a path of the cache. The name of the
entry is part of that path as it is, `..` and all. A name that comes only to places below the cache
root, or to the directories above it, creates nothing outside; for every other name there is an
archive with which something is created outside.
-/

import Lunaria.Apk.CacheFiles
import Lunaria.Apk.AssetPaths
import Lunaria.Lib.DotPath

namespace Lunaria.Apk

open Lib DotPath Zip Buffer List
open Elf (CStr cstr)

/-! ## What an extraction changes -/

/-- Only what stands at certain resolved paths has changed. -/
structure ChangesIn (S : CStr → Prop) (fs fs' : HostFs) : Prop where
  resolve : fs'.resolve = fs.resolve
  node : ∀ p, ¬ S p → fs'.node p = fs.node p

/-- A path that leads to a place in the set, or to a directory, which no call replaces. -/
def Settled (S : CStr → Prop) (fs : HostFs) (q : CStr) : Prop :=
  S (fs.resolve q) ∨ ∃ size, fs.stat q = some (.dir size)

/-- The places on the way to a cache file, and the file. -/
def ways (name : CStr) : List CStr :=
  cachePath name :: cacheRoot :: HostFs.parents (cachePath name)

section Changes

variable {S : CStr → Prop} {z : Zlib} {env : ApkEnv} {fs fs' fs'' : HostFs} {b : Bridge} {d : Disk}
  {a : Answers} {outsz : Nat} {inner name out : CStr}

namespace ChangesIn

theorem refl (S : CStr → Prop) (fs : HostFs) : ChangesIn S fs fs := ⟨rfl, fun _ _ => rfl⟩

theorem trans (h : ChangesIn S fs fs') (h' : ChangesIn S fs' fs'') : ChangesIn S fs fs'' :=
  ⟨h'.resolve.trans h.resolve, fun p hp => (h'.node p hp).trans (h.node p hp)⟩

theorem set (hout : S (fs.resolve out)) (node : Option Node) :
    ChangesIn S fs (fs.set out node) := by
  refine ⟨rfl, fun p hp => ?_⟩
  have hne : p ≠ fs.resolve out := by
    rintro rfl
    exact hp hout
  exact if_neg hne

theorem settled (h : ChangesIn S fs fs') {q : CStr} (hq : Settled S fs q) : Settled S fs' q := by
  by_cases hin : S (fs.resolve q)
  · exact .inl (h.resolve ▸ hin)
  · obtain ⟨size, hdir⟩ := hq.resolve_left hin
    refine .inr ⟨size, ?_⟩
    rw [HostFs.stat, h.resolve, h.node _ hin]
    exact hdir

theorem mkdir (hout : Settled S fs out) (size : Nat) : ChangesIn S fs (fs.mkdir size out) := by
  rcases fs.mkdir_cases size out with hsame | ⟨hstat, hmade⟩
  · rw [hsame]
    exact refl S fs
  · rw [hmade]
    refine set (hout.resolve_right ?_) _
    rintro ⟨size', hdir⟩
    cases hstat.symm.trans hdir

theorem foldl_mkdir {paths : List CStr} (size : Nat) (h : ∀ q ∈ paths, Settled S fs q) :
    ChangesIn S fs (paths.foldl (HostFs.mkdir · size) fs) := by
  induction paths generalizing fs with
  | nil => exact refl S fs
  | cons q paths ih =>
    have hq : ChangesIn S fs (fs.mkdir size q) := mkdir (h q mem_cons_self) size
    exact hq.trans (ih fun x hx => hq.settled (h x (mem_cons_of_mem q hx)))

theorem mkdirs (h : ∀ q ∈ cacheRoot :: HostFs.parents out, Settled S fs q) :
    ChangesIn S fs (fs.mkdirs d out) := by
  rw [HostFs.mkdirs]
  cases d.newDir with
  | none => exact refl S fs
  | some size => exact foldl_mkdir size h

theorem fopenWb (h : fs.fopenWb d out = some fs') (hout : Settled S fs out) :
    ChangesIn S fs fs' ∧ S (fs'.resolve out) := by
  have hin : S (fs.resolve out) := by
    refine hout.resolve_right ?_
    rintro ⟨size, hdir⟩
    rw [HostFs.fopenWb, hdir] at h
    cases hwriting : d.writing <;> simp [hwriting] at h
  rw [HostFs.fopenWb_eq h]
  exact ⟨set hin _, hin⟩

theorem fopenWay (hways : ∀ q ∈ ways name, Settled S fs q)
    (h : (fs.mkdirs d (cachePath name)).fopenWb d (cachePath name) = some fs') :
    ChangesIn S fs fs' ∧ S (fs'.resolve (cachePath name)) := by
  have hmkdirs : ChangesIn S fs (fs.mkdirs d (cachePath name)) :=
    .mkdirs (forall_mem_cons.mp hways).2
  obtain ⟨hopened, hout⟩ := fopenWb h (hmkdirs.settled (hways _ mem_cons_self))
  exact ⟨hmkdirs.trans hopened, hout⟩

theorem fwriteAll (hout : S (fs.resolve out)) (bytes : List UInt8) :
    ChangesIn S fs (fs.fwriteAll d out bytes).2 := by
  rw [HostFs.fwriteAll]
  split
  · exact set hout _
  · split
    · exact refl S fs
    · exact set hout _

end ChangesIn

theorem concatPack_changesIn
    (h : (cachePath name).length < outsz → ∀ q ∈ ways name, Settled S fs q) :
    ChangesIn S fs (concatPack z env d outsz name fs b).2.1 := by
  rw [concatPack]
  rcases partBytes z env fs b (splitPart name 0) with ⟨first, b₁⟩
  cases first with
  | none => exact .refl S fs
  | some first =>
    by_cases hfits : outsz ≤ (cachePath name).length
    · simp only [if_pos hfits]
      exact .refl S fs
    have hways := h (not_le.mp hfits)
    simp only [if_neg hfits]
    split
    · exact .refl S fs
    split
    · exact .refl S fs
    cases hopen : (fs.mkdirs d (cachePath name)).fopenWb d (cachePath name) with
    | none => exact .mkdirs (forall_mem_cons.mp hways).2
    | some fs₁ =>
      obtain ⟨hopened, hout⟩ := ChangesIn.fopenWay hways hopen
      simp only
      split
      · exact hopened.trans (.set hout _)
      · exact hopened.trans (.fwriteAll hout _)

theorem concatPacks_changesIn {ps : List CStr} (h : ∀ p ∈ ps,
      (cachePath (p ++ inner)).length < outsz → ∀ q ∈ ways (p ++ inner), Settled S fs q) :
    ChangesIn S fs (concatPacks z env d outsz inner ps fs b).2.1 := by
  induction ps generalizing fs b with
  | nil => exact .refl S fs
  | cons p ps ih =>
    have hhere : ChangesIn S fs (concatPack z env d outsz (p ++ inner) fs b).2.1 :=
      concatPack_changesIn (h p mem_cons_self)
    rw [concatPacks]
    generalize concatPack z env d outsz (p ++ inner) fs b = r at hhere
    obtain ⟨result, fs₁, b₁⟩ := r
    cases result with
    | some result => exact hhere
    | none =>
      exact hhere.trans (ih fun q hq hfits x hx =>
        hhere.settled (h q (mem_cons_of_mem p hq) hfits x hx))

/-- What an extraction of a name may change. -/
def Writes (S : CStr → Prop) (fs : HostFs) (outsz : Nat) (inner : CStr) : Prop :=
  ∀ p ∈ packs, (cachePath (p ++ inner)).length < outsz → ∀ q ∈ ways (p ++ inner), Settled S fs q

theorem concatSplitsToCache_changesIn (h : Writes S fs outsz inner) :
    ChangesIn S fs (concatSplitsToCache z env d outsz inner fs b).2.1 := by
  rw [concatSplitsToCache]
  cases isSplitName inner with
  | true => exact .refl S fs
  | false => exact concatPacks_changesIn h

theorem readWhole_name {ps : List CStr} {data found : Vec}
    (h : (readWhole z env fs inner ps data b).1 = some (name, found)) :
    ∃ p ∈ ps, name = p ++ inner := by
  induction ps generalizing data b with
  | nil => cases h
  | cons p ps ih =>
    rw [readWhole] at h
    generalize apkRead z env fs b (p ++ inner) data = r at h
    obtain ⟨⟨ok, read⟩, b₁⟩ := r
    cases ok with
    | true =>
      cases h
      exact ⟨p, mem_cons_self, rfl⟩
    | false =>
      obtain ⟨q, hq, hname⟩ := ih h
      exact ⟨q, mem_cons_of_mem p hq, hname⟩

theorem extractIndexed_changesIn (h : Writes S fs outsz inner) :
    ChangesIn S fs (extractIndexed z env a outsz inner fs b).2.1 := by
  rw [extractIndexed]
  have hfound : ∀ name found, (readWhole z env fs inner packs .fresh b).1 = some (name, found) →
      ∃ p ∈ packs, name = p ++ inner := fun _ _ => readWhole_name
  generalize readWhole z env fs inner packs .fresh b = r at hfound
  obtain ⟨found, b₁⟩ := r
  cases found with
  | none => exact concatSplitsToCache_changesIn h
  | some found =>
    obtain ⟨name, data⟩ := found
    obtain ⟨p, hp, rfl⟩ := hfound name data rfl
    by_cases hfits : outsz ≤ (cachePath (p ++ inner)).length
    · simp only [if_pos hfits]
      exact .refl S fs
    have hways := h p hp (not_le.mp hfits)
    simp only [if_neg hfits]
    split
    · exact .refl S fs
    cases hopen : (fs.mkdirs a.entry (cachePath (p ++ inner))).fopenWb a.entry (cachePath _) with
    | none => exact .mkdirs (forall_mem_cons.mp hways).2
    | some fs₁ =>
      obtain ⟨hopened, hout⟩ := ChangesIn.fopenWay hways hopen
      exact hopened.trans (.fwriteAll hout _)

variable {path q p : CStr}

/-- **What an extraction changes** is on the way to the cache files of the requested name. -/
theorem extractToCache_changesIn (hpath : apkPathInner env path = some inner)
    (h : Writes S fs outsz inner) :
    ChangesIn S fs (extractToCache z env a outsz path fs b).2.1 := by
  simp only [extractToCache, hpath]
  split
  · exact extractIndexed_changesIn h
  split
  · exact .refl S fs
  have hparts : ChangesIn S fs (concatSplitsToCache z env a.tree outsz inner fs b).2.1 :=
    concatSplitsToCache_changesIn h
  generalize concatSplitsToCache z env a.tree outsz inner fs b = r at hparts
  obtain ⟨result, fs₁, b₁⟩ := r
  cases result with
  | some out => exact hparts
  | none =>
    exact hparts.trans (extractIndexed_changesIn fun p hp hfits q hq =>
      hparts.settled (h p hp hfits q hq))

end Changes

/-! ## Below the root -/

def Under (p : CStr) : Prop := p = cacheRoot ∨ (cacheRoot ++ cstr "/") <+: p

def rootNames : List CStr := [cstr "tmp", cstr "lunaria-apk-cache"]

theorem under_join (rest : List CStr) : Under (join (rootNames ++ rest)) := by
  rw [join_append]
  cases rest with
  | nil => exact .inl (append_nil _)
  | cons name rest => exact .inr ⟨name ++ join rest, by rw [append_assoc]; rfl⟩

theorem walk_cachePath (u : CStr) : walk [] [] (cachePath u) = walk rootNames [] u := by
  have hroot : walk [] [] cacheRoot = rootNames := by decide +kernel
  have hpath : cachePath u = cacheRoot ++ 47 :: u := append_assoc ..
  rw [hpath, walk_slash, hroot]

/-- The directories on the way to a cache file end at the slashes of its name. -/
theorem mem_parents_iff {name : CStr} :
    q ∈ HostFs.parents (cachePath name) ↔ ∃ u v, name = u ++ 47 :: v ∧ q = cachePath u := by
  have hpath : ∀ u : CStr, cachePath u = cacheRoot ++ [47] ++ u := fun _ => rfl
  simp only [HostFs.parents, mem_map, mem_filter, mem_range, Bool.and_eq_true,
    decide_eq_true_eq, beq_iff_eq]
  constructor
  · rintro ⟨i, ⟨hi, hroot, hslash⟩, rfl⟩
    obtain ⟨k, rfl⟩ := Nat.exists_eq_add_of_lt hroot
    have hlength : (cacheRoot ++ [47]).length = cacheRoot.length + 1 := length_append
    have hindex : cacheRoot.length + k + 1 = (cacheRoot ++ [47]).length + k := by omega
    rw [hpath, hindex, getElem?_append_right (Nat.le_add_right ..),
      Nat.add_sub_cancel_left] at hslash
    refine ⟨name.take k, name.drop (k + 1), ?_, ?_⟩
    · obtain ⟨hk, hget⟩ := List.getElem?_eq_some_iff.mp hslash
      rw [← hget, getElem_cons_drop, take_append_drop]
    · rw [hpath, hpath, hindex, take_length_add_append]
  · rintro ⟨u, v, rfl, rfl⟩
    have hname : cachePath (u ++ 47 :: v) = cachePath u ++ 47 :: v := by
      rw [hpath, hpath, append_assoc _ u]
    have hlength : (cachePath u).length = cacheRoot.length + 1 + u.length := by
      rw [hpath, length_append]
      rfl
    rw [hname]
    refine ⟨(cachePath u).length, ⟨?_, ?_, ?_⟩, take_left⟩
    · rw [length_append, length_cons]
      omega
    · omega
    · rw [getElem?_append_right le_rfl, Nat.sub_self]
      rfl

/-- A place in the cache, or on the way to it. -/
def Home (names : List CStr) : Prop := rootNames <+: names ∨ names <+: rootNames
  deriving Decidable

/-- The directories above the cache are there. -/
def Rooted (fs : HostFs) : Prop :=
  ∀ path ∈ [cstr "/", cstr "/tmp"], ∃ size, fs.stat path = some (.dir size)

theorem prefix_rootNames {names : List CStr} (h : names <+: rootNames) :
    names = [] ∨ names = [cstr "tmp"] ∨ names = rootNames := by
  have hcases : names = [] ∨ ∃ t, names = cstr "tmp" :: t ∧
      (t = [] ∨ t = [cstr "lunaria-apk-cache"]) := by
    simpa [rootNames, prefix_cons_iff] using h
  rcases hcases with rfl | ⟨t, rfl, rfl | rfl⟩
  · exact .inl rfl
  · exact .inr (.inl rfl)
  · exact .inr (.inr rfl)

variable {fs : HostFs}

theorem settled_of_home {u : CStr} (hresolve : fs.resolve = canonical) (hrooted : Rooted fs)
    (h : Home (walk rootNames [] u)) : Settled Under fs (cachePath u) := by
  have hplace : fs.resolve (cachePath u) = join (walk rootNames [] u) := by
    rw [hresolve, canonical, walk_cachePath]
  have habove : ∀ path ∈ [cstr "/", cstr "/tmp"], fs.resolve (cachePath u) = canonical path →
      Settled Under fs (cachePath u) := by
    intro path hpath heq
    obtain ⟨size, hdir⟩ := hrooted path hpath
    refine .inr ⟨size, ?_⟩
    rwa [HostFs.stat, heq, ← hresolve]
  rcases h with ⟨rest, hrest⟩ | hprefix
  · refine .inl ?_
    rw [hplace, ← hrest]
    exact under_join rest
  · rcases prefix_rootNames hprefix with hnil | htmp | hroot
    · exact habove (cstr "/") (by simp) (by rw [hplace, hnil]; decide +kernel)
    · exact habove (cstr "/tmp") (by simp) (by rw [hplace, htmp]; decide +kernel)
    · refine .inl ?_
      rw [hplace, hroot]
      exact under_join []

/-- With each of the prefixes, the name comes only to places in the cache and above it, or its path
has no room in the buffer. -/
def Homely (inner : CStr) : Prop :=
  ∀ p ∈ packs, (cachePath (p ++ inner)).length < pathMax →
    ∀ place ∈ stops rootNames [] (p ++ inner), Home place
  deriving Decidable

theorem writes_under {inner : CStr} (hresolve : fs.resolve = canonical) (hrooted : Rooted fs)
    (h : Homely inner) : Writes Under fs pathMax inner := by
  intro p hp hfits q hq
  have hstop : ∀ u, Stop u (p ++ inner) → Settled Under fs (cachePath u) := fun u hu =>
    settled_of_home hresolve hrooted (h p hp hfits _ (walk_mem_stops _ hu))
  rcases mem_cons.mp hq with rfl | hq
  · exact hstop _ (.inl rfl)
  rcases mem_cons.mp hq with rfl | hq
  · have hroot : canonical cacheRoot = cacheRoot := by decide +kernel
    exact .inl (by rw [hresolve, hroot]; exact .inl rfl)
  · obtain ⟨u, v, hname, rfl⟩ := mem_parents_iff.mp hq
    exact hstop u (.inr ⟨v, hname⟩)

/-- Extracting a guest path with this name creates and overwrites nothing outside the cache root,
with every archive, on every host without links. -/
def Confined (inner : CStr) : Prop :=
  ∀ (z : Zlib) (env : ApkEnv) (fs : HostFs) (a : Answers) (path : CStr) (b : Bridge),
    fs.resolve = canonical → Rooted fs → apkPathInner env path = some inner → Reached env fs b →
      ChangesIn Under fs (extractToCache z env a pathMax path fs b).2.1

/-! ## Names that go outside -/

theorem leaves_home {names : List CStr} {c : CStr} (hhome : Home names)
    (hout : ¬ Home (push names c)) :
    (names = [] ∨ names = [cstr "tmp"]) ∧ push names c = names ++ [c] := by
  unfold push at hout ⊢
  cases hkind : kind c with
  | here =>
    rw [hkind] at hout
    exact absurd hhome hout
  | up =>
    rw [hkind] at hout
    refine absurd ?_ hout
    rcases hhome with ⟨rest, rfl⟩ | hprefix
    · by_cases hrest : rest = []
      · rw [hrest, append_nil]
        exact .inr ( dropLast_prefix _)
      · exact .inl ⟨rest.dropLast, (dropLast_append_of_ne_nil hrest).symm⟩
    · exact .inr (IsPrefix.trans ( dropLast_prefix _) hprefix)
  | down =>
    rw [hkind] at hout
    refine ⟨?_, rfl⟩
    have hnot : ¬ rootNames <+: names := fun h => hout (.inl (h.trans (prefix_append ..)))
    rcases prefix_rootNames (hhome.resolve_left hnot) with hnil | htmp | rfl
    · exact .inl hnil
    · exact .inr htmp
    · exact absurd prefix_rfl hnot

theorem parentPath_append (p : CStr) {c : CStr} (hc : 47 ∉ c) :
    HostFs.parentPath (p ++ 47 :: c) = p := by
  have hrest : (p ++ 47 :: c).reverse.dropWhile (· ≠ 47) = 47 :: p.reverse := by
    rw [reverse_append, reverse_cons, append_assoc, dropWhile_append_of_pos]
    · rfl
    · intro x hx
      exact decide_eq_true fun heq => hc (heq ▸ mem_reverse.mp hx)
  rw [HostFs.parentPath, hrest]
  exact reverse_reverse p

/-- A stop away from home is neither below the cache nor a directory above it. -/
theorem outside_home {names : List CStr} {c : CStr} (hnames : names = [] ∨ names = [cstr "tmp"])
    (hc : 47 ∉ c) (hout : ¬ Home (names ++ [c])) :
    ¬ Under (join names ++ 47 :: c) ∧ join names ++ 47 :: c ≠ [] ∧
      join names ++ 47 :: c ≠ cstr "/tmp" := by
  have htmp : cstr "/tmp" = 47 :: cstr "tmp" := rfl
  have hroot : cacheRoot = 47 :: (cstr "tmp" ++ 47 :: cstr "lunaria-apk-cache") := rfl
  rcases hnames with rfl | rfl
  · have hplace : join [] ++ 47 :: c = 47 :: c := rfl
    rw [hplace]
    refine ⟨?_, cons_ne_nil _ _, fun heq => hout (.inr ?_)⟩
    · rintro (heq | ⟨rest, heq⟩)
      · exact hc ((cons.inj (heq.trans hroot)).2 ▸ by decide)
      · rw [hroot] at heq
        exact hc ((cons.inj heq).2 ▸ by simp)
    · rw [nil_append, (cons.inj (heq.trans htmp)).2]
      exact ⟨[cstr "lunaria-apk-cache"], rfl⟩
  · have hplace : join [cstr "tmp"] ++ 47 :: c = 47 :: (cstr "tmp" ++ 47 :: c) := rfl
    rw [hplace]
    refine ⟨?_, cons_ne_nil _ _, fun heq => ?_⟩
    · rintro (heq | ⟨rest, heq⟩)
      · rw [hroot] at heq
        have hname := (cons.inj (append_cancel_left (cons.inj heq).2)).2
        exact hout (.inl ⟨[], by rw [hname]; rfl⟩)
      · rw [hroot] at heq
        have hname : cstr "lunaria-apk-cache" ++ (cstr "/" ++ rest) = c := by
          simpa using heq
        exact hc (hname ▸ mem_append_right _ mem_cons_self)
    · have hlength := congrArg length heq
      rw [htmp, length_cons, length_append, length_cons, length_cons] at hlength
      omega

section Above

variable {fs : HostFs}

theorem isSome_set {node : Node} (h : (fs.node p).isSome) :
    ((fs.set path (some node)).node p).isSome := by
  simp only [HostFs.set]
  split
  · rfl
  · exact h

theorem node_mkdir {node : Node} (size : Nat) (path : CStr) (h : fs.node p = some node) :
    (fs.mkdir size path).node p = some node := by
  rcases fs.mkdir_cases size path with hsame | ⟨hstat, hmade⟩
  · rwa [hsame]
  · rw [hmade]
    refine (if_neg ?_).trans h
    rintro rfl
    cases hstat.symm.trans h

theorem isSome_mkdir {size above : Nat}
    (habove : fs.node (HostFs.parentPath (fs.resolve path)) = some (.dir above)) :
    ((fs.mkdir size path).node (fs.resolve path)).isSome := by
  rw [HostFs.mkdir, habove]
  cases hstat : fs.stat path with
  | some node => exact Option.isSome_of_eq_some hstat
  | none => simp [HostFs.set]

theorem isSome_foldl_mkdir {paths : List CStr} {size above : Nat}
    (habove : fs.node (HostFs.parentPath p) = some (.dir above))
    (h : (∃ q ∈ paths, p = fs.resolve q) ∨ (fs.node p).isSome) :
    ((paths.foldl (HostFs.mkdir · size) fs).node p).isSome := by
  induction paths generalizing fs with
  | nil =>
    rcases h with ⟨q, hq, -⟩ | h
    · cases hq
    · exact h
  | cons path paths ih =>
    apply ih (node_mkdir size path habove)
    rcases h with ⟨q, hq, rfl⟩ | h
    · rcases mem_cons.mp hq with rfl | hq
      · exact .inr (isSome_mkdir habove)
      · refine .inl ⟨q, hq, ?_⟩
        rw [HostFs.mkdir_resolve]
    · obtain ⟨node, hnode⟩ := Option.isSome_iff_exists.mp h
      exact .inr (Option.isSome_of_eq_some (node_mkdir size path hnode))

/-- A place on the way is there afterwards, if the directory it stands in was there before. -/
theorem isSome_store {d : Disk} {size above : Nat} {name : CStr} (hdir : d.newDir = some size)
    (hwriting : d.writing = .full 0) (bytes : List UInt8) (hq : q ∈ ways name)
    (habove : fs.node (HostFs.parentPath (fs.resolve q)) = some (.dir above)) :
    ((fs.store d (cachePath name) bytes).2.node (fs.resolve q)).isSome := by
  have hway : q ∈ cacheRoot :: HostFs.parents (cachePath name) →
      ((fs.mkdirs d (cachePath name)).node (fs.resolve q)).isSome := by
    intro hq
    rw [HostFs.mkdirs, hdir]
    exact isSome_foldl_mkdir habove (.inl ⟨q, hq, rfl⟩)
  have hresolve := (HostFs.mkdirs_same fs d (cachePath name)).1
  rw [HostFs.store]
  cases hopen : (fs.mkdirs d (cachePath name)).fopenWb d (cachePath name) with
  | none =>
    rcases mem_cons.mp hq with rfl | hq
    · -- There is a directory already.
      rw [HostFs.fopenWb, hwriting, HostFs.stat, hresolve] at hopen
      cases hnode : (fs.mkdirs d (cachePath name)).node (fs.resolve (cachePath name)) with
      | none =>
        rw [hnode] at hopen
        cases hopen
      | some node => rfl
    · exact hway hq
  | some fs₁ =>
    cases HostFs.fopenWb_eq hopen
    simp only [HostFs.fwriteAll, hwriting]
    rcases mem_cons.mp hq with rfl | hq
    · simp [HostFs.set, hresolve]
    · exact isSome_set (isSome_set (hway hq))

/-- A path longer than all paths of the cache. -/
def farPath : CStr := 47 :: List.replicate pathMax 122

theorem canonical_farPath : canonical farPath = farPath := by
  have hslash : ∀ x ∈ replicate pathMax (122 : UInt8), x ≠ 47 := by
    intro x hx
    rw [eq_of_mem_replicate hx]
    decide
  have hwalk : walk [] [] farPath = [replicate pathMax 122] := by
    have hfirst : walk [] [] farPath = walk (push [] []) [] (replicate pathMax 122) :=
      if_pos rfl
    rw [hfirst, walk_of_no_slash _ hslash]
    rfl
  rw [canonical, hwalk, join, flatMap_singleton]
  rfl

theorem farPath_ne_tmp : farPath ≠ cstr "/tmp" := by
  intro heq
  have hlength := congrArg length heq
  rw [farPath, length_cons, length_replicate] at hlength
  revert hlength
  decide

theorem canonical_ne_farPath (h : q.length < pathMax) : canonical q ≠ farPath := by
  intro heq
  have hlength := join_walk_length [] [] q
  rw [← canonical, heq, farPath, length_cons, length_replicate] at hlength
  simp only [join, flatMap_nil, length_nil] at hlength
  omega

theorem below_append (root inner : CStr) : below root (root ++ cstr "/" ++ inner) = some inner := by
  have hlength : (root ++ cstr "/").length = root.length + 1 := length_append
  rw [below, if_pos (List.isPrefixOf_iff_prefix.mpr (prefix_append ..)), ← hlength, drop_left]

end Above

section OneFile

variable (far inner : CStr) (hinner : inner.length < 256 ^ 2)

theorem oneByte_length_lt : ([120] : List UInt8).length < 256 := by decide

theorem noComment_length_lt : ([] : List UInt8).length < 256 ^ 2 := by decide

/-- A host with an APK of this one entry, and no directories but `/` and `/tmp`. -/
def oneFiles : HostFs :=
  ⟨canonical, fun p =>
    if p = far then
      some (.file (oneFile inner hinner false [120] oneByte_length_lt [] noComment_length_lt))
    else if p = [] ∨ p = cstr "/tmp" then some (.dir 0) else none⟩

def making : Answers := ⟨⟨.full 0, some 0⟩, ⟨.full 0, some 0⟩, ⟨.full 0, some 0⟩⟩

theorem apkPathInner_one : apkPathInner ⟨some far, none⟩ (far ++ cstr "/" ++ inner) =
    some inner := by
  simp only [apkPathInner, nil_append, reduceCtorEq, if_false, findSome?_cons, below_append]

variable {far inner}

theorem oneFiles_stat (hfar : canonical far = far) : (oneFiles far inner hinner).stat far =
    some (.file (oneFile inner hinner false [120] (by decide) [] (by decide))) := by
  rw [HostFs.stat]
  simp [oneFiles, hfar]

theorem oneFiles_rooted (hnil : far ≠ []) (htmp : far ≠ cstr "/tmp") :
    Rooted (oneFiles far inner hinner) := by
  have hroot : canonical (cstr "/") = [] := by decide +kernel
  have hdir : canonical (cstr "/tmp") = cstr "/tmp" := by decide +kernel
  intro path hpath
  refine ⟨0, ?_⟩
  simp only [mem_cons, not_mem_nil, or_false] at hpath
  rcases hpath with rfl | rfl
  · simp [HostFs.stat, oneFiles, hroot, hnil.symm]
  · simp [HostFs.stat, oneFiles, hdir, htmp.symm]

theorem not_eocdSig_nil : ¬ eocdSig <:+: ([] : List UInt8) := by decide

/-- What is read from the APK: its entry, and nothing under other names. -/
theorem answered_one (hfar : canonical far = far) (name : CStr) (out : Vec) :
    answered (readOpened plainZlib (oneFiles far inner hinner)
      (opened ⟨some far, none⟩ (oneFiles far inner hinner)) name out) =
        if name = inner then some [120] else none := by
  have hserves : Serves plainZlib ⟨some far, none⟩ (oneFiles far inner hinner)
      (oneArchive inner hinner false [120] (by decide) [] (by decide)) :=
    (serves_iff rfl (oneFiles_stat hinner hfar) (oneFile_isArchive ..) not_eocdSig_nil
      (noStraddle_of_nil rfl)).mpr fun _ e he hdeflated => by
        cases mem_singleton.mp he
        cases hdeflated
  have hread : ∀ name out, answered (apkRead plainZlib ⟨some far, none⟩ (oneFiles far inner hinner)
      (opened ⟨some far, none⟩ (oneFiles far inner hinner)) name out).1 =
        answered (readOpened plainZlib (oneFiles far inner hinner)
          (opened ⟨some far, none⟩ (oneFiles far inner hinner)) name out) :=
    fun name out => by rw [apkRead_tried (opened_tried ..)]
  rw [← hread]
  split
  · rename_i hname
    rw [hname]
    exact hserves.read _ (mem_singleton_self _) out
  · rename_i hname
    refine hserves.missing name (fun e he => ?_) out
    cases mem_singleton.mp he
    exact fun heq => hname heq.symm

end OneFile

section Outside

variable {far inner : CStr}

/-- The entry of the APK is extracted to its cache file. -/
theorem extractToCache_one (hp : p ∈ packs) (hname : (p ++ inner).length < 256 ^ 2)
    (hfar : canonical far = far) (hfits : (cachePath (p ++ inner)).length < pathMax)
    (hplace : canonical (cachePath (p ++ inner)) ≠ far) :
    (extractToCache plainZlib ⟨some far, none⟩ making pathMax (far ++ cstr "/" ++ inner)
        (oneFiles far (p ++ inner) hname)
        (opened ⟨some far, none⟩ (oneFiles far (p ++ inner) hname))).2.1 =
      ((oneFiles far (p ++ inner) hname).store making.entry (cachePath (p ++ inner)) [120]).2 := by
  have hopen : apkOpen ⟨some far, none⟩ (oneFiles far (p ++ inner) hname) .initial = _ :=
    apkOpen_eq rfl (oneFiles_stat hname hfar) (oneFile_isArchive ..) not_eocdSig_nil
      (noStraddle_of_nil rfl)
  have hdir : (opened ⟨some far, none⟩ (oneFiles far (p ++ inner) hname)).apkDir = [] := by
    rw [opened, hopen]
    rfl
  have hfirst : firstEntry plainZlib (oneFiles far (p ++ inner) hname)
      (opened ⟨some far, none⟩ (oneFiles far (p ++ inner) hname)) inner =
        some (p ++ inner, [120]) := by
    have hcases : p = cstr "" ∨ p = cstr "base/" ∨ p = cstr "UnityDataAssetPack/" := by
      simpa [packs] using hp
    simp only [firstEntry, packs, findSome?_cons, entry, answered_one hname hfar,
      append_left_inj]
    rcases hcases with rfl | rfl | rfl <;> rfl
  have hsize : ¬ ((oneFiles far (p ++ inner) hname).stat (cachePath (p ++ inner))).map Node.size =
      some ([120] : List UInt8).length := by
    simp only [HostFs.stat, oneFiles, if_neg hplace]
    split <;> simp [Node.size]
  simp only [extractToCache, apkPathInner_one, if_pos hdir]
  rw [extractIndexed_tried (opened_tried ..) (steadyFrom_of_forall (fun q _ out => by
    rw [entry, answered_one hname hfar, answered_one hname hfar]) _ .fresh), hfirst]
  simp only [if_neg (not_le.mpr hfits), if_neg hsize]

end Outside

/-- **Where extractions write.** An extraction stays below the cache root, whatever archive and
host, if and only if the name comes only to places in the cache and the directories above it. -/
theorem confined_iff (inner : CStr) : Confined inner ↔ Homely inner := by
  constructor
  · intro hconfined p hp hfits
    by_contra hhome
    have hname : (p ++ inner).length < 256 ^ 2 := by
      rw [cachePath, length_append, pathMax] at hfits
      omega
    obtain ⟨u, names, c, hu, hwalk, hc, hin, hout⟩ :=
      exists_leaving (P := Home) (.inl prefix_rfl) not_mem_nil hhome
    obtain ⟨hnames, hpush⟩ := leaves_home hin hout
    rw [hpush] at hwalk hout
    obtain ⟨hunder, hnil, htmp⟩ := outside_home hnames hc hout
    have hplace : (oneFiles farPath (p ++ inner) hname).resolve (cachePath u) =
        join names ++ 47 :: c := by
      change canonical (cachePath u) = _
      rw [canonical, walk_cachePath, hwalk, join_append, join, join, flatMap_singleton]
    have hway : cachePath u ∈ ways (p ++ inner) := by
      rcases hu with rfl | ⟨v, hv⟩
      · exact mem_cons_self
      · exact mem_cons_of_mem _ (mem_cons_of_mem _ (mem_parents_iff.mpr ⟨u, v, hv, rfl⟩))
    have hlength : (cachePath u).length < pathMax := by
      have hle : u.length ≤ (p ++ inner).length := by
        rcases hu with rfl | ⟨v, hv⟩
        · exact le_rfl
        · rw [hv, length_append]
          exact Nat.le_add_right ..
      rw [cachePath, length_append] at hfits ⊢
      omega
    have hrooted : Rooted (oneFiles farPath (p ++ inner) hname) :=
      oneFiles_rooted hname (cons_ne_nil _ _) farPath_ne_tmp
    obtain ⟨above, habove⟩ : ∃ above, (oneFiles farPath (p ++ inner) hname).node
        (HostFs.parentPath ((oneFiles farPath (p ++ inner) hname).resolve (cachePath u))) =
          some (.dir above) := by
      have hroot : canonical (cstr "/") = join [] := by decide +kernel
      have hdir : canonical (cstr "/tmp") = join [cstr "tmp"] := by decide +kernel
      rw [hplace, parentPath_append _ hc]
      rcases hnames with rfl | rfl
      · exact hroot ▸ hrooted (cstr "/") mem_cons_self
      · exact hdir ▸ hrooted (cstr "/tmp") (mem_cons_of_mem _ mem_cons_self)
    have hnone : (oneFiles farPath (p ++ inner) hname).node (join names ++ 47 :: c) = none := by
      have hne : join names ++ 47 :: c ≠ farPath := hplace ▸ canonical_ne_farPath hlength
      simp [oneFiles, hne, hnil, htmp]
    have hsome := isSome_store (d := making.entry) rfl rfl [120] hway habove
    have hchanges := hconfined plainZlib ⟨some farPath, none⟩ _ making
      (farPath ++ cstr "/" ++ inner) (opened ⟨some farPath, none⟩ _) rfl hrooted
      (apkPathInner_one farPath inner) (.inr rfl)
    rw [extractToCache_one hp hname canonical_farPath hfits
      (canonical_ne_farPath hfits)] at hchanges
    rw [hplace, hchanges.node _ hunder, hnone] at hsome
    cases hsome
  · intro h z env fs a path b hresolve hrooted hpath _
    exact extractToCache_changesIn hpath (writes_under hresolve hrooted h)

/-- A tree in `/d`, and a file that a name with `..` finds above it. -/
def upFiles : HostFs :=
  ⟨canonical, fun p => if p = [] ∨ p = cstr "/tmp" then some (.dir 0)
    else (treeFiles [(cstr "/x", [1])]).node p⟩

/-- An asset whose name goes above its start is written beside the cache. -/
theorem not_confined_up : ¬ Confined (cstr "assets/../../x") := by
  intro hconfined
  have hrooted : Rooted upFiles := by
    intro path hpath
    refine ⟨0, ?_⟩
    simp only [mem_cons, not_mem_nil, or_false] at hpath
    rcases hpath with rfl | rfl <;> rfl
  have hchanges := hconfined plainZlib treeEnv upFiles making (cstr "/d/assets/../../x") .initial
    rfl hrooted (by decide +kernel) (.inl rfl)
  have hnode := congrArg Option.isSome (hchanges.node (cstr "/tmp/x")
    (by rw [Under]; decide +kernel))
  revert hnode
  decide +kernel

end Lunaria.Apk
