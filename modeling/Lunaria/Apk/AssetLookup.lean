/-
# What the lookups find

Behind the first call the bridge stays as it is, and the loops over prefixes and parts are searches
over what `apk_read` has under a name.
-/

import Lunaria.Apk.Assets
import Lunaria.Lib.FirstHit

namespace Lunaria.Apk

open Lib FirstHit List
open Elf (CStr cstr)

variable {z : Zlib} {env : ApkEnv} {fs : HostFs} {b : Bridge}

/-! ## Reading -/

theorem apkRead_tried (h : b.tried) (name : CStr) (out : Vec) :
    apkRead z env fs b name out = (readOpened z fs b name out, b) := by
  have hopen : apkOpen env fs b = (b.fp.isSome || b.apkDir ≠ [], b) := by rw [apkOpen, if_pos h]
  rw [apkRead, hopen]
  by_cases hsource : b.fp.isSome ∨ b.apkDir ≠ []
  · have htrue : (b.fp.isSome || decide (b.apkDir ≠ [])) := by simpa using hsource
    rw [htrue]
  obtain ⟨hfp, hdir⟩ := not_or.mp hsource
  rw [Option.not_isSome_iff_eq_none] at hfp
  rw [not_not] at hdir
  simp only [readOpened, hfp, hdir]
  cases b.dir.lookup name <;> rfl

/-- The bytes `apk_read` has under a name. -/
def entry (z : Zlib) (fs : HostFs) (b : Bridge) (name : CStr) : Option (List UInt8) :=
  answered (readOpened z fs b name .fresh)

/-- What is read does not depend on the vector it is read into. -/
def Steady (z : Zlib) (fs : HostFs) (b : Bridge) (name : CStr) : Prop :=
  ∀ out, answered (readOpened z fs b name out) = entry z fs b name

/-- The parts that are there, from the `n`-th on and `k` at most. -/
def chunks (get : CStr → Option (List UInt8)) (name : CStr) : Nat → Nat → List (List UInt8)
  | 0, _ => []
  | k + 1, n =>
    match get (splitPart name n) with
    | none => []
    | some c => c :: chunks get name k (n + 1)

variable (get : CStr → Option (List UInt8))

/-- The parts put together, if there is a first one. -/
def joined (name : CStr) : Option (List UInt8) :=
  if (chunks get name 512 0).isEmpty then none else some (chunks get name 512 0).flatten

/-- The parts of a name that is not one of a part. -/
def pieces (name : CStr) : Option (List UInt8) :=
  if isSplitName name then none else joined get name

def nonempty (bytes : List UInt8) : Bool := !bytes.isEmpty

theorem readSplits_tried (h : b.tried) (name : CStr) (k n : Nat) (out : Vec) :
    readSplits z env fs name k n out b =
      (out.append (chunks (entry z fs b) name k n).flatten, b) := by
  induction k generalizing n out with
  | zero => rw [readSplits, chunks, flatten_nil, Vec.append_nil]
  | succ k ih =>
    rw [readSplits, apkRead_tried h, chunks, entry]
    rcases readOpened z fs b (splitPart name n) .fresh with ⟨ok, chunk⟩
    cases ok with
    | false => exact congrArg (·, b) (Vec.append_nil out).symm
    | true => exact (ih ..).trans (congrArg (·, b) (Vec.append_append ..))

theorem filter_joined (name : CStr) : (joined get name).filter nonempty =
      if (chunks get name 512 0).flatten = [] then none
      else some (chunks get name 512 0).flatten := by
  rw [joined]
  cases hchunks : chunks get name 512 0 with
  | nil => rfl
  | cons c cs => cases (c :: cs).flatten <;> rfl

/-- What a failed `apk_read_or_splits` leaves of the vector that `apk_read` has left. -/
def cleared (name : CStr) (v : Vec) : Vec := if isSplitName name then v else v.clear

/-- `apk_read_or_splits` finds the entry, or else its parts. -/
theorem apkReadOrSplits_tried (env : ApkEnv) (h : b.tried) {name : CStr} {out : Vec}
    (hread : answered (readOpened z fs b name out) = entry z fs b name) :
    answered (apkReadOrSplits z env fs b name out).1 =
        (entry z fs b name).or ((pieces (entry z fs b) name).filter nonempty) ∧
      ((apkReadOrSplits z env fs b name out).1.1 = false →
        (apkReadOrSplits z env fs b name out).1.2 = cleared name (readOpened z fs b name out).2) ∧
      (apkReadOrSplits z env fs b name out).2 = b := by
  rw [apkReadOrSplits, apkRead_tried h, ← hread]
  rcases readOpened z fs b name out with ⟨ok, data⟩
  cases ok with
  | true => exact ⟨rfl, nofun, rfl⟩
  | false =>
    simp only [answered, Bool.false_eq_true, if_false, Option.none_or, pieces, cleared]
    by_cases hsplit : isSplitName name
    · rw [if_pos hsplit, if_pos hsplit, if_pos hsplit]
      exact ⟨rfl, fun _ => rfl, rfl⟩
    have hclear : ∀ bytes, (data.clear.append bytes).bytes = bytes := fun _ => rfl
    rw [if_neg hsplit, if_neg hsplit, if_neg hsplit, filter_joined, readSplits_tried h]
    refine ⟨?_, fun hempty => ?_, rfl⟩
    · simp only [hclear, decide_eq_true_eq, ite_not]
    · rw [hclear, decide_eq_false_iff_not, not_not] at hempty
      rw [hempty, Vec.append_nil]

/-- The entries that are asked for, up to the first that is there, are read as into a fresh vector,
although each gets what is left of the vector of the one before. -/
def SteadyFrom (z : Zlib) (fs : HostFs) (b : Bridge) (inner : CStr) (left : CStr → Vec → Vec) :
    List CStr → Vec → Prop
  | [], _ => True
  | p :: ps, data =>
    answered (readOpened z fs b (p ++ inner) data) = entry z fs b (p ++ inner) ∧
      (entry z fs b (p ++ inner) = none →
        SteadyFrom z fs b inner left ps (left (p ++ inner) (readOpened z fs b (p ++ inner) data).2))

theorem steadyFrom_of_forall {inner : CStr} {ps : List CStr}
    (h : ∀ p ∈ ps, Steady z fs b (p ++ inner)) (left : CStr → Vec → Vec) (data : Vec) :
    SteadyFrom z fs b inner left ps data := by
  induction ps generalizing data with
  | nil => trivial
  | cons p ps ih =>
    exact ⟨h p mem_cons_self data, fun _ => ih (fun q hq => h q (mem_cons_of_mem p hq)) _⟩

theorem openFirst_tried (h : b.tried) {rel : CStr} {ps : List CStr} {data : Vec}
    (hsteady : SteadyFrom z fs b rel cleared ps data) :
    (openFirst z env fs rel ps data b).1 = (byPlace (fun p => entry z fs b (p ++ rel))
        (fun p => (pieces (entry z fs b) (p ++ rel)).filter nonempty) ps).map (⟨·, 0⟩) := by
  induction ps generalizing data with
  | nil => rfl
  | cons p ps ih =>
    obtain ⟨hfound, hleft, hbridge⟩ := apkReadOrSplits_tried env h hsteady.1
    rw [openFirst, byPlace, findSome?_cons, ← hfound]
    generalize apkReadOrSplits z env fs b (p ++ rel) data = r at hfound hleft hbridge
    obtain ⟨⟨ok, read⟩, b'⟩ := r
    cases hbridge
    cases ok with
    | true => rfl
    | false =>
      have hread : read = _ := hleft rfl
      rw [hread]
      exact ih (hsteady.2 (Option.or_eq_none_iff.mp hfound.symm).1)

theorem readWhole_tried (env : ApkEnv) (h : b.tried) {inner : CStr} {ps : List CStr} {data : Vec}
    (hsteady : SteadyFrom z fs b inner (fun _ v => v) ps data) :
    (readWhole z env fs inner ps data b).1.map (fun r => (r.1, r.2.bytes)) =
        ps.findSome? (fun p => (entry z fs b (p ++ inner)).map (p ++ inner, ·)) ∧
      (readWhole z env fs inner ps data b).2 = b := by
  induction ps generalizing data with
  | nil => exact ⟨rfl, rfl⟩
  | cons p ps ih =>
    obtain ⟨hentry, hlater⟩ := hsteady
    rw [readWhole, apkRead_tried h, findSome?_cons, ← hentry]
    generalize readOpened z fs b (p ++ inner) data = r at hentry hlater
    obtain ⟨ok, read⟩ := r
    cases ok with
    | true => exact ⟨rfl, rfl⟩
    | false => exact ih (hlater hentry.symm)

/-! ## The prefixes -/

theorem strrchr_append {c : UInt8} {p : CStr} (hp : strrchr c p = none) (s : CStr) :
    strrchr c (p ++ s) = strrchr c s := by
  induction p with
  | nil => rfl
  | cons x p ih =>
    rw [strrchr] at hp
    cases htail : strrchr c p with
    | some t =>
      rw [htail] at hp
      cases hp
    | none =>
      rw [htail] at hp
      have hne : x ≠ c := fun heq => by simp [heq] at hp
      rw [cons_append, strrchr, ih htail]
      cases strrchr c s with
      | some t => rfl
      | none => exact if_neg hne

/-- No prefix has a dot. -/
theorem isSplitName_pack {p : CStr} (hp : p ∈ packs) (inner : CStr) :
    isSplitName (p ++ inner) = isSplitName inner := by
  have hdots : ∀ p ∈ packs, strrchr 46 p = none := by decide +kernel
  rw [isSplitName, strrchr_append (hdots p hp)]
  rfl

theorem pieces_pack {p inner : CStr} (hp : p ∈ packs)
    (hname : isSplitName inner = false) : pieces get (p ++ inner) = joined get (p ++ inner) := by
  rw [pieces, isSplitName_pack hp, hname]
  rfl

/-- The prefixes of the streams are those of the cache, with the directory of the assets. -/
theorem assetPrefixes_eq : assetPrefixes = packs.map (· ++ cstr "assets/") := by decide +kernel

/-- **What `AssetManager.open` finds.** -/
theorem assetManagerOpen_tried (h : b.tried) {rel : CStr}
    (hsteady : SteadyFrom z fs b (cstr "assets/" ++ rel) cleared packs .fresh) :
    (assetManagerOpen z env fs b rel).1 =
      (byPlace (fun p => entry z fs b (p ++ (cstr "assets/" ++ rel)))
        (fun p => (pieces (entry z fs b) (p ++ (cstr "assets/" ++ rel))).filter nonempty)
          packs).map (⟨·, 0⟩) := by
  rw [assetManagerOpen, openFirst_tried h, assetPrefixes_eq, byPlace, byPlace, findSome?_map]
  · simp [Function.comp_def]
  · simpa [SteadyFrom, packs, assetPrefixes_eq] using hsteady

end Lunaria.Apk
