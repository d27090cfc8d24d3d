/-
# The index of the APK

What `apk_open` and `apk_read` make of a well-formed zip archive. The directory walk and the local
headers are read as the format has them. Two things go wrong: the backward search for the end
record takes a signature that begins inside the record and ends in its comment, and a deflated
entry of no bytes is inflated into a null pointer.
-/

import Lunaria.Apk.Bridge

namespace Lunaria.Apk

open Lib Buffer Zip List
open Elf (CStr cstr)

variable {file : List UInt8} {a : Archive}

/-! ## The end record -/

theorem scanDown_eq_some {found : Nat → Bool} {m n : Nat} (hm : m ≤ n) (hfound : found m)
    (hlast : ∀ i, m < i → i ≤ n → found i = false) : scanDown found n = some m := by
  induction n with
  | zero =>
    cases Nat.le_zero.mp hm
    exact if_pos hfound
  | succ n ih =>
    rw [scanDown]
    rcases lt_or_eq_of_le hm with hlt | rfl
    · rw [hlast _ hlt (le_rfl)]
      exact ih (Nat.le_of_lt_succ hlt) fun i hi hin => hlast i hi (Nat.le_succ_of_le hin)
    · exact if_pos hfound

/-- No signature begins inside the end record, behind its own, and ends in the comment or before
it. -/
def NoStraddle (a : Archive) : Prop :=
  ∀ o, 0 < o → o < 22 → o ≤ a.comment.length → fread a.endRecord o 4 ≠ eocdSig

/-- The record without its comment. -/
def endFixed (a : Archive) : List UInt8 := (a.endFields.take 6).flatten

theorem endFixed_length (a : Archive) : (endFixed a).length = 22 := by
  rw [endFixed, length_flatten, map_take, a.endFields_lengths]
  rfl

theorem endRecord_eq (a : Archive) : a.endRecord = endFixed a ++ a.comment := by
  simp [endFixed, Archive.endRecord, Archive.endFields]

theorem fread_append_right (pre bytes : List UInt8) (o n : Nat) :
    fread (pre ++ bytes) (pre.length + o) n = fread bytes o n := by
  rw [fread, fread, ← drop_drop, drop_left]

theorem not_eocdSig (hcomment : ¬ eocdSig <:+: a.comment) (hstraddle : NoStraddle a) {o : Nat}
    (hpos : 0 < o) (hle : o ≤ a.comment.length) : fread a.endRecord o 4 ≠ eocdSig := by
  by_cases hfixed : o < 22
  · exact hstraddle o hpos hfixed hle
  obtain ⟨o', rfl⟩ := Nat.exists_eq_add_of_le (not_lt.mp hfixed)
  intro hsig
  apply hcomment
  rw [endRecord_eq, ← endFixed_length a, fread_append_right] at hsig
  rw [← hsig]
  exact (List.take_prefix 4 _).isInfix.trans (drop_suffix o' _).isInfix

theorem apkTail_eq (h : a.endRecord <:+ file) : ∃ pre, apkTail file = pre ++ a.endRecord := by
  obtain ⟨front, rfl⟩ := h
  have hlength := a.endRecord_length
  have hcomment := a.comment_lt
  refine ⟨front.drop ((front ++ a.endRecord).length - min (front ++ a.endRecord).length 65557), ?_⟩
  rw [apkTail, drop_append_of_le_length]
  rw [length_append]
  omega

theorem findEocd_eq {pre : List UInt8} (hcomment : ¬ eocdSig <:+: a.comment)
    (hstraddle : NoStraddle a) : findEocd (pre ++ a.endRecord) = some pre.length := by
  have hlength := a.endRecord_length
  have hsig : Stands a.endRecord 0 eocdSig := Stands.field (i := 0) rfl rfl
  rw [findEocd, if_neg (by rw [length_append]; omega)]
  apply scanDown_eq_some
  · rw [length_append]
    omega
  · have htake : fread a.endRecord 0 4 = eocdSig := hsig.take
    have hhere := fread_append_right pre a.endRecord 0 4
    exact decide_eq_true hhere
  · intro i hlo hhi
    obtain ⟨o, rfl⟩ := Nat.exists_eq_add_of_le (le_of_lt hlo)
    rw [length_append] at hhi
    rw [fread_append_right]
    exact decide_eq_false (not_eocdSig hcomment hstraddle (by omega) (by omega))

variable (pre : List UInt8)

theorem endRecord_count (a : Archive) :
    (view (pre ++ a.endRecord)).readLE (pre.length + 10) 2 = a.entries.length := by
  have hfield : Stands a.endRecord 10 (leBytes 2 a.entries.length) :=
    .field (i := 2) rfl (by rw [a.endFields_lengths]; rfl)
  exact (hfield.within (.append_right pre a.endRecord)).readLE a.entries_lt

theorem endRecord_directory (a : Archive) :
    (view (pre ++ a.endRecord)).readLE (pre.length + 16) 4 = a.directoryOffset := by
  have hfield : Stands a.endRecord 16 (leBytes 4 a.directoryOffset) :=
    .field (i := 4) rfl (by rw [a.endFields_lengths]; rfl)
  exact (hfield.within (.append_right pre a.endRecord)).readLE a.directoryOffset_lt

/-! ## The directory -/

def indexEntry (e : Entry) : ZipEntry := ⟨e.offset, e.comp.length, e.data.length, e.method⟩

/-- The fields of a central header. -/
structure CentralFields (h : List UInt8) (e : Entry) : Prop where
  length : h.length = 46
  sig : fread h 0 4 = centralSig
  method : (view h).readLE 10 2 = e.method
  comp : (view h).readLE 20 4 = e.comp.length
  uncomp : (view h).readLE 24 4 = e.data.length
  name : (view h).readLE 28 2 = e.name.length
  extra : (view h).readLE 30 2 = e.extra.length
  comment : (view h).readLE 32 2 = e.comment.length
  offset : (view h).readLE 42 4 = e.offset

theorem centralFields (e : Entry) : CentralFields e.centralHeader e := by
  have hfield : ∀ {i off field}, e.centralFields[i]? = some field →
      (([4, 6, 2, 8, 4, 4, 2, 2, 2, 8, 4] : List Nat).take i).sum = off →
        Stands e.centralHeader off field :=
    fun h hoff => .field h (e.centralFields_lengths ▸ hoff)
  have hmethod : e.method < 256 ^ 2 := by
    rw [Entry.method]
    split <;> decide
  have hsig : Stands e.centralHeader 0 centralSig := hfield (i := 0) rfl rfl
  exact {
    length := e.centralHeader_length
    sig := hsig.take
    method := (hfield (i := 2) rfl rfl).readLE hmethod
    comp := (hfield (i := 4) rfl rfl).readLE e.comp_lt
    uncomp := (hfield (i := 5) rfl rfl).readLE e.data_lt
    name := (hfield (i := 6) rfl rfl).readLE e.name_lt
    extra := (hfield (i := 7) rfl rfl).readLE e.extra_lt
    comment := (hfield (i := 8) rfl rfl).readLE e.comment_lt
    offset := (hfield (i := 10) rfl rfl).readLE e.offset_lt }

theorem readCentral_succ {e : Entry} {count pos : Nat} {dir : List (CStr × ZipEntry)}
    (h : Stands file pos e.centralRecord) : readCentral file (count + 1) pos dir =
      readCentral file count (pos + e.centralRecord.length)
        (emplace dir e.name (indexEntry e)) := by
  have hheader : fread file pos 46 = e.centralHeader := by
    have htake := h.left.left.take
    rwa [e.centralHeader_length] at htake
  have hname : fread file (pos + 46) e.name.length = e.name := by
    have htake := h.left.right.take
    rwa [e.centralHeader_length] at htake
  have hnext : pos + e.centralRecord.length =
      pos + 46 + e.name.length + (e.extra.length + e.comment.length) := by
    rw [e.centralRecord_length]
    omega
  have hfields := centralFields e
  rw [readCentral, hnext]
  simp only [hheader, hfields.length, hfields.name, hname, hfields.extra,
    hfields.comment, hfields.offset, hfields.comp, hfields.uncomp, hfields.method, ne_eq]
  rfl

theorem readCentral_eq {entries : List Entry} {pos : Nat} {dir : List (CStr × ZipEntry)}
    (h : Stands file pos (entries.flatMap (·.centralRecord)))
    (hnodup : (entries.map (·.name)).Nodup) (hnew : ∀ e ∈ entries, dir.lookup e.name = none) :
    readCentral file entries.length pos dir =
      dir ++ entries.map fun e => (e.name, indexEntry e) := by
  induction entries generalizing pos dir with
  | nil => simp [readCentral]
  | cons e entries ih =>
    rw [map_cons, nodup_cons] at hnodup
    have hfirst : emplace dir e.name (indexEntry e) = dir ++ [(e.name, indexEntry e)] := by
      rw [emplace, hnew e mem_cons_self]
      rfl
    have hrest : ∀ e' ∈ entries, (dir ++ [(e.name, indexEntry e)]).lookup e'.name = none := by
      intro e' he'
      have hne : (e'.name == e.name) = false := by
        rw [beq_eq_false_iff_ne]
        intro heq
        exact hnodup.1 (heq ▸ mem_map_of_mem he')
      rw [lookup_append, hnew e' (mem_cons_of_mem _ he')]
      simp [lookup_cons, hne]
    rw [length_cons, readCentral_succ h.left, hfirst, ih h.right hnodup.2 hrest]
    simp

/-! ## Entries -/

/-- Reading an entry whose local record stands where the index says. -/
theorem zipRead_eq {e : Entry} (z : Zlib) (h : Stands file e.offset e.localRecord)
    (hcontent : if e.deflated then z.deflates e.data e.comp else e.comp = e.data) (out : Vec) :
    answered (zipRead z file (indexEntry e) out) =
      if e.deflated ∧ z.emptyIsNull ∧ out.allocated = false ∧ e.data = [] then none
      else some e.data := by
  have hheader : fread file e.offset 30 = e.localHeader := by
    have htake := h.left.left.take
    rwa [e.localHeader_length] at htake
  have hcomp : fread file (e.offset + 30 + e.localName.length + e.localExtra.length)
      e.comp.length = e.comp := by
    have htake := h.right.take
    rwa [length_append, e.localHeader_length, length_append, ← add_assoc, ← add_assoc] at htake
  have hsig : Stands e.localHeader 0 localSig := .field (i := 0) rfl rfl
  have hname : Stands e.localHeader 26 (leBytes 2 e.localName.length) :=
    .field (i := 2) rfl (by rw [e.localHeaderFields_lengths]; rfl)
  have hextra : Stands e.localHeader 28 (leBytes 2 e.localExtra.length) :=
    .field (i := 3) rfl (by rw [e.localHeaderFields_lengths]; rfl)
  have hsig : fread e.localHeader 0 4 = localSig := hsig.take
  simp only [zipRead, indexEntry, hheader, e.localHeader_length, hsig,
    hname.readLE e.localName_lt, hextra.readLE e.localExtra_lt, hcomp, ne_eq, not_true, if_false]
  cases hdeflated : e.deflated with
  | false =>
    simp only [hdeflated, Bool.false_eq_true, if_false] at hcontent
    simp [Entry.method, hdeflated, hcontent, answered, Vec.ofBytes]
  | true =>
    simp only [hdeflated] at hcontent
    simp only [Entry.method, hdeflated, if_true]
    have hstorage : (out.resize e.data.length).allocated = false ↔
        out.allocated = false ∧ e.data = [] := by
      simp [Vec.resize]
    by_cases hnull : z.emptyIsNull ∧ out.allocated = false ∧ e.data = []
    · simp [answered, hnull, z.nullOut, Vec.resize]
    have hroom : (z.emptyIsNull && !(out.resize e.data.length).allocated) = false := by
      rw [Bool.and_eq_false_iff, Bool.not_eq_false', ← Bool.not_eq_false, hstorage]
      rwa [not_and_or, Bool.not_eq_true] at hnull
    have hinflate : z.inflate (z.emptyIsNull && !(out.resize e.data.length).allocated)
        e.data.length e.comp = (true, e.data) := by
      rw [hroom, z.inverts _ _ hcontent]
    rw [if_neg (by decide), if_neg fun h => hnull h.2, answered]
    simp [hinflate, Vec.overwrite_resize]

/-! ## The archive -/

/-- The index holds exactly the entries of the archive, and reading gives their original bytes and
nothing for other names. -/
structure Serves (z : Zlib) (env : ApkEnv) (fs : HostFs) (a : Archive) : Prop where
  opened : (apkOpen env fs .initial).1 = true
  index : ∀ name ze, (apkOpen env fs .initial).2.dir.lookup name = some ze ↔
    ∃ e ∈ a.entries, e.name = name ∧ indexEntry e = ze
  read : ∀ e ∈ a.entries, ∀ out,
    answered (apkRead z env fs (apkOpen env fs .initial).2 e.name out).1 = some e.data
  missing : ∀ name, (∀ e ∈ a.entries, e.name ≠ name) → ∀ out,
    answered (apkRead z env fs (apkOpen env fs .initial).2 name out).1 = none

section Archive

variable {z : Zlib} {env : ApkEnv} {fs : HostFs} {path : CStr}

/-- The bridge behind `apk_open`. -/
def indexed (fs : HostFs) (path : CStr) (a : Archive) : Bridge :=
  ⟨true, some (fs.resolve path), [], a.entries.map fun e => (e.name, indexEntry e)⟩

theorem openArchive_eq (hfile : fs.stat path = some (.file file)) (ha : IsArchive z.deflates file a)
    (hcomment : ¬ eocdSig <:+: a.comment) (hstraddle : NoStraddle a) (dir : CStr) :
    openArchive fs path ⟨true, none, dir, []⟩ =
      (true, { indexed fs path a with apkDir := dir }) := by
  obtain ⟨pre, htail⟩ := apkTail_eq ha.ending
  have hdir : readCentral file a.entries.length a.directoryOffset [] =
      [] ++ a.entries.map fun e => (e.name, indexEntry e) :=
    readCentral_eq ha.directory a.names_nodup fun _ _ => rfl
  simp only [openArchive, hfile, htail, findEocd_eq hcomment hstraddle, endRecord_count,
    endRecord_directory]
  rw [hdir]
  rfl

theorem apkOpen_eq (hpath : env.codePath = some path) (hfile : fs.stat path = some (.file file))
    (ha : IsArchive z.deflates file a) (hcomment : ¬ eocdSig <:+: a.comment)
    (hstraddle : NoStraddle a) : apkOpen env fs .initial = (true, indexed fs path a) := by
  simp only [apkOpen, Bridge.initial, hpath, hfile]
  exact openArchive_eq hfile ha hcomment hstraddle []

theorem lookup_index {entries : List Entry} (hnodup : (entries.map (·.name)).Nodup) {name : CStr}
    {ze : ZipEntry} : (entries.map fun e => (e.name, indexEntry e)).lookup name = some ze ↔
      ∃ e ∈ entries, e.name = name ∧ indexEntry e = ze := by
  induction entries with
  | nil => simp
  | cons e entries ih =>
    rw [map_cons, nodup_cons] at hnodup
    simp only [map_cons, lookup_cons]
    by_cases hname : e.name = name
    · have hrest : ¬ ∃ e' ∈ entries, e'.name = name ∧ indexEntry e' = ze := by
        rintro ⟨e', he', heq, -⟩
        exact hnodup.1 (mem_map.mpr ⟨e', he', heq.trans hname.symm⟩)
      simp [hname, hrest]
    · have hbeq : (name == e.name) = false := by
        rw [beq_eq_false_iff_ne]
        exact fun h => hname h.symm
      rw [hbeq, ih hnodup.2]
      simp [hname]

theorem apkRead_indexed (hfile : fs.stat path = some (.file file)) (name : CStr) (out : Vec) :
    (apkRead z env fs (indexed fs path a) name out).1 =
      match (indexed fs path a).dir.lookup name with
      | some e => zipRead z file e out
      | none => (false, out) := by
  have hbytes : (indexed fs path a).fp.bind fs.bytes? = some file := HostFs.regular?_of_file hfile
  change readOpened z fs (indexed fs path a) name out = _
  rw [readOpened, hbytes]
  cases (indexed fs path a).dir.lookup name <;> rfl

theorem apkRead_entry (hfile : fs.stat path = some (.file file))
    (ha : IsArchive z.deflates file a) {e : Entry} (he : e ∈ a.entries) (out : Vec) :
    answered (apkRead z env fs (indexed fs path a) e.name out).1 =
      if e.deflated ∧ z.emptyIsNull ∧ out.allocated = false ∧ e.data = [] then none
      else some e.data := by
  have hlookup : (indexed fs path a).dir.lookup e.name = some (indexEntry e) :=
    (lookup_index a.names_nodup).mpr ⟨e, he, rfl, rfl⟩
  rw [apkRead_indexed hfile, hlookup]
  exact zipRead_eq z (ha.records e he) (ha.contents e he) out

/-- **The index and what is read.** For every well-formed archive without the 64-bit extension and
without a stray end signature, the index holds exactly the entries, and reading gives their bytes,
if and only if no deflated entry is empty where `data()` without storage is null. -/
theorem serves_iff (hpath : env.codePath = some path) (hfile : fs.stat path = some (.file file))
    (ha : IsArchive z.deflates file a) (hcomment : ¬ eocdSig <:+: a.comment)
    (hstraddle : NoStraddle a) :
    Serves z env fs a ↔
      (z.emptyIsNull = true → ∀ e ∈ a.entries, e.deflated = true → e.data ≠ []) := by
  have hopen := apkOpen_eq hpath hfile ha hcomment hstraddle
  have hindex : ∀ name ze, (indexed fs path a).dir.lookup name = some ze ↔
      ∃ e ∈ a.entries, e.name = name ∧ indexEntry e = ze := fun _ _ => lookup_index a.names_nodup
  constructor
  · intro h hnull e he hdeflated hempty
    have hdata := h.read e he .fresh
    rw [hopen, apkRead_entry hfile ha he, if_pos ⟨hdeflated, hnull, rfl, hempty⟩] at hdata
    cases hdata
  intro h
  refine ⟨by rw [hopen], by rw [hopen]; exact hindex, ?_, ?_⟩
  · intro e he out
    rw [hopen, apkRead_entry hfile ha he, if_neg]
    rintro ⟨hdeflated, hnull, -, hempty⟩
    exact h hnull e he hdeflated hempty
  intro name hname out
  rw [hopen, apkRead_indexed hfile]
  cases hlookup : (indexed fs path a).dir.lookup name with
  | none => rfl
  | some ze =>
    obtain ⟨e, he, heq, -⟩ := (hindex name ze).mp hlookup
    exact absurd heq (hname e he)

end Archive

/-! ## Small archives -/

/-- A deflate stream of one stored block: its header, the length and its complement, the bytes. -/
def storedBlock (data : List UInt8) : List UInt8 :=
  [1, .ofNat data.length, 0, 255 - .ofNat data.length, 255] ++ data

/-- A zlib of stored blocks of less than 256 bytes, with null pointers for empty vectors. -/
def plainZlib : Zlib where
  inflate null _ comp := if null then (false, []) else (true, comp.drop 5)
  deflates data comp := comp = storedBlock data
  inverts data comp h := by rw [h]; rfl
  nullOut _ _ := rfl
  emptyIsNull := true

/-- The environment and the files of a process with this APK. -/
def apkEnv : ApkEnv := ⟨some (cstr "/app.apk"), none⟩

def apkFiles (file : List UInt8) : HostFs :=
  ⟨id, fun path => if path = cstr "/app.apk" then some (.file file) else none⟩

section Small

variable (name : CStr) (hname : name.length < 256 ^ 2) (deflated : Bool) (data : List UInt8)
  (hdata : data.length < 256)

/-- What an archive keeps of the bytes of an entry. -/
def packed : List UInt8 := if deflated then storedBlock data else data

theorem packed_length_lt {data : List UInt8} (hdata : data.length < 256) :
    (packed deflated data).length < 261 := by
  cases deflated
  · exact Nat.lt_trans hdata (by decide)
  · simp only [packed, storedBlock, if_true, length_append, length_cons, length_nil]
    omega

def oneEntry : Entry where
  name := name
  data := data
  comp := packed deflated data
  deflated := deflated
  offset := 0
  extra := []
  comment := []
  localName := name
  localExtra := []
  versions := [20, 0, 20, 0, 0, 0]
  stamps := List.replicate 8 0
  attributes := List.replicate 8 0
  localFields := List.replicate 22 0
  name_lt := hname
  data_lt := by omega
  comp_lt := (packed_length_lt deflated hdata).trans (by decide)
  offset_lt := by decide
  extra_lt := by decide
  comment_lt := by decide
  localName_lt := hname
  localExtra_lt := by decide
  versions_length := rfl
  stamps_length := rfl
  attributes_length := rfl
  localFields_length := rfl

variable (comment : List UInt8) (hcomment : comment.length < 256 ^ 2)

def oneArchive : Archive where
  entries := [oneEntry name hname deflated data hdata]
  directoryOffset := 30 + name.length + (packed deflated data).length
  directorySize := 46 + name.length
  disks := [0, 0, 0, 0, 1, 0]
  comment := comment
  entries_lt := by simp
  names_nodup := List.pairwise_singleton _ _
  directoryOffset_lt := by
    have h := packed_length_lt deflated hdata
    omega
  disks_length := rfl
  comment_lt := hcomment

def oneFile : List UInt8 :=
  (oneEntry name hname deflated data hdata).localRecord ++
    (oneArchive name hname deflated data hdata comment hcomment).directory ++
    (oneArchive name hname deflated data hdata comment hcomment).endRecord

theorem oneFile_isArchive : IsArchive plainZlib.deflates
    (oneFile name hname deflated data hdata comment hcomment)
    (oneArchive name hname deflated data hdata comment hcomment) where
  directory := by
    have hlocal : (oneEntry name hname deflated data hdata).localRecord.length =
        30 + name.length + (packed deflated data).length := by
      rw [Entry.localRecord, length_append, length_append, Entry.localHeader_length]
      simp [oneEntry]
    have h := Stands.append_right (oneEntry name hname deflated data hdata).localRecord
      ((oneArchive name hname deflated data hdata comment hcomment).directory ++
        (oneArchive name hname deflated data hdata comment hcomment).endRecord)
    rw [hlocal, ← append_assoc] at h
    exact h.left
  records e he := by
    cases mem_singleton.mp he
    rw [oneFile, append_assoc]
    exact prefix_append ..
  contents e he := by
    cases mem_singleton.mp he
    cases deflated <;> rfl
  ending := suffix_append ..

def smallEntry : Entry := oneEntry [97] (by decide) deflated data hdata

def smallArchive : Archive := oneArchive [97] (by decide) deflated data hdata comment hcomment

def smallFile : List UInt8 := oneFile [97] (by decide) deflated data hdata comment hcomment

theorem smallFile_isArchive : IsArchive plainZlib.deflates
    (smallFile deflated data hdata comment hcomment)
    (smallArchive deflated data hdata comment hcomment) := oneFile_isArchive ..

theorem stat_apkFiles (file : List UInt8) :
    (apkFiles file).stat (cstr "/app.apk") = some (.file file) := by
  simp [HostFs.stat, apkFiles]

theorem noStraddle_of_nil (h : a.comment = []) : NoStraddle a := by
  intro o hpos _ hle
  rw [h] at hle
  exact absurd hle (not_le.mpr hpos)

end Small

/-- A comment of 0x4b50 bytes that starts with the second half of the signature. -/
def straddlingComment : List UInt8 :=
  [5, 6, 0, 0, 0, 0, 0, 0] ++ ([0, 0] ++ List.replicate 19270 0)

theorem straddlingComment_length : straddlingComment.length = 19280 := by
  rw [straddlingComment, length_append, length_append, length_replicate]
  rfl

theorem mem_straddlingComment {b : UInt8} (h : b ∈ straddlingComment) : b ≠ 0x50 := by
  rw [straddlingComment, ← append_assoc, mem_append] at h
  have hfront : ([5, 6, 0, 0, 0, 0, 0, 0] ++ [0, 0] : List UInt8).all (· != 0x50) := rfl
  rcases h with h | h
  · exact bne_iff_ne.mp (all_eq_true.mp hfront b h)
  · rw [eq_of_mem_replicate h]
    decide

def straddledArchive : Archive :=
  smallArchive false [120] (by decide) straddlingComment
    (by rw [straddlingComment_length]; decide)

def straddledFile : List UInt8 :=
  smallFile false [120] (by decide) straddlingComment (by rw [straddlingComment_length]; decide)

theorem getElem?_of_sig {b : List UInt8} {o : Nat} (h : fread b o 4 = eocdSig) :
    b[o]? = some 0x50 := by
  have hhead : (fread b o 4)[0]? = some 0x50 := by
    rw [h]
    rfl
  rwa [fread, getElem?_take_of_lt (by decide), getElem?_drop] at hhead

theorem endFixed_straddled : endFixed straddledArchive =
    [0x50, 0x4b, 5, 6, 0, 0, 0, 0, 1, 0, 1, 0, 47, 0, 0, 0, 32, 0, 0, 0, 0x50, 0x4b] := by
  have hlength : straddledArchive.comment.length = 19280 := straddlingComment_length
  rw [endFixed, Archive.endFields, hlength]
  rfl

/-- The search takes the signature that straddles the record and its comment. -/
theorem findEocd_straddled :
    findEocd (pre ++ straddledArchive.endRecord) = some (pre.length + 20) := by
  have hlength := straddledArchive.endRecord_length
  have hcomment : straddledArchive.comment.length = 19280 := straddlingComment_length
  rw [findEocd, if_neg (by rw [length_append]; omega)]
  apply scanDown_eq_some
  · rw [length_append]
    omega
  · rw [fread_append_right, endRecord_eq, endFixed_straddled]
    rfl
  intro i hlo hhi
  obtain ⟨o, rfl⟩ := Nat.exists_eq_add_of_lt hlo
  apply decide_eq_false
  rw [add_assoc, add_assoc, fread_append_right, endRecord_eq]
  intro hsig
  have hbyte := getElem?_of_sig hsig
  -- Behind it there is one byte of the record, and then the comment.
  cases o with
  | zero =>
    rw [endFixed_straddled] at hbyte
    cases hbyte
  | succ o =>
    have hoff : 20 + (o + 1 + 1) = 22 + o := by omega
    rw [hoff, ← endFixed_length straddledArchive,
      getElem?_append_right (Nat.le_add_right ..)] at hbyte
    exact mem_straddlingComment (mem_of_getElem? hbyte) rfl

theorem count_straddled :
    (view (pre ++ straddledArchive.endRecord)).readLE (pre.length + 20 + 10) 2 = 0 := by
  have hzeros : Stands straddledArchive.comment 8 (leBytes 2 0) :=
    (Stands.append_right [5, 6, 0, 0, 0, 0, 0, 0] ([0, 0] ++ replicate 19270 0)).left
  have hrecord : Stands straddledArchive.endRecord 30 (leBytes 2 0) := by
    have h := hzeros.within (Stands.append_right (endFixed straddledArchive) _)
    rwa [← endRecord_eq] at h
  exact (hrecord.within (.append_right pre _)).readLE (by decide)

theorem dir_straddled (h : straddledArchive.endRecord <:+ file) :
    (apkOpen apkEnv (apkFiles file) .initial).2.dir = [] := by
  obtain ⟨pre, htail⟩ := apkTail_eq h
  have harchive : openArchive (apkFiles file) (cstr "/app.apk")
      { Bridge.initial with tried := true } =
        (true, { Bridge.initial with
          tried := true
          fp := some ((apkFiles file).resolve (cstr "/app.apk")) }) := by
    simp [openArchive, stat_apkFiles, htail, findEocd_straddled, count_straddled, readCentral]
  have hopen : apkOpen apkEnv (apkFiles file) .initial =
      openArchive (apkFiles file) (cstr "/app.apk") { Bridge.initial with tried := true } := by
    simp [apkOpen, Bridge.initial, apkEnv, stat_apkFiles]
  rw [hopen, harchive]
  rfl

/-- A comment that is taken for an end record, and a deflated entry of no bytes. -/
theorem not_serves_straddled : (IsArchive plainZlib.deflates straddledFile straddledArchive ∧
      ¬ eocdSig <:+: straddledArchive.comment ∧
        ¬ Serves plainZlib apkEnv (apkFiles straddledFile) straddledArchive) ∧
    IsArchive plainZlib.deflates (smallFile true [] (by decide) [] (by decide))
        (smallArchive true [] (by decide) [] (by decide)) ∧
      ¬ Serves plainZlib apkEnv (apkFiles (smallFile true [] (by decide) [] (by decide)))
        (smallArchive true [] (by decide) [] (by decide)) := by
  have hstraddled : IsArchive plainZlib.deflates straddledFile straddledArchive :=
    smallFile_isArchive ..
  have hempty : IsArchive plainZlib.deflates (smallFile true [] (by decide) [] (by decide))
      (smallArchive true [] (by decide) [] (by decide)) := smallFile_isArchive ..
  refine ⟨⟨hstraddled, ?_, ?_⟩, hempty, ?_⟩
  · intro hwithin
    exact mem_straddlingComment (hwithin.subset mem_cons_self) rfl
  · intro hserves
    have hentry := (hserves.index [97] (indexEntry (smallEntry false [120] (by decide)))).mpr
      ⟨_, mem_singleton_self _, rfl, rfl⟩
    rw [dir_straddled hstraddled.ending] at hentry
    cases hentry
  · intro hserves
    have hpath : apkEnv.codePath = some (cstr "/app.apk") := rfl
    have hopen := apkOpen_eq hpath (stat_apkFiles _) hempty (by decide) (noStraddle_of_nil rfl)
    have hread := hserves.read _ (mem_singleton_self _) .fresh
    rw [hopen] at hread
    cases hread

/-- A small archive that is served. -/
theorem serves_small :
    Serves plainZlib apkEnv (apkFiles (smallFile false [120] (by decide) [] (by decide)))
      (smallArchive false [120] (by decide) [] (by decide)) := by
  refine (serves_iff rfl (stat_apkFiles _) (smallFile_isArchive ..) (by decide)
    (noStraddle_of_nil rfl)).mpr ?_
  intro _ e he _
  cases mem_singleton.mp he
  exact cons_ne_nil _ _

end Lunaria.Apk
