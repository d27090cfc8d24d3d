/-
# The asset bridge

`asset_bridge` serves the player's assets from the APK: from the zip file itself, or from a
directory the APK was extracted to, with the zip file as a second source for what was left out.
The host's files are a map from resolved paths; what they hold is read whole, and zlib is a
parameter with what its documentation promises.
-/

import Lunaria.Elf.Format
import Lunaria.Lib.Zip

namespace Lunaria.Apk

open Lib Buffer Zip List
open Elf (CStr cstr)

/-! ## The host -/

inductive Node
  | file (bytes : List UInt8)
  /-- A directory, with what `stat` reports as its size. -/
  | dir (size : Nat)

/-- The bytes of a regular file. -/
def Node.bytes? : Node → Option (List UInt8)
  | .file bytes => some bytes
  | .dir _ => none

/-- The files of the host. -/
structure HostFs where
  /-- The path behind links and dots. -/
  resolve : CStr → CStr
  node : CStr → Option Node

namespace HostFs

def stat (fs : HostFs) (path : CStr) : Option Node := fs.node (fs.resolve path)

/-- The bytes of the regular file at a resolved path. -/
def bytes? (fs : HostFs) (resolved : CStr) : Option (List UInt8) :=
  (fs.node resolved).bind Node.bytes?

/-- `stat` says that there is a regular file; its bytes. -/
def regular? (fs : HostFs) (path : CStr) : Option (List UInt8) := fs.bytes? (fs.resolve path)

theorem regular?_of_file {fs : HostFs} {path : CStr} {bytes : List UInt8}
    (h : fs.stat path = some (.file bytes)) : fs.regular? path = some bytes := by
  rw [stat] at h
  rw [regular?, bytes?, h]
  rfl

end HostFs

/-- `ANDROID_PACKAGE_CODE_PATH` and `ANDROID_APK_FILE`. -/
structure ApkEnv where
  codePath : Option CStr
  apkFile : Option CStr

/-- zlib, and what `data()` of a vector without storage is. -/
structure Zlib where
  /-- `inflate` with `Z_FINISH`, for a null or another `next_out` and so much room: whether it
  answers `Z_STREAM_END`, and its bytes. -/
  inflate : Bool → Nat → List UInt8 → Bool × List UInt8
  deflates : List UInt8 → List UInt8 → Prop
  inverts : ∀ data comp, deflates data comp → inflate false data.length comp = (true, data)
  /-- A null `next_out` is an inconsistent stream. -/
  nullOut : ∀ room comp, inflate true room comp = (false, [])
  /-- `data()` of a vector without storage is a null pointer. -/
  emptyIsNull : Bool

/-- A `std::vector<uint8_t>`: its bytes, and whether it has storage. -/
structure Vec where
  bytes : List UInt8
  allocated : Bool

namespace Vec

def fresh : Vec := ⟨[], false⟩

variable (v : Vec) (bytes : List UInt8)

def ofBytes : Vec := ⟨bytes, bytes ≠ []⟩

/-- `clear` keeps the storage. -/
def clear : Vec := { v with bytes := [] }

def resize (n : Nat) : Vec :=
  ⟨v.bytes.take n ++ List.replicate (n - v.bytes.length) 0, v.allocated || 0 < n⟩

/-- `insert` at the end. -/
def append : Vec := ⟨v.bytes ++ bytes, v.allocated || bytes ≠ []⟩

/-- A write to the front of the elements. -/
def overwrite : Vec :=
  { v with bytes := bytes ++ v.bytes.drop bytes.length }

theorem resize_length (n : Nat) : (v.resize n).bytes.length = n := by
  simp only [resize, length_append, length_take, length_replicate]
  omega

theorem append_nil : v.append [] = v := by simp [append]

theorem append_append (c c' : List UInt8) : (v.append c).append c' = v.append (c ++ c') := by
  simp [append, Bool.or_assoc, ← Bool.not_and]

theorem overwrite_resize : ((v.resize bytes.length).overwrite bytes).bytes = bytes := by
  rw [overwrite, drop_of_length_le (le_of_eq (resize_length ..)), List.append_nil]

end Vec

/-- What a caller has of an answer and a vector. -/
def answered (r : Bool × Vec) : Option (List UInt8) := if r.1 then some r.2.bytes else none

/-! ## The index -/

structure ZipEntry where
  lho : Nat
  comp : Nat
  uncomp : Nat
  method : Nat
  deriving DecidableEq

/-- `g_tried`, `g_fp`, `g_apk_dir` and `g_dir`. -/
structure Bridge where
  tried : Bool
  /-- The resolved path of the open file. -/
  fp : Option CStr
  apkDir : CStr
  dir : List (CStr × ZipEntry)

def Bridge.initial : Bridge := ⟨false, none, [], []⟩

/-- `fread` of `n` bytes at a position; at the end of the file there are fewer. -/
def fread (file : List UInt8) (pos n : Nat) : List UInt8 := (file.drop pos).take n

/-- Search from `n` downwards. -/
def scanDown (found : Nat → Bool) : Nat → Option Nat
  | 0 => if found 0 then some 0 else none
  | n + 1 => if found (n + 1) then some (n + 1) else scanDown found n

/-- The last bytes of the file, where the end record is searched. -/
def apkTail (file : List UInt8) : List UInt8 := file.drop (file.length - min file.length 65557)

/-- The end record: the last signature with room for the record behind it. -/
def findEocd (b : List UInt8) : Option Nat :=
  if b.length < 22 then none else scanDown (fun i => fread b i 4 = eocdSig) (b.length - 22)

/-- `emplace`: the first entry of a name stays. -/
def emplace (dir : List (CStr × ZipEntry)) (name : CStr) (ze : ZipEntry) : List (CStr × ZipEntry) :=
  if (dir.lookup name).isSome then dir else dir ++ [(name, ze)]

/-- The loop over the central directory, for so many entries and from a position on. -/
def readCentral (file : List UInt8) : Nat → Nat → List (CStr × ZipEntry) → List (CStr × ZipEntry)
  | 0, _, dir => dir
  | count + 1, pos, dir =>
    let h := fread file pos 46
    if h.length ≠ 46 then dir
    else if fread h 0 4 ≠ centralSig then dir
    else
      let h16 := fun o => (view h).readLE o 2
      let h32 := fun o => (view h).readLE o 4
      let name := fread file (pos + 46) (h16 28)
      if name.length ≠ h16 28 then dir
      else
        readCentral file count (pos + 46 + h16 28 + (h16 30 + h16 32))
          (emplace dir name ⟨h32 42, h32 20, h32 24, h16 10⟩)

/-- The part of `apk_open` from `fopen` on. A directory can be opened, but not read. -/
def openArchive (fs : HostFs) (path : CStr) (b : Bridge) : Bool × Bridge :=
  match fs.stat path with
  | none => (b.apkDir ≠ [], b)
  | some (.dir _) => (false, { b with fp := some (fs.resolve path) })
  | some (.file file) =>
    let tail := apkTail file
    match findEocd tail with
    | none => (false, { b with fp := some (fs.resolve path) })
    | some e =>
      (true, { b with
        fp := some (fs.resolve path)
        dir := readCentral file ((view tail).readLE (e + 10) 2) ((view tail).readLE (e + 16) 4)
          b.dir })

def apkOpen (env : ApkEnv) (fs : HostFs) (b : Bridge) : Bool × Bridge :=
  if b.tried then (b.fp.isSome || b.apkDir ≠ [], b)
  else
    let b := { b with tried := true }
    match env.codePath with
    | none => (false, b)
    | some path =>
      match fs.stat path with
      | some (.dir _) =>
        let b := { b with apkDir := path }
        match env.apkFile with
        | none => (true, b)
        | some [] => (true, b)
        | some apk => openArchive fs apk b
      | _ => openArchive fs path b

/-! ## Reading -/

/-- `apk_read` of an indexed entry. -/
def zipRead (z : Zlib) (file : List UInt8) (e : ZipEntry) (out : Vec) : Bool × Vec :=
  let lh := fread file e.lho 30
  if lh.length ≠ 30 then (false, out)
  else if fread lh 0 4 ≠ localSig then (false, out)
  else
    let nlen := (view lh).readLE 26 2
    let elen := (view lh).readLE 28 2
    let comp := fread file (e.lho + 30 + nlen + elen) e.comp
    if comp.length ≠ e.comp then (false, out)
    else if e.method = 0 then (true, .ofBytes comp)
    else if e.method = 8 then
      let out := out.resize e.uncomp
      let r := z.inflate (z.emptyIsNull && !out.allocated) e.uncomp comp
      (r.1, out.overwrite r.2)
    else (false, out)

/-- `apk_read` behind `apk_open`. -/
def readOpened (z : Zlib) (fs : HostFs) (b : Bridge) (name : CStr) (out : Vec) : Bool × Vec :=
  let indexed :=
    match b.dir.lookup name, b.fp.bind fs.bytes? with
    | some e, some file => zipRead z file e out
    | _, _ => (false, out)
  if b.apkDir = [] then indexed
  else
    match fs.regular? (b.apkDir ++ cstr "/" ++ name) with
    | some bytes => (true, (out.resize bytes.length).overwrite bytes)
    | none => indexed

def apkRead (z : Zlib) (env : ApkEnv) (fs : HostFs) (b : Bridge) (name : CStr) (out : Vec) :
    (Bool × Vec) × Bridge :=
  match apkOpen env fs b with
  | (true, b) => (readOpened z fs b name out, b)
  | (false, b) => ((false, out), b)

end Lunaria.Apk
