/-
# Assets

The two ways to an asset of the APK. `AssetManager.open` reads it into a stream; a file opened under
a path of the APK is looked for by `apk_extract_to_cache`, which names a file of the host: one of
the extracted tree, or a copy below `/tmp/lunaria-apk-cache`. Large assets are stored as parts
`name.split0`, `name.split1`, …, and both put them together.
-/

import Lunaria.Apk.Bridge

namespace Lunaria.Apk

open Elf (CStr cstr)

/-! ## Names -/

/-- `cache_prefixes`. -/
def packs : List CStr := [cstr "", cstr "base/", cstr "UnityDataAssetPack/"]

/-- `prefixes` of `AssetManager.open`. -/
def assetPrefixes : List CStr :=
  [cstr "assets/", cstr "base/assets/", cstr "UnityDataAssetPack/assets/"]

/-- The rest of a string from its last `c` on. -/
def strrchr (c : UInt8) : CStr → Option CStr
  | [] => none
  | b :: s =>
    match strrchr c s with
    | some t => some t
    | none => if b = c then some (b :: s) else none

/-- The rest of a string from the first `needle` on. -/
def strstr (needle : CStr) : CStr → Option CStr
  | [] => if needle = [] then some [] else none
  | b :: s => if needle.isPrefixOf (b :: s) then some (b :: s) else strstr needle s

/-- The name of a part already: its last dot begins `.split` and a digit. -/
def isSplitName (name : CStr) : Bool :=
  match strrchr 46 name with
  | none => false
  | some dot =>
    (cstr ".split").isPrefixOf dot &&
      match dot.drop 6 with
      | [] => false
      | b :: _ => 48 ≤ b && b ≤ 57

/-- `name.splitN`. -/
def splitPart (name : CStr) (n : Nat) : CStr := name ++ cstr ".split" ++ cstr (toString n)

/-- The path behind a root. -/
def below (root path : CStr) : Option CStr :=
  if (root ++ cstr "/").isPrefixOf path then some (path.drop (root.length + 1)) else none

def apkPathInner (env : ApkEnv) (path : CStr) : Option CStr :=
  let mount := match env.apkFile with
    | some m => if m = [] then [] else [m]
    | none => []
  let code := match env.codePath with
    | some ext => if env.apkFile = some ext then [] else [ext]
    | none => []
  match (mount ++ code).findSome? fun root => below root path with
  | some inner => some inner
  | none =>
    match strstr (cstr ".apk/") path with
    | some sfx => some (sfx.drop 5)
    | none =>
      if (cstr "assets/").isPrefixOf path then some path
      else if (cstr "/assets/").isPrefixOf path then some (path.drop 1)
      else none

/-! ## `AssetManager.open` -/

/-- An open `InputStream`. -/
structure Stream where
  data : List UInt8
  pos : Nat
  deriving DecidableEq

/-- `read` into an array with room for `len` bytes. -/
def Stream.read (s : Stream) (len : Nat) : List UInt8 × Stream :=
  let bytes := (s.data.drop s.pos).take len
  (bytes, { s with pos := s.pos + bytes.length })

section Reading

variable (z : Zlib) (env : ApkEnv) (fs : HostFs)

/-- The loop of `apk_read_or_splits`, for `k` parts from the `n`-th on. -/
def readSplits (name : CStr) : Nat → Nat → Vec → Bridge → Vec × Bridge
  | 0, _, out, b => (out, b)
  | k + 1, n, out, b =>
    match apkRead z env fs b (splitPart name n) .fresh with
    | ((true, chunk), b) => readSplits name k (n + 1) (out.append chunk.bytes) b
    | ((false, _), b) => (out, b)

def apkReadOrSplits (b : Bridge) (name : CStr) (out : Vec) : (Bool × Vec) × Bridge :=
  match apkRead z env fs b name out with
  | ((true, out), b) => ((true, out), b)
  | ((false, out), b) =>
    if isSplitName name then ((false, out), b)
    else
      let r := readSplits z env fs name 512 0 out.clear b
      ((r.1.bytes ≠ [], r.1), r.2)

/-- The loop over the prefixes. -/
def openFirst (rel : CStr) : List CStr → Vec → Bridge → Option Stream × Bridge
  | [], _, b => (none, b)
  | p :: ps, data, b =>
    match apkReadOrSplits z env fs b (p ++ rel) data with
    | ((true, data), b) => (some ⟨data.bytes, 0⟩, b)
    | ((false, data), b) => openFirst rel ps data b

def assetManagerOpen (b : Bridge) (rel : CStr) : Option Stream × Bridge :=
  openFirst z env fs rel assetPrefixes .fresh b

end Reading

/-! ## The cache -/

def cacheRoot : CStr := cstr "/tmp/lunaria-apk-cache"

def cachePath (name : CStr) : CStr := cacheRoot ++ cstr "/" ++ name

/-- The host's part in writing: `fopen` fails, as it does without the directory, an `fwrite` comes
up short, or `fclose` loses so many bytes behind their success. -/
inductive Writing
  | refused
  | short
  | full (lost : Nat)
  deriving DecidableEq

/-- The host's answers to one attempt. -/
structure Disk where
  writing : Writing
  /-- The size of new directories, unless `mkdir` fails. -/
  newDir : Option Nat

/-- What `stat` reports as the size. -/
def Node.size : Node → Nat
  | .file bytes => bytes.length
  | .dir size => size

namespace HostFs

variable (fs : HostFs)

def set (path : CStr) (node : Option Node) : HostFs :=
  { fs with node := fun p => if p = fs.resolve path then node else fs.node p }

/-- The resolved path of the directory that a resolved path stands in. -/
def parentPath (p : CStr) : CStr := ((p.reverse.dropWhile (· ≠ 47)).drop 1).reverse

/-- `mkdir` makes a directory in another one, where there is nothing yet. -/
def mkdir (size : Nat) (path : CStr) : HostFs :=
  match fs.stat path, fs.node (parentPath (fs.resolve path)) with
  | none, some (.dir _) => fs.set path (some (.dir size))
  | _, _ => fs

/-- The directories on the way to a path of the cache. -/
def parents (out : CStr) : List CStr :=
  ((List.range out.length).filter fun i => cacheRoot.length < i && out[i]? == some 47).map out.take

/-- `mkdir -p`. -/
def mkdirs (d : Disk) (out : CStr) : HostFs :=
  match d.newDir with
  | none => fs
  | some size => (cacheRoot :: parents out).foldl (mkdir · size) fs

/-- `fopen` for writing. -/
def fopenWb (d : Disk) (out : CStr) : Option HostFs :=
  match d.writing, fs.stat out with
  | .refused, _ => none
  | _, some (.dir _) => none
  | _, _ => some (fs.set out (some (.file [])))

/-- All `fwrite`s, `fclose`, and `unlink` if one came up short; with nothing to write none does. -/
def fwriteAll (d : Disk) (out : CStr) (bytes : List UInt8) : Bool × HostFs :=
  match d.writing with
  | .full lost => (true, fs.set out (some (.file (bytes.take (bytes.length - lost)))))
  | _ => if bytes = [] then (true, fs) else (false, fs.set out none)

end HostFs

section Extraction

variable (z : Zlib) (env : ApkEnv)

/-- A part: of the extracted tree if there is one, or else of the index. -/
def partBytes (fs : HostFs) (b : Bridge) (name : CStr) : Option (List UInt8) × Bridge :=
  if b.apkDir = [] then
    let r := apkRead z env fs b name .fresh
    (answered r.1, r.2)
  else (fs.regular? (b.apkDir ++ cstr "/" ++ name), b)

/-- The names and sizes of the parts. -/
def collectParts (fs : HostFs) (name : CStr) : Nat → Nat → Bridge → List (CStr × Nat) × Bridge
  | 0, _, b => ([], b)
  | k + 1, n, b =>
    match partBytes z env fs b (splitPart name n) with
    | (none, b) => ([], b)
    | (some bytes, b) =>
      let r := collectParts fs name k (n + 1) b
      ((splitPart name n, bytes.length) :: r.1, r.2)

/-- The bytes of the parts, read again one after the other. -/
def copyParts (fs : HostFs) : List CStr → Bridge → Option (List UInt8) × Bridge
  | [], b => (some [], b)
  | name :: names, b =>
    match partBytes z env fs b name with
    | (none, b) => (none, b)
    | (some bytes, b) =>
      let r := copyParts fs names b
      (r.1.map (bytes ++ ·), r.2)

/-- One turn of `apk_concat_splits_to_cache`, unless it goes on to the next prefix. -/
def concatPack (d : Disk) (outsz : Nat) (name : CStr) (fs : HostFs) (b : Bridge) :
    Option (Option CStr) × HostFs × Bridge :=
  match partBytes z env fs b (splitPart name 0) with
  | (none, b) => (none, fs, b)
  | (some _, b) =>
    let out := cachePath name
    if outsz ≤ out.length then (some none, fs, b)
    else
      let (parts, b) := collectParts z env fs name 512 0 b
      if parts = [] then (none, fs, b)
      else if (fs.regular? out).map List.length = some (parts.map (·.2)).sum then
        (some (some out), fs, b)
      else
        let fs := fs.mkdirs d out
        match fs.fopenWb d out with
        | none => (some none, fs, b)
        | some fs =>
          match copyParts z env fs (parts.map (·.1)) b with
          | (none, b) => (some none, fs.set out none, b)
          | (some bytes, b) =>
            let (ok, fs) := fs.fwriteAll d out bytes
            (some (if ok then some out else none), fs, b)

def concatPacks (d : Disk) (outsz : Nat) (inner : CStr) :
    List CStr → HostFs → Bridge → Option CStr × HostFs × Bridge
  | [], fs, b => (none, fs, b)
  | p :: ps, fs, b =>
    match concatPack z env d outsz (p ++ inner) fs b with
    | (some result, fs, b) => (result, fs, b)
    | (none, fs, b) => concatPacks d outsz inner ps fs b

def concatSplitsToCache (d : Disk) (outsz : Nat) (inner : CStr) (fs : HostFs) (b : Bridge) :
    Option CStr × HostFs × Bridge :=
  if isSplitName inner then (none, fs, b) else concatPacks z env d outsz inner packs fs b

/-- The loop over the prefixes: the name that was found, and the vector. -/
def readWhole (fs : HostFs) (inner : CStr) : List CStr → Vec → Bridge → Option (CStr × Vec) × Bridge
  | [], _, b => (none, b)
  | p :: ps, data, b =>
    match apkRead z env fs b (p ++ inner) data with
    | ((true, data), b) => (some (p ++ inner, data), b)
    | ((false, data), b) => readWhole fs inner ps data b

/-- The host's answers for the parts of the tree, for the entry, and for the parts when there is
none. -/
structure Answers where
  tree : Disk
  entry : Disk
  parts : Disk

/-- `apk_extract_to_cache` behind the extracted tree. -/
def extractIndexed (a : Answers) (outsz : Nat) (inner : CStr) (fs : HostFs) (b : Bridge) :
    Option CStr × HostFs × Bridge :=
  match readWhole z env fs inner packs .fresh b with
  | (none, b) => concatSplitsToCache z env a.parts outsz inner fs b
  | (some (name, data), b) =>
    let out := cachePath name
    if outsz ≤ out.length then (none, fs, b)
    -- Whatever has the right size is taken for the entry, a directory too.
    else if (fs.stat out).map Node.size = some data.bytes.length then (some out, fs, b)
    else
      let fs := fs.mkdirs a.entry out
      match fs.fopenWb a.entry out with
      | none => (none, fs, b)
      | some fs =>
        let (ok, fs) := fs.fwriteAll a.entry out data.bytes
        (if ok then some out else none, fs, b)

/-- A file of the extracted tree whose path has room in the caller's buffer. -/
def onDisk (fs : HostFs) (b : Bridge) (outsz : Nat) (name : CStr) : Option CStr :=
  let fp := b.apkDir ++ cstr "/" ++ name
  if (fs.regular? fp).isSome ∧ fp.length < outsz then some fp else none

def extractToCache (a : Answers) (outsz : Nat) (path : CStr) (fs : HostFs) (b : Bridge) :
    Option CStr × HostFs × Bridge :=
  match apkPathInner env path with
  | none => (none, fs, b)
  | some inner =>
    if b.apkDir = [] then extractIndexed z env a outsz inner fs b
    else
      match packs.findSome? fun p => onDisk fs b outsz (p ++ inner) with
      | some fp => (some fp, fs, b)
      | none =>
        match concatSplitsToCache z env a.tree outsz inner fs b with
        | (some out, fs, b) => (some out, fs, b)
        | (none, fs, b) => extractIndexed z env a outsz inner fs b

/-- The bytes of the file that the caller then opens. -/
def fopenFallback (a : Answers) (outsz : Nat) (path : CStr) (fs : HostFs) (b : Bridge) :
    Option (List UInt8) :=
  let (out, fs, _) := extractToCache z env a outsz path fs b
  out.bind fs.regular?

end Extraction

end Lunaria.Apk
