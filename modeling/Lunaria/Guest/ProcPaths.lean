/-
# The host's own `/proc`

The guest's calls with a path are answered with files of the host. What begins with `/proc/` gets a
synthetic file or an error, so that the guest never sees the process that runs it. The calls compare
the path as it is spelled, each at its own place among the other changes it makes to it, and the
host then reads the spelling in its own way. A call keeps out of `/proc` if the path begins so where
the call compares it, or else leads nowhere below it, as it is and as the name of an asset.
-/

import Lunaria.Apk.HostPaths
import Mathlib.Data.List.Infix

namespace Lunaria.Guest

open Lib DotPath Apk List Option
open Elf (CStr cstr)

/-! ## Spellings -/

variable (arm64 : Bool) (made : Substitutes) (path : CStr)

/-- The prefix test of the handlers. -/
def isProc : Bool := (cstr "/proc/").isPrefixOf path || path = cstr "/proc"

/-- Behind the path is `/proc` or a file under it, for a process in this directory. The empty path
names nothing, nor does one without room for its end. -/
def InProc (cwd : List CStr) (path : CStr) : Prop :=
  path ≠ [] ∧ path.length < pathMax ∧ (place cwd path).head? = some (cstr "proc")
  deriving Decidable

/-- `strchr(s, '/')`. -/
def fromSlash (s : CStr) : Option CStr :=
  match s.dropWhile (· ≠ 47) with
  | [] => none
  | sl => some sl

/-- How `open` and `fopen` take `file://` off a path. -/
def stripFileUri : CStr :=
  if (cstr "file://").isPrefixOf path then
    let rest := path.drop 7
    if rest.head? = some 47 then rest else (fromSlash rest).getD rest
  else path

/-- How `access` does, which leaves a path without another slash as it is. -/
def stripAccessUri : CStr :=
  if (cstr "file://").isPrefixOf path then
    let p := path.drop 7
    if p.head? = some 47 then p else (fromSlash p).getD path
  else path

/-! ## Substitutes -/

/-- The static buffers with the names of the synthetic files. -/
inductive Slot
  | maps
  | stat
  | cmdline
  | status
  | statm
  | oomScore
  | oomScoreAdj
  | version
  | meminfo
  deriving DecidableEq

/-- What `mkstemp` puts for the `XXXXXX` of its template. -/
structure Suffix where
  chars : List UInt8
  length : chars.length = 6
  plain : ∀ c ∈ chars, c ≠ 47

def Slot.template : Slot → CStr
  | .maps => cstr "/tmp/lunaria-maps-"
  | .stat => cstr "/tmp/lunaria-stat-"
  | .cmdline => cstr "/tmp/lunaria-proc-cmdline-"
  | .status => cstr "/tmp/lunaria-proc-status-"
  | .statm => cstr "/tmp/lunaria-proc-statm-"
  | .oomScore => cstr "/tmp/lunaria-proc-oom_score-"
  | .oomScoreAdj => cstr "/tmp/lunaria-proc-oom_score_adj-"
  | .version => cstr "/tmp/lunaria-proc-version-"
  | .meminfo => cstr "/tmp/lunaria-meminfo-"

def Slot.file (slot : Slot) (suffix : Suffix) : CStr := slot.template ++ suffix.chars

/-- The files there are, made by this call or before; `mkstemp` may have failed. -/
abbrev Substitutes := Slot → Option Suffix

def procSlot : Option Slot :=
  let slash := strrchr 47 path
  let proc := (cstr "/proc/").isPrefixOf path
  if slash = some (cstr "/maps") ∧ proc then some .maps
  else if slash = some (cstr "/stat") ∧ proc then some .stat
  else if slash = some (cstr "/cmdline") ∧ proc then some .cmdline
  else if slash = some (cstr "/status") ∧ proc then some .status
  else if slash = some (cstr "/statm") ∧ proc then some .statm
  else if slash = some (cstr "/oom_score") ∧ proc then some .oomScore
  else if slash = some (cstr "/oom_score_adj") ∧ proc then some .oomScoreAdj
  else if path = cstr "/proc/version" then some .version
  else if path = cstr "/proc/meminfo" then some .meminfo
  else none

def syntheticProcPath : Option CStr :=
  (procSlot path).bind fun slot => (made slot).map slot.file

/-! ## `map_guest_path` -/

def isSpace (c : UInt8) : Bool := c = 32 || (9 ≤ c && c ≤ 13)

def isDigit (c : UInt8) : Bool := 48 ≤ c && c ≤ 57

/-- `strtol` to the base ten: the number, and the rest behind it if there is one. -/
def strtol (s : CStr) : Option (Int × CStr) :=
  let s := s.dropWhile isSpace
  let negative := s.head? = some 45
  let s := if negative ∨ s.head? = some 43 then s.drop 1 else s
  let digits := s.takeWhile isDigit
  if digits = [] then none
  else
    let n : Int := digits.foldl (fun n c => 10 * n + (c.toNat - 48)) 0
    some (max (-2 ^ 63) (min (2 ^ 63 - 1) (if negative then -n else n)), s.drop digits.length)

def guestNcpu : Int := 4

/-- The files of one processor under `/sys`. -/
def mapCpuPath : CStr :=
  match strtol (path.drop 27) with
  | none => path
  | some (cpu, rest) =>
    if rest = [] ∨ rest.head? = some 47 then
      if cpu < 0 ∨ guestNcpu ≤ cpu then cstr "/tmp/lunaria-no-such-cpu/" ++ cstr (toString cpu)
      else if rest = cstr "/cpu_capacity" then cstr "/tmp/lunaria-syscpu-cap"
      else if rest = cstr "/cpufreq/cpuinfo_max_freq" ∨ rest = cstr "/cpufreq/cpuinfo_min_freq" ∨
          rest = cstr "/cpufreq/scaling_cur_freq" then
        cstr "/tmp/lunaria-syscpu-freq"
      else path
    else path

/-- `map_guest_path`, into a buffer of `PATH_MAX` bytes. -/
def mapGuestPath : CStr :=
  if (cstr "/data/local/tmp").isPrefixOf path ∧ (path[15]? = none ∨ path[15]? = some 47) then
    (cstr "/tmp/lunaria-data-local-tmp" ++ path.drop 15).take (pathMax - 1)
  else if path = cstr "/proc/cpuinfo" then
    if arm64 then cstr "/tmp/lunaria-proc-cpuinfo64" else cstr "/tmp/lunaria-proc-cpuinfo"
  else if path = cstr "/sys/devices/system/cpu/present" ∨
      path = cstr "/sys/devices/system/cpu/possible" ∨
      path = cstr "/sys/devices/system/cpu/online" then
    cstr "/tmp/lunaria-syscpu-topo"
  else if (cstr "/sys/devices/system/cpu/cpu").isPrefixOf path then mapCpuPath path
  else path

/-! ## The calls -/

/-- The path that `guest_open_path` opens, unless it blocks it. -/
def guestOpenPath : Option CStr :=
  let path := stripFileUri path
  let path := (syntheticProcPath made path).getD path
  let path := mapGuestPath arm64 path
  if isProc path then none else some path

/-- `SVC_LIBC_OPEN`, which asks for a substitute twice. -/
def libcOpen (early late : Substitutes) (path : CStr) : Option CStr :=
  guestOpenPath arm64 late ((syntheticProcPath early path).getD path)

def libcFopen : Option CStr :=
  let path := stripFileUri (mapGuestPath arm64 path)
  let path := (syntheticProcPath made path).getD path
  if isProc path then none else some path

/-- The test of the calls that look for `/proc` first. -/
def gate : Option CStr :=
  match syntheticProcPath made path with
  | some subst => some subst
  | none => if isProc path then none else some path

def libcStat : Option CStr :=
  (gate made path).map (mapGuestPath arm64)

def access : Option CStr :=
  (gate made path).map fun path => stripAccessUri (mapGuestPath arm64 path)

def realpath : Option CStr := gate made path

def readlink : Option CStr := if isProc path then none else some path

inductive PathCall
  | libcOpen
  /-- `open` and `openat` as system calls. -/
  | sysOpen
  | fopen
  | stat
  | access
  | realpath
  | readlink
  deriving DecidableEq

/-- The calls that look for an asset when the host has no file. -/
def PathCall.fallsBack : PathCall → Bool
  | .realpath | .readlink => false
  | _ => true

/-- The host, for one call. -/
structure Host (env : ApkEnv) where
  zlib : Zlib
  files : HostFs
  answers : Answers
  bridge : Bridge
  /-- The files when the bridge was opened. -/
  before : HostFs
  reached : Reached env before bridge
  early : Substitutes
  late : Substitutes
  /-- The host has a file at the path, and at the path of the cache. -/
  found : Bool
  cached : Bool

section Calls

variable {env : ApkEnv}

/-- The path a call hands to the host, if any. -/
def handed (arm64 : Bool) (host : Host env) : PathCall → CStr → Option CStr
  | .libcOpen, path => libcOpen arm64 host.early host.late path
  | .sysOpen, path => guestOpenPath arm64 host.late path
  | .fopen, path => libcFopen arm64 host.late path
  | .stat, path => libcStat arm64 host.late path
  | .access, path => access arm64 host.late path
  | .realpath, path => realpath host.late path
  | .readlink, path => readlink path

/-- The paths behind a path the host does not have: those of `apk_extract_to_cache`, its file, and
for `stat` those of `apk_path_is_dir`. -/
def fallback (host : Host env) (call : PathCall) (path : CStr) : List CStr :=
  extractLooks host.zlib env host.answers pathMax path host.files host.bridge ++
    let (out, fs, b) :=
      extractToCache host.zlib env host.answers pathMax path host.files host.bridge
    out.toList ++
      if call = .stat ∧ ¬ (out.isSome = true ∧ host.cached = true) then
        apkPathIsDirLooks env fs b path
      else []

/-- The paths of the host that the handler of a call opens or inspects. -/
def servedPaths (arm64 : Bool) (host : Host env) (call : PathCall) (path : CStr) : List CStr :=
  match handed arm64 host call path with
  | none => []
  | some q => q :: if call.fallsBack && !host.found then fallback host call q else []

/-- What `dispatch_svc` inspects in front of the handler: the path of an `access` as the guest gave
it, if it speaks of `mscorlib`. -/
def probed (call : PathCall) (path : CStr) : List CStr :=
  if call = .access ∧ cstr "mscorlib" <:+: path then [path] else []

/-- The paths of the host that a call opens or inspects. -/
def hostPaths (arm64 : Bool) (host : Host env) (call : PathCall) (path : CStr) : List CStr :=
  probed call path ++ servedPaths arm64 host call path

end Calls

/-! ## The second byte

The names that the handlers compare a path with differ in their second byte. -/

section Second

variable {u path : CStr} {arm64 : Bool}

theorem not_isPrefixOf (hu : 1 < u.length) (h : path[1]? ≠ u[1]?) : u.isPrefixOf path = false := by
  by_contra hprefix
  obtain ⟨rest, rfl⟩ := isPrefixOf_iff_prefix.mp (Bool.not_eq_false _ ▸ hprefix)
  exact h (getElem?_append_left hu)

theorem second_of_isPrefixOf (hu : 1 < u.length) (h : u.isPrefixOf path) : path[1]? = u[1]? := by
  by_contra hsecond
  rw [not_isPrefixOf hu hsecond] at h
  cases h

theorem isProc_eq_false (h : path[1]? ≠ some 112) : isProc path = false := by
  have hslash : (cstr "/proc/").isPrefixOf path = false := not_isPrefixOf (by decide +kernel) h
  have hname : path ≠ cstr "/proc" := by
    rintro rfl
    exact h (by decide +kernel)
  rw [isProc, hslash, decide_eq_false hname]
  rfl

theorem stripFileUri_eq_self (h : path[1]? ≠ some 105) : stripFileUri path = path := by
  have huri : (cstr "file://").isPrefixOf path = false := not_isPrefixOf (by decide +kernel) h
  rw [stripFileUri, huri, if_neg Bool.false_ne_true]

theorem stripAccessUri_eq_self (h : path[1]? ≠ some 105) : stripAccessUri path = path := by
  have huri : (cstr "file://").isPrefixOf path = false := not_isPrefixOf (by decide +kernel) h
  rw [stripAccessUri, huri, if_neg Bool.false_ne_true]

theorem mapGuestPath_eq_self (hdata : path[1]? ≠ some 100) (hsys : path[1]? ≠ some 115)
    (hcpuinfo : path ≠ cstr "/proc/cpuinfo") : mapGuestPath arm64 path = path := by
  have hlocal : (cstr "/data/local/tmp").isPrefixOf path = false :=
    not_isPrefixOf (by decide +kernel) hdata
  have hcpu : (cstr "/sys/devices/system/cpu/cpu").isPrefixOf path = false :=
    not_isPrefixOf (by decide +kernel) hsys
  have htopology : ¬ (path = cstr "/sys/devices/system/cpu/present" ∨
      path = cstr "/sys/devices/system/cpu/possible" ∨
      path = cstr "/sys/devices/system/cpu/online") := by
    rintro (rfl | rfl | rfl) <;> exact hsys (by decide +kernel)
  rw [mapGuestPath, hlocal, hcpu, if_neg fun h => Bool.false_ne_true h.1, if_neg hcpuinfo,
    if_neg htopology, if_neg Bool.false_ne_true]

/-- A path with a substitute begins with `/proc/`, and is handed on as it is by the rest. -/
theorem of_procSlot {slot : Slot} (h : procSlot path = some slot) :
    isProc path ∧ path[1]? = some 112 ∧ path ≠ cstr "/proc/cpuinfo" := by
  have hcpuinfo : path ≠ cstr "/proc/cpuinfo" := by
    rintro rfl
    have hnone : procSlot (cstr "/proc/cpuinfo") = none := by decide +kernel
    rw [hnone] at h
    cases h
  have hproc : (cstr "/proc/").isPrefixOf path := by
    by_contra hproc
    have hversion : path ≠ cstr "/proc/version" := by
      rintro rfl
      exact hproc (by decide +kernel)
    have hmeminfo : path ≠ cstr "/proc/meminfo" := by
      rintro rfl
      exact hproc (by decide +kernel)
    simp only [procSlot, hproc, hversion, hmeminfo, and_false, if_false, reduceCtorEq] at h
  refine ⟨?_, second_of_isPrefixOf (by decide +kernel) hproc, hcpuinfo⟩
  rw [isProc, hproc]
  rfl

theorem procSlot_eq_none (h : isProc path = false) : procSlot path = none := by
  cases hslot : procSlot path with
  | none => rfl
  | some slot =>
    rw [(of_procSlot hslot).1] at h
    cases h

end Second

/-! ## Substitutes stay as they are -/

section Files

variable (slot : Slot) (suffix : Suffix) (arm64 : Bool)

theorem template_eq : slot.template = cstr "/tmp" ++ 47 :: slot.template.drop 5 ∧
    (∀ c ∈ slot.template.drop 5, c ≠ 47) ∧ 2 < (slot.template.drop 5).length := by
  cases slot <;> decide +kernel

theorem file_second : (slot.file suffix)[1]? = some 116 := by
  have hfile : slot.file suffix = cstr "/tmp" ++ (47 :: slot.template.drop 5 ++ suffix.chars) := by
    rw [Slot.file, (template_eq slot).1]
    rfl
  have htmp : (cstr "/tmp")[1]? = some 116 := by decide +kernel
  rw [hfile, getElem?_append_left (by decide +kernel), htmp]

theorem isProc_file : isProc (slot.file suffix) = false := by
  apply isProc_eq_false
  rw [file_second]
  decide

theorem syntheticProcPath_file (made : Substitutes) :
    syntheticProcPath made (slot.file suffix) = none := by
  rw [syntheticProcPath, procSlot_eq_none (isProc_file slot suffix)]
  rfl

theorem stripFileUri_file : stripFileUri (slot.file suffix) = slot.file suffix := by
  apply stripFileUri_eq_self
  rw [file_second]
  decide

theorem stripAccessUri_file : stripAccessUri (slot.file suffix) = slot.file suffix := by
  apply stripAccessUri_eq_self
  rw [file_second]
  decide

theorem mapGuestPath_file : mapGuestPath arm64 (slot.file suffix) = slot.file suffix := by
  apply mapGuestPath_eq_self
  · rw [file_second]
    decide
  · rw [file_second]
    decide
  · intro h
    have hproc : isProc (cstr "/proc/cpuinfo") := by decide +kernel
    rw [← h, isProc_file] at hproc
    cases hproc

theorem not_inProc_file (cwd : List CStr) : ¬ InProc cwd (slot.file suffix) := by
  obtain ⟨htemplate, hplain, hlong⟩ := template_eq slot
  have hfile : slot.file suffix = cstr "/tmp" ++ 47 :: (slot.template.drop 5 ++ suffix.chars) := by
    rw [Slot.file, htemplate]
    rfl
  have hslash : ∀ x ∈ slot.template.drop 5 ++ suffix.chars, x ≠ 47 := by
    intro x hx
    rcases mem_append.mp hx with hx | hx
    · exact hplain x hx
    · exact suffix.plain x hx
  have hlength : 2 < (slot.template.drop 5 ++ suffix.chars).length := by
    rw [length_append]
    exact lt_of_lt_of_le hlong (Nat.le_add_right ..)
  have hplace : place cwd (slot.file suffix) =
      [cstr "tmp", slot.template.drop 5 ++ suffix.chars] := by
    rw [place, hfile, walk_slash, walk_of_no_slash _ hslash, nil_append, push_of_long _ hlength]
    rfl
  intro hproc
  have hhead := hproc.2.2
  rw [hplace] at hhead
  have hne : cstr "tmp" ≠ cstr "proc" := by decide +kernel
  exact hne (some.inj hhead)

end Files

/-! ## What the host is given -/

/-- The spelling that a call looks for a substitute of. -/
def PathCall.sought : PathCall → CStr → Option CStr
  | .libcOpen, path | .sysOpen, path => some (stripFileUri path)
  | .fopen, path => some (stripFileUri (mapGuestPath arm64 path))
  | .stat, path | .access, path | .realpath, path => some path
  | .readlink, _ => none

/-- The spelling that a call compares with `/proc`. -/
def PathCall.tested : PathCall → CStr → CStr
  | .libcOpen, path | .sysOpen, path => mapGuestPath arm64 (stripFileUri path)
  | .fopen, path => stripFileUri (mapGuestPath arm64 path)
  | .stat, path | .access, path | .realpath, path | .readlink, path => path

/-- The spelling that the host is given of a path that is let through. -/
def PathCall.shown : PathCall → CStr → CStr
  | .libcOpen, path | .sysOpen, path => mapGuestPath arm64 (stripFileUri path)
  | .fopen, path => stripFileUri (mapGuestPath arm64 path)
  | .stat, path => mapGuestPath arm64 path
  | .access, path => stripAccessUri (mapGuestPath arm64 path)
  | .realpath, path | .readlink, path => path

def PathCall.slot (call : PathCall) (path : CStr) : Option Slot :=
  (call.sought arm64 path).bind procSlot

section Handed

variable {made : Substitutes} {path q : CStr} {slot : Slot} {suffix : Suffix} (arm64 : Bool)

theorem syntheticProcPath_eq_some : syntheticProcPath made path = some q ↔
    ∃ slot suffix, procSlot path = some slot ∧ made slot = some suffix ∧ q = slot.file suffix := by
  rw [syntheticProcPath]
  cases procSlot path with
  | none => simp
  | some slot =>
    simp only [bind_some, map_eq_some_iff, some.injEq]
    constructor
    · rintro ⟨suffix, hmade, rfl⟩
      exact ⟨slot, suffix, rfl, hmade, rfl⟩
    · rintro ⟨_, suffix, rfl, hmade, rfl⟩
      exact ⟨suffix, hmade, rfl⟩

theorem guestOpenPath_file (slot : Slot) (suffix : Suffix) :
    guestOpenPath arm64 made (slot.file suffix) = some (slot.file suffix) := by
  simp [guestOpenPath, stripFileUri_file, syntheticProcPath_file, mapGuestPath_file, isProc_file]

theorem isProc_map_of_procSlot (h : procSlot path = some slot) :
    isProc (mapGuestPath arm64 path) := by
  obtain ⟨hproc, hsecond, hcpuinfo⟩ := of_procSlot h
  rw [mapGuestPath_eq_self _ _ hcpuinfo]
  · exact hproc
  · rw [hsecond]
    decide
  · rw [hsecond]
    decide

theorem strip_of_procSlot (h : procSlot path = some slot) : stripFileUri path = path := by
  apply stripFileUri_eq_self
  rw [(of_procSlot h).2.1]
  decide

/-- A call hands on a substitute, nothing, or the path as it shows it. -/
inductive Handing (arm64 : Bool) (call : PathCall) (path : CStr) : Option CStr → Prop
  | substitute (slot : Slot) (suffix : Suffix) : call.slot arm64 path = some slot →
      Handing arm64 call path (some (slot.file suffix))
  | blocked : isProc (call.tested arm64 path) = true → Handing arm64 call path none
  | shown : isProc (call.tested arm64 path) = false →
      Handing arm64 call path (some (call.shown arm64 path))

theorem Handing.test (call : PathCall) (path : CStr) : Handing arm64 call path
    (if isProc (call.tested arm64 path) then none else some (call.shown arm64 path)) := by
  cases hproc : isProc (call.tested arm64 path) with
  | true => exact .blocked hproc
  | false => exact .shown hproc

theorem guestOpenPath_handing (path : CStr) :
    Handing arm64 .sysOpen path (guestOpenPath arm64 made path) := by
  rw [guestOpenPath]
  cases hsubst : syntheticProcPath made (stripFileUri path) with
  | some q =>
    obtain ⟨slot, suffix, hslot, -, rfl⟩ := syntheticProcPath_eq_some.mp hsubst
    simp only [getD_some, mapGuestPath_file, isProc_file]
    exact .substitute slot suffix hslot
  | none => exact .test arm64 .sysOpen path

theorem libcOpen_handing (early late : Substitutes) (path : CStr) :
    Handing arm64 .libcOpen path (libcOpen arm64 early late path) := by
  cases hsubst : syntheticProcPath early path with
  | some q =>
    obtain ⟨slot, suffix, hslot, -, rfl⟩ := syntheticProcPath_eq_some.mp hsubst
    rw [libcOpen, hsubst, getD_some, guestOpenPath_file]
    refine .substitute slot suffix ?_
    rw [PathCall.slot, PathCall.sought, strip_of_procSlot hslot]
    exact hslot
  | none =>
    rw [libcOpen, hsubst, getD_none]
    have hopen : Handing arm64 .sysOpen path (guestOpenPath arm64 late path) :=
      guestOpenPath_handing arm64 path
    generalize guestOpenPath arm64 late path = r at hopen
    cases hopen with
    | substitute slot suffix hslot => exact .substitute slot suffix hslot
    | blocked hproc => exact .blocked hproc
    | shown hproc => exact .shown hproc

theorem libcFopen_handing (path : CStr) :
    Handing arm64 .fopen path (libcFopen arm64 made path) := by
  rw [libcFopen]
  cases hsubst : syntheticProcPath made (stripFileUri (mapGuestPath arm64 path)) with
  | some q =>
    obtain ⟨slot, suffix, hslot, -, rfl⟩ := syntheticProcPath_eq_some.mp hsubst
    simp only [getD_some, isProc_file]
    exact .substitute slot suffix hslot
  | none => exact .test arm64 .fopen path

variable {call : PathCall}

theorem gate_handing {change : CStr → CStr}
    (hsought : call.sought arm64 path = some path) (htested : call.tested arm64 path = path)
    (hshown : call.shown arm64 path = change path)
    (hchange : ∀ (slot : Slot) (suffix : Suffix), change (slot.file suffix) = slot.file suffix) :
    Handing arm64 call path ((gate made path).map change) := by
  rw [gate]
  cases hsubst : syntheticProcPath made path with
  | some q =>
    obtain ⟨slot, suffix, hslot, -, rfl⟩ := syntheticProcPath_eq_some.mp hsubst
    simp only [map_some, hchange]
    refine .substitute slot suffix ?_
    rw [PathCall.slot, hsought]
    exact hslot
  | none =>
    have htest : Handing arm64 call path _ := .test arm64 call path
    rw [htested, hshown] at htest
    cases hproc : isProc path with
    | true | false =>
      rw [hproc] at htest
      exact htest

theorem handed_handing {env : ApkEnv} (host : Host env) (call : PathCall) (path : CStr) :
    Handing arm64 call path (handed arm64 host call path) := by
  cases call with
  | libcOpen => exact libcOpen_handing arm64 host.early host.late path
  | sysOpen => exact guestOpenPath_handing arm64 path
  | fopen => exact libcFopen_handing arm64 path
  | stat =>
    exact gate_handing arm64 rfl rfl rfl fun slot suffix => mapGuestPath_file slot suffix arm64
  | access =>
    refine gate_handing arm64 rfl rfl rfl fun slot suffix => ?_
    rw [mapGuestPath_file, stripAccessUri_file]
  | realpath =>
    have hgate : Handing arm64 .realpath path ((gate host.late path).map id) :=
      gate_handing arm64 rfl rfl rfl fun _ _ => rfl
    rw [Option.map_id] at hgate
    exact hgate
  | readlink => exact .test arm64 .readlink path

theorem isProc_tested (h : call.slot arm64 path = some slot) : isProc (call.tested arm64 path) := by
  cases call with
  | libcOpen | sysOpen => exact isProc_map_of_procSlot arm64 h
  | readlink => cases h
  | fopen | stat | access | realpath => exact (of_procSlot h).1

theorem handed_of_slot {env : ApkEnv} {host : Host env}
    (hslot : call.slot arm64 path = some slot) (hearly : host.early slot = some suffix)
    (hlate : host.late slot = some suffix) :
    handed arm64 host call path = some (slot.file suffix) := by
  have hsubst : ∀ made : Substitutes, made slot = some suffix → ∀ q, procSlot q = some slot →
      syntheticProcPath made q = some (slot.file suffix) := by
    intro made hmade q hq
    exact syntheticProcPath_eq_some.mpr ⟨slot, suffix, hq, hmade, rfl⟩
  have hgate : ∀ q, procSlot q = some slot → gate host.late q = some (slot.file suffix) := by
    intro q hq
    rw [gate, hsubst host.late hlate q hq]
  have hopen : ∀ q, procSlot (stripFileUri q) = some slot →
      guestOpenPath arm64 host.late q = some (slot.file suffix) := by
    intro q hq
    simp [guestOpenPath, hsubst host.late hlate _ hq, mapGuestPath_file, isProc_file]
  cases call with
  | libcOpen =>
    rw [handed, libcOpen]
    cases hfirst : syntheticProcPath host.early path with
    | none => exact hopen path hslot
    | some q =>
      obtain ⟨slot', suffix', hslot', hmade, rfl⟩ := syntheticProcPath_eq_some.mp hfirst
      have hstrip := strip_of_procSlot hslot'
      rw [PathCall.slot, PathCall.sought, hstrip, bind_some, hslot'] at hslot
      cases hslot
      rw [hearly] at hmade
      cases hmade
      exact guestOpenPath_file arm64 slot suffix
  | sysOpen => exact hopen path hslot
  | fopen =>
    simp [handed, libcFopen, hsubst host.late hlate _ hslot, isProc_file]
  | stat => rw [handed, libcStat, hgate path hslot, map_some, mapGuestPath_file]
  | access =>
    rw [handed, access, hgate path hslot, map_some, mapGuestPath_file, stripAccessUri_file]
  | realpath => exact hgate path hslot
  | readlink => cases hslot

end Handed

/-! ## Assets -/

/-- No place of the asset with this path is under `/proc`. -/
def AssetsOutside (env : ApkEnv) (cwd : List CStr) (path : CStr) : Prop :=
  ∀ inner, apkPathInner env path = some inner →
    ∀ q, AssetPlace env pathMax inner q → ¬ InProc cwd q

section Assets

variable {env : ApkEnv} {cwd : List CStr} {path q : CStr}

theorem fallback_outside (h : AssetsOutside env cwd path) (host : Host env) (call : PathCall)
    (hq : q ∈ fallback host call path) : ¬ InProc cwd q := by
  have hstems := Bridge.stems_of_reached host.reached
  rw [fallback] at hq
  cases hinner : apkPathInner env path with
  | none => simp [extractLooks, extractToCache, apkPathIsDirLooks, hinner] at hq
  | some inner =>
    apply h inner hinner
    have hextracted := extract_asks (z := host.zlib) hstems hinner host.answers pathMax host.files
    rcases mem_append.mp hq with hq | hq
    · exact hextracted.asked q hq
    generalize extractToCache host.zlib env host.answers pathMax path host.files host.bridge =
      r at hq hextracted
    rcases mem_append.mp hq with hq | hq
    · exact hextracted.place q (mem_toList.mp hq)
    · split at hq
      · rw [apkPathIsDirLooks, hinner] at hq
        exact isDirLooks_places hextracted.stems (fun _ => id) hq
      · cases hq

/-- What `.splitN` adds to a name. -/
def partEnding (n : Nat) : CStr := cstr ".split" ++ cstr (toString n)

theorem cstr_toString (n : Nat) :
    cstr (toString n) = (Nat.toDigits 10 n).map fun c => UInt8.ofNat c.toNat := by
  rw [← Nat.toList_repr]
  rfl

theorem partEnding_length (n : Nat) : 6 < (partEnding n).length := by
  have hdigits : 0 < (Nat.toDigits 10 n).length := Nat.length_toDigits_pos
  rw [partEnding, length_append, cstr_toString, length_map]
  exact Nat.lt_add_of_pos_right hdigits

theorem ne_slash_of_mem_partEnding {n : Nat} {x : UInt8} (h : x ∈ partEnding n) : x ≠ 47 := by
  have hsplit : ∀ x ∈ cstr ".split", x ≠ 47 := by decide +kernel
  rcases mem_append.mp h with h | h
  · exact hsplit x h
  rw [cstr_toString] at h
  obtain ⟨c, hc, rfl⟩ := mem_map.mp h
  have hdigit : c.isDigit := Nat.isDigit_of_mem_toDigits (by decide) (le_refl 10) hc
  simp only [Char.isDigit, Bool.and_eq_true, decide_eq_true_eq] at hdigit
  have hlow : 48 ≤ c.toNat := hdigit.1
  have hhigh : c.toNat ≤ 57 := hdigit.2
  intro heq
  have hbyte : (UInt8.ofNat c.toNat).toNat = 47 := congrArg UInt8.toNat heq
  rw [UInt8.toNat_ofNat'] at hbyte
  omega

/-- The number of a part changes nothing about where it leads. -/
theorem inProc_part_zero {dir name : CStr} {n : Nat}
    (h : InProc cwd (inTree dir (splitPart name n))) :
    InProc cwd (inTree dir (splitPart name 0)) := by
  have hpart : ∀ k, inTree dir (splitPart name k) = dir ++ cstr "/" ++ name ++ partEnding k := by
    simp [inTree, splitPart, partEnding]
  have hshort : (partEnding 0).length = 7 := by decide +kernel
  have hlong := partEnding_length n
  obtain ⟨-, hfits, hhead⟩ := h
  rw [hpart] at hfits hhead
  rw [hpart]
  have hne : dir ++ cstr "/" ++ name ≠ [] := by
    intro hnil
    rw [append_assoc, append_eq_nil_iff] at hnil
    cases hnil.2
  have hstart : ∀ k, (dir ++ cstr "/" ++ name ++ partEnding k).head? =
      (dir ++ cstr "/" ++ name).head? := fun k => head?_append_of_ne_nil _ hne
  refine ⟨append_ne_nil_of_left_ne_nil hne _, ?_, ?_⟩
  · rw [length_append] at hfits ⊢
    omega
  · rw [place, hstart] at hhead ⊢
    have hproc : (cstr "proc").length = 4 := by decide +kernel
    exact head?_walk_append (fun _ => ne_slash_of_mem_partEnding)
      (fun _ => ne_slash_of_mem_partEnding)
      (by omega) (by omega) (by omega) hhead

theorem assetsOutside_of_fallback (early late : Substitutes)
    (h : ∀ host : Host env, host.early = early → host.late = late → host.found = false →
      ∀ q ∈ fallback host call path, ¬ InProc cwd q) : AssetsOutside env cwd path := by
  intro inner hinner q hplace hproc
  have hasked : ∀ q, Asked env path q → ¬ InProc cwd q := by
    rintro q ⟨z, fs, fs₀, a, b, hreached, hlook⟩
    exact h ⟨z, fs, a, b, fs₀, hreached, early, late, false, false⟩ rfl rfl rfl q
      (mem_append_left _ hlook)
  rcases asked_of_place hinner hplace with hask | ⟨dir, p, n, rfl, hask⟩
  · exact hasked q hask hproc
  · exact hasked _ hask (inProc_part_zero hproc)

end Assets

/-! ## Keeping out of `/proc` -/

/-- On no host does the call open or inspect anything under `/proc`. -/
def Hidden (env : ApkEnv) (cwd : List CStr) (arm64 : Bool) (call : PathCall) (path : CStr) : Prop :=
  ∀ host : Host env, ∀ q ∈ hostPaths arm64 host call path, ¬ InProc cwd q

/-- The path is spelled in `/proc` where the call compares it; or neither it nor its asset is there.
A substitute can count as an asset. -/
def Turned (env : ApkEnv) (cwd : List CStr) (arm64 : Bool) (call : PathCall) (path : CStr) : Prop :=
  if isProc (call.tested arm64 path) then
    ∀ slot suffix, call.slot arm64 path = some slot →
      call.fallsBack = true → AssetsOutside env cwd (slot.file suffix)
  else
    ¬ InProc cwd (call.shown arm64 path) ∧
      (call.fallsBack = true → AssetsOutside env cwd (call.shown arm64 path))

/-- The same, and an `access` of a path that speaks of `mscorlib` leads elsewhere as it is given. -/
def Plain (env : ApkEnv) (cwd : List CStr) (arm64 : Bool) (call : PathCall) (path : CStr) : Prop :=
  (call = .access → cstr "mscorlib" <:+: path → ¬ InProc cwd path) ∧
    Turned env cwd arm64 call path

section Hidden

variable {env : ApkEnv} {cwd : List CStr} {arm64 : Bool} {call : PathCall} {path q r : CStr}

theorem handed_of_tested (host : Host env) (h : isProc (call.tested arm64 path) = false) :
    handed arm64 host call path = some (call.shown arm64 path) := by
  have hhanding := handed_handing arm64 host call path
  generalize handed arm64 host call path = out at hhanding
  cases hhanding with
  | substitute slot suffix hslot =>
    rw [isProc_tested arm64 hslot] at h
    cases h
  | blocked hproc =>
    rw [hproc] at h
    cases h
  | shown => rfl

/-- A host with nothing but the files that the guest asks for. -/
def bareHost (env : ApkEnv) : Host env :=
  ⟨plainZlib, noFiles, making, .initial, noFiles, .inl rfl, fun _ => none, fun _ => none, true,
    true⟩

theorem mem_servedPaths {host : Host env} (hhanded : handed arm64 host call path = some q) :
    r ∈ servedPaths arm64 host call path ↔
      r = q ∨ (call.fallsBack ∧ host.found = false ∧ r ∈ fallback host call q) := by
  rw [servedPaths, hhanded]
  cases call.fallsBack <;> cases host.found <;> simp

theorem servedPaths_outside {host : Host env} (hhanded : handed arm64 host call path = some q)
    (hq : ¬ InProc cwd q) (hassets : call.fallsBack → AssetsOutside env cwd q)
    (hr : r ∈ servedPaths arm64 host call path) : ¬ InProc cwd r := by
  rcases (mem_servedPaths hhanded).mp hr with rfl | ⟨hfalls, -, hr⟩
  · exact hq
  · exact fallback_outside (hassets hfalls) host call hr

theorem served_iff (env : ApkEnv) (cwd : List CStr) (arm64 : Bool) (call : PathCall)
    (path : CStr) : (∀ host : Host env, ∀ q ∈ servedPaths arm64 host call path, ¬ InProc cwd q) ↔
      Turned env cwd arm64 call path := by
  constructor
  · intro h
    rw [Turned]
    cases htested : isProc (call.tested arm64 path) with
    | true =>
      intro slot suffix hslot hfalls
      have houtside : ∀ host : Host env, host.early = (fun _ => some suffix) →
          host.late = (fun _ => some suffix) → host.found = false →
          ∀ r ∈ fallback host call (slot.file suffix), ¬ InProc cwd r := by
        intro host hearly hlate hfound r hr
        have hhanded := handed_of_slot arm64 hslot (by rw [hearly]) (by rw [hlate])
        exact h host r ((mem_servedPaths hhanded).mpr (.inr ⟨hfalls, hfound, hr⟩))
      exact assetsOutside_of_fallback _ _ houtside
    | false =>
      have hhanded : ∀ host : Host env,
          handed arm64 host call path = some (call.shown arm64 path) :=
        fun host => handed_of_tested host htested
      refine ⟨h (bareHost env) _ ((mem_servedPaths (hhanded _)).mpr (.inl rfl)), fun hfalls => ?_⟩
      have houtside : ∀ host : Host env, host.early = (fun _ => none) →
          host.late = (fun _ => none) → host.found = false →
          ∀ r ∈ fallback host call (call.shown arm64 path), ¬ InProc cwd r := by
        intro host _ _ hfound r hr
        exact h host r ((mem_servedPaths (hhanded host)).mpr (.inr ⟨hfalls, hfound, hr⟩))
      exact assetsOutside_of_fallback _ _ houtside
  · intro h host r hr
    rw [Turned] at h
    have hhanding := handed_handing arm64 host call path
    cases hhanded : handed arm64 host call path with
    | none =>
      rw [servedPaths, hhanded] at hr
      cases hr
    | some q =>
      rw [hhanded] at hhanding
      cases hhanding with
      | substitute slot suffix hslot =>
        rw [if_pos (isProc_tested arm64 hslot)] at h
        exact servedPaths_outside hhanded (not_inProc_file slot suffix cwd) (h slot suffix hslot) hr
      | shown htested =>
        rw [if_neg (Bool.eq_false_iff.mp htested)] at h
        exact servedPaths_outside hhanded h.1 h.2 hr

/-- **Which paths keep out of `/proc`.** On every host, a call opens and inspects nothing under
`/proc` if and only if its path is spelled in `/proc` where the call compares it, or else leads
elsewhere, as does its asset, and an `access` that the dispatcher tries first leads elsewhere too.
-/
theorem hidden_iff_plain (env : ApkEnv) (cwd : List CStr) (arm64 : Bool) (call : PathCall)
    (path : CStr) : Hidden env cwd arm64 call path ↔ Plain env cwd arm64 call path := by
  have hprobed : (∀ q ∈ probed call path, ¬ InProc cwd q) ↔
      (call = .access → cstr "mscorlib" <:+: path → ¬ InProc cwd path) := by
    rw [probed]
    split
    · simp_all
    · simp
      tauto
  rw [Plain, ← served_iff, ← hprobed]
  simp only [Hidden, hostPaths, forall_mem_append]
  exact ⟨fun h => ⟨(h (bareHost env)).1, fun host => (h host).2⟩, fun h host => ⟨h.1, h.2 host⟩⟩

end Hidden

/-- A second slash in front of `/proc`, or a `file://` that `access` takes off behind its test,
leads to the host's own files. -/
theorem not_hidden_spelled : ¬ Hidden ⟨none, none⟩ [] true .libcOpen (cstr "//proc/cpuinfo") ∧
      ¬ Hidden ⟨none, none⟩ [] true .access (cstr "file:///proc/self/maps") := by
  have hopened : cstr "//proc/cpuinfo" ∈
      hostPaths true (bareHost ⟨none, none⟩) .libcOpen (cstr "//proc/cpuinfo") := by decide +kernel
  have haccessed : cstr "/proc/self/maps" ∈
      hostPaths true (bareHost ⟨none, none⟩) .access (cstr "file:///proc/self/maps") := by
    decide +kernel
  constructor
  · intro h
    exact h _ _ hopened (by decide +kernel)
  · intro h
    exact h _ _ haccessed (by decide +kernel)

end Lunaria.Guest
