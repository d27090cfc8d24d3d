/-
# Binding symbols

The linker state the two loaders keep across libraries: the exported symbols, the addresses and
stubs handed out so far, and guest memory. A symbol that a library imports is bound to the export
of an earlier library, to a fixed guest address, to an SVC trampoline, or to a stub of its own.
Some names go to a stub of the runtime although a library defines them: a logger in front of
`__cxa_throw` and of two functions of the mono runtime, and a wrapper around
`mono_jit_init_version`.

Every write is also kept in a list of the ranges written.
-/

import Lunaria.Elf.Parse
import Lunaria.Guest.Stubs
import Lunaria.Threads.CurrentTid

namespace Lunaria

def Layout.libcData (L : Layout) : Nat := if L.isArm64 then libcDataA64 else 0x41014000

def Layout.noopRet0 (L : Layout) : Nat := L.libcData + 0x100

namespace Elf

open Lib

def trampStride : Nat := 8

def svcTrampTotal : Nat := 1040

def svcRet0 : Nat := 438
def svcExcFromName : Nat := 724
def svcExcRaise : Nat := 725
def svcUnknownCall : Nat := 803
def svcMonoPrep : Nat := 903
def svcUnknownSym : Nat := 937
def svcExcCxaThrow : Nat := 967

def pthreadOnceStub : Nat := 0x41008000
def mjivStubVa : Nat := 0x41009000
def excStubBase : Nat := 0x4100a000

/-- `TRAMP_BASE + n * TRAMP_STRIDE`. -/
def tramp (L : Layout) (n : Nat) : Nat := u32 (L.trampBase + n * trampStride)

/-! ## State -/

/-- What binding depends on besides the libraries: the SVC table, the in-guest mutex functions, and
two environment variables. -/
structure LinkEnv where
  /-- `lookup_symbol_svc`. -/
  svc : CStr → Option Nat
  /-- `g_fastmutex_lock_va`, `_unlock_va` and `_trylock_va`. -/
  fastMutex : Option (Nat × Nat × Nat)
  /-- `LUNARIA_MJIV_WRAP` is not `0`. -/
  mjivWrap : Bool
  /-- `LUNARIA_TRACE_EXC` is set. -/
  traceExc : Bool

structure Linker where
  space : AddressSpace
  /-- `g_exported_syms`, or `g_exported_syms64`. -/
  exports : List (CStr × Nat)
  /-- `g_reloc_data_start`. -/
  dataStart : Nat
  /-- The addresses given to `SL_IID_` names, and the next one. -/
  slIids : List (CStr × Nat)
  slNext : Nat
  /-- `g_exc_stub_from_name` and `g_exc_stub_raise`. -/
  excFromName : Nat
  excRaise : Nat
  /-- `g_exc_stub_cxa_throw`: the stub of each implementation. -/
  excCxaThrow : List (Nat × Nat)
  /-- `g_mjiv_stub_va`. -/
  mjivStub : Nat
  /-- `g_unknown_sym_names` and `g_unknown_sym_slot`. -/
  unknownNames : List CStr
  unknownSlot : List (CStr × Nat)
  /-- The ranges written, latest first. -/
  writes : List Interval

namespace Linker

/-- The linker before the first library. -/
def initial (space : AddressSpace) : Linker :=
  ⟨space, [], 0, [], 0x41014000, 0, 0, [], 0, [], [], []⟩

variable (L : Layout) (k : Linker) (env : LinkEnv)

def mem : ByteMemory := k.space.mem.arena

/-- Store bytes at a guest address. -/
def poke (addr : Nat) (bytes : List UInt8) : Linker :=
  { k with
    space := { k.space with mem := k.space.mem.copyIn addr bytes }
    writes := ⟨addr, addr + bytes.length⟩ :: k.writes }

/-- Store a number of `width` bytes. -/
def pokeLE (addr width v : Nat) : Linker :=
  { k with
    space := { k.space with
      mem := { k.space.mem with arena := k.space.mem.arena.writeLE addr width v } }
    writes := ⟨addr, addr + width⟩ :: k.writes }

def write32 (addr v : Nat) : Linker := k.pokeLE addr 4 v

/-- `memcpy` of a `uint64_t`. -/
def write64 (addr v : Nat) : Linker := k.pokeLE addr 8 v

/-- The ranges of `n` words one behind the other, at addresses that wrap around. -/
def wordRanges (addr n : Nat) : List Interval :=
  (List.range n).map fun i => ⟨u32 (addr + i * 4), u32 (addr + i * 4) + 4⟩

/-- Store words one behind the other. -/
def storeWords (m : ByteMemory) (addr : Nat) (words : List Nat) : ByteMemory :=
  words.zipIdx.foldl (fun m (w, i) => m.write32 (u32 (addr + i * 4)) w) m

/-- A loop of `write32`. -/
def writeWords (addr : Nat) (words : List Nat) : Linker :=
  { k with
    space := { k.space with
      mem := { k.space.mem with arena := storeWords k.space.mem.arena addr words } }
    writes := (wordRanges addr words.length).reverse ++ k.writes }

/-! ## Fixed addresses -/

/-- The names `lookup_symbol_direct_va` knows one by one. -/
def directTable (dataStart : Nat) : List (CStr × Nat) :=
  let start := if dataStart ≠ 0 then dataStart else L.libcData
  [(cstr "pthread_once", pthreadOnceStub)] ++
  (match env.fastMutex with
    | some (lock, unlock, trylock) =>
      [(cstr "pthread_mutex_lock", lock), (cstr "pthread_mutex_unlock", unlock),
        (cstr "pthread_mutex_trylock", trylock)]
    | none => []) ++
  [(cstr "__page_size", L.libcData), (cstr "__page_shift", L.libcData + 4),
    (cstr "__page_mask", L.libcData + 8), (cstr "_ctype_", L.libcData + 0x300),
    (cstr "_tolower_tab_", L.libcData + 0x400), (cstr "__data_start", start),
    (cstr "data_start", start), (cstr "__end__", L.noopRet0), (cstr "sys_signame", L.noopRet0),
    (cstr "_ZTH15gDeferredAction", L.noopRet0), (cstr "__libc_current_sigrtmax", L.noopRet0),
    (cstr "__libc_current_sigrtmin", L.noopRet0), (cstr "tzname", 0x41014100),
    (cstr "timezone", 0x41014180), (cstr "daylight", 0x41014180), (cstr "stdin", 0x41014200),
    (cstr "stdout", 0x41014200), (cstr "stderr", 0x41014200), (cstr "__sF", 0x41014200)]

/-- The address of an `SL_IID_` name: 16 bytes each, starting over at the end of the page. -/
def slIid (name : CStr) : Nat × Linker :=
  match k.slIids.lookup name with
  | some va => (va, k)
  | none =>
    let next := k.slNext + 16
    (k.slNext, { k with
      slNext := if 0x41015000 ≤ next then 0x41014000 else next
      slIids := k.slIids ++ [(name, k.slNext)] })

/-- `lookup_symbol_direct_va`; zero when the name has no fixed address. -/
def lookupSymbolDirectVa (k : Linker) (name : CStr) : Nat × Linker :=
  match (directTable L env k.dataStart).lookup name with
  | some va => (va, k)
  | none =>
    if (cstr "AMEDIAFORMAT_KEY_").isPrefixOf name then (L.noopRet0, k)
    else if (cstr "SL_IID_").isPrefixOf name then k.slIid name
    else (0, k)

/-! ## Stubs -/

/-- `build_exc_logger_stub`: log, then jump to the address in the last word. -/
def buildExcLoggerStub (stubVa svcNum realVa : Nat) : Linker :=
  k.writeWords stubVa [0xEF000000 ||| svcNum, 0xE51FF004, realVa]

/-- `build_mjiv_stub`: the words of the wrapper around `mono_jit_init_version`. -/
def mjivCode (real domainGet : Nat) : List Nat :=
  let cache := L.libcData + 0x20
  let mark := L.libcData + 0x24
  let runtimeVer := L.libcData + 0x28
  let lo := fun v => v &&& 0xffff
  let hi := fun v => (v >>> 16) &&& 0xffff
  let ask := if domainGet ≠ 0 then
      [0xE92D4008, movw 12 (lo domainGet), movt 12 (hi domainGet), 0xE12FFF3C, 0xE8BD4008,
        0xE3500000, 0x05330000, 0x112FFF1E]
    else []
  [movw 3 (lo cache), movt 3 (hi cache), 0xE5932000, 0xE3520000, 0x11A00002, 0x112FFF1E,
    movw 2 (lo mark), movt 2 (hi mark), 0xE5921000, 0xE3510000,
    -- `beq` over the call of `mono_domain_get`
    0x0A000000 ||| (sub32 ask.length 1 &&& 0xffffff)] ++ ask ++
  [0xE5921000, 0xE2811001, 0xE5821000, 0xEF000000 ||| svcMonoPrep,
    movw 1 (lo runtimeVer), movt 1 (hi runtimeVer), 0xE92D4008, movw 12 (lo real),
    movt 12 (hi real), 0xE12FFF3C, 0xE8BD4008, 0xE5830000, 0xE12FFF1E]

def buildMjivStub (real domainGet : Nat) : Nat × Linker :=
  if k.mjivStub ≠ 0 then (k.mjivStub, k)
  else
    let k := k.poke (L.libcData + 0x28) (cstr "v1.1.4322" ++ [0])
    let k := k.writeWords mjivStubVa (mjivCode L real domainGet)
    let k := k.write32 (L.libcData + 0x20) 0
    (mjivStubVa, { k with mjivStub := mjivStubVa })

/-- The stub in front of `mono_exception_from_name_msg`. -/
def excFromNameStub (real : Nat) : Nat × Linker :=
  if k.excFromName ≠ 0 then (k.excFromName, k)
  else (excStubBase, { k.buildExcLoggerStub excStubBase svcExcFromName real with
    excFromName := excStubBase })

/-- The stub in front of `mono_raise_exception`. -/
def excRaiseStub (real : Nat) : Nat × Linker :=
  if k.excRaise ≠ 0 then (k.excRaise, k)
  else (excStubBase + 0x40, { k.buildExcLoggerStub (excStubBase + 0x40) svcExcRaise real with
    excRaise := excStubBase + 0x40 })

/-- The place of the stub of the `i`-th implementation of `__cxa_throw`. -/
def cxaStubVa (i : Nat) : Nat := u32 (excStubBase + 0x80 + 0x20 * i)

/-- The stub in front of an implementation of `__cxa_throw`, built on first use. -/
def cxaThrowStub (real : Nat) : Nat × Linker :=
  match k.excCxaThrow.lookup real with
  | some stub => (stub, k)
  | none =>
    let stub := cxaStubVa k.excCxaThrow.length
    (stub, { k.buildExcLoggerStub stub svcExcCxaThrow real with
      excCxaThrow := k.excCxaThrow ++ [(real, stub)] })

/-- The two words of an unknown symbol's stub. -/
def unknownWords : List Nat :=
  if L.isArm64 then [0xD4000001 ||| ((svcUnknownSym &&& 0xffff) <<< 5), 0xD65F03C0]
  else [0xEF000000 ||| svcUnknownSym, 0xE12FFF1E]

/-- The stub of the next unknown symbol would reach into the JNI table. -/
def PoolFull (L : Layout) : Prop :=
  L.jniTbl64Base < u32 (L.trampBase + (svcTrampTotal + k.unknownNames.length + 1) * trampStride)
  deriving Decidable

/-- Give an unknown symbol the next slot and write its stub. -/
def addStub (name : CStr) : Linker :=
  { k with
    unknownNames := k.unknownNames ++ [name]
    unknownSlot := k.unknownSlot ++ [(name, k.unknownNames.length)] }.writeWords
      (tramp L (svcTrampTotal + k.unknownNames.length)) (unknownWords L)

/-- The slot of an unknown symbol, a new one if it has none; `none` when the pool is full. -/
def unknownStub (name : CStr) : Option Nat × Linker :=
  match k.unknownSlot.lookup name with
  | some slot => (some slot, k)
  | none =>
    if k.PoolFull L then (none, k) else (some k.unknownNames.length, addStub L k name)

/-! ## Imports -/

/-- The address `load_elf` binds an undefined symbol to. -/
def resolveImport32 (k : Linker) (name : CStr) : Nat × Linker :=
  match k.exports.lookup name with
  | some va =>
    if env.traceExc ∧ name = cstr "mono_exception_from_name_msg" then k.excFromNameStub va
    else if env.traceExc ∧ name = cstr "mono_raise_exception" then k.excRaiseStub va
    else if name = cstr "__cxa_throw" then k.cxaThrowStub va
    else if name = cstr "mono_jit_init_version" ∧ env.mjivWrap then
      buildMjivStub L k va ((k.exports.lookup (cstr "mono_domain_get")).getD 0)
    else (va, k)
  | none =>
    match lookupSymbolDirectVa L env k name with
    | (0, k) => (tramp L ((env.svc name).getD svcUnknownCall), k)
    | (va, k) => (va, k)

/-- The address `load_elf64` binds a symbol to that it does not find in the library. -/
def resolveImport64 (k : Linker) (name : CStr) : Nat × Linker :=
  match k.exports.lookup name with
  | some va => (va, k)
  | none =>
    match lookupSymbolDirectVa L env k name with
    | (0, k) =>
      match env.svc name with
      | some n => (a64GuestVa (tramp L n), k)
      | none =>
        match unknownStub L k name with
        | (some slot, k) => (a64GuestVa (tramp L (svcTrampTotal + slot)), k)
        | (none, k) => (a64GuestVa (tramp L svcRet0), k)
    | (va, k) => (a64GuestVa va, k)

end Linker

end Elf

end Lunaria
