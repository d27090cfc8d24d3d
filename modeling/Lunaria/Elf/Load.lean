/-
# The two loaders

`load_elf` and `load_elf64` on a file that was read: map the segments, export the symbols, apply
the relocations, and find the constructors. What follows is guest code (the constructors) and, for
`libmono.so`, patches of the library's own code.
-/

import Lunaria.Elf.Linker

namespace Lunaria.Elf

open Lib List Option

/-! ## Segments -/

variable (base : Nat) (dynamic : List Dyn)

def copiedRange (seg : Segment) : Interval :=
  ⟨u32 (base + seg.vaddr), u32 (base + seg.vaddr) + seg.data.length⟩

namespace Linker

def mapSegment (base : Nat) (k : Linker) (seg : Segment) : Linker :=
  { k with
    space := Lunaria.mapSegment base k.space seg
    writes := copiedRange base seg :: k.writes }

def mapSegments (base : Nat) (k : Linker) (segs : List Segment) : Linker :=
  segs.foldl (mapSegment base) k

theorem mapSegments_eq (base : Nat) (k : Linker) (segs : List Segment) :
    ∃ space writes, k.mapSegments base segs = { k with space, writes } := by
  induction segs generalizing k with
  | nil => exact ⟨k.space, k.writes, rfl⟩
  | cons seg segs ih => exact ih (k.mapSegment base seg)

/-! ## Exports -/

/-- Export the symbols that have a section and a value; the first library keeps a name. Addresses
are modulo `wrap`. -/
def exportSymbols (bias wrap : Nat) (k : Linker) (symbols : List (CStr × Sym)) : Linker :=
  symbols.foldl (fun k (name, sym) =>
    if name ≠ [] ∧ sym.shndx ≠ shnUndef ∧ sym.value ≠ 0 ∧ (k.exports.lookup name).isNone then
      { k with exports := k.exports ++ [(name, (bias + sym.value) % wrap)] } else k) k

theorem exportSymbols_eq (bias wrap : Nat) (k : Linker) (symbols : List (CStr × Sym)) :
    ∃ exports, k.exportSymbols bias wrap symbols = { k with exports } := by
  induction symbols generalizing k with
  | nil => exact ⟨k.exports, rfl⟩
  | cons symbol symbols ih =>
    obtain ⟨name, sym⟩ := symbol
    rw [exportSymbols, foldl_cons]
    simp only
    split
    · exact ih { k with exports := k.exports ++ [(name, (bias + sym.value) % wrap)] }
    · exact ih k

end Linker

def jniOnloadVa (bias wrap : Nat) (symbols : List (CStr × Sym)) : Nat :=
  symbols.foldl (fun va (name, sym) =>
    if name = cstr "JNI_OnLoad" ∧ sym.value ≠ 0 then (bias + sym.value) % wrap else va) 0

/-! ## Relocations -/

namespace Linker

variable (L : Layout) (env : LinkEnv)

variable (k : Linker) (base : Nat) (image : Image)

/-- One relocation of `load_elf`. -/
def relocate32 (k : Linker) (r : Relocation) : Linker :=
  let ro := u32 (base + r.offset)
  if r.type = rArmRelative then
    if base ≠ 0 then k.write32 ro (u32 (k.mem.read32 ro + base)) else k
  else
    match r.ref with
    | .none => k
    | .symbol sym name =>
      if sym.shndx ≠ shnUndef then
        let sv := u32 (base + sym.value)
        if r.type = rArmJumpSlot ∧ name = cstr "__cxa_throw" then
          let (stub, k) := k.cxaThrowStub sv
          k.write32 ro stub
        else if r.type = rArmJumpSlot ∨ r.type = rArmGlobDat then k.write32 ro sv
        else if r.type = rArmAbs32 then k.write32 ro (u32 (k.mem.read32 ro + sv))
        else k
      else
        let (tv, k) := resolveImport32 L env k name
        if r.type = rArmJumpSlot ∨ r.type = rArmGlobDat ∨ r.type = rArmAbs32 then
          k.write32 ro tv
        else k

/-- `R_AARCH64_*` arithmetic. -/
def u64 (n : Nat) : Nat := n % 2 ^ 64

/-- The address `load_elf64` takes for a symbol: an import is also a definition without a
value. -/
def symbolVa64 (guestBase : Nat) (k : Linker) (sym : Sym) (name : CStr) : Nat × Linker :=
  if sym.shndx ≠ shnUndef ∧ sym.value ≠ 0 then (u64 (guestBase + sym.value), k)
  else resolveImport64 L env k name

/-- One relocation of `load_elf64`. -/
def relocate64 (k : Linker) (r : Relocation) : Linker :=
  let ro := u32 (base + u32 r.offset)
  let guestBase := a64GuestVa base
  if r.type = rAarch64Relative then k.write64 ro (u64 (guestBase + r.addend))
  else
    match r.ref with
    | .none => k
    | .symbol sym name =>
      let (symVa, k) := symbolVa64 L env guestBase k sym name
      if r.type = rAarch64GlobDat ∨ r.type = rAarch64JumpSlot then
        k.write64 ro (u64 (symVa + r.addend))
      else if r.type = rAarch64Abs64 then
        k.write64 ro (u64 (symVa + r.addend + k.mem.readLE ro 8))
      else if r.type = rAarch64Abs32 then k.write32 ro (u32 (symVa + r.addend))
      else k

/-! ## Loading -/

/-- The state in which `load_elf` starts to apply relocations. -/
def mapped32 : Linker :=
  { k.mapSegments base image.segments with
    dataStart := u32 (base + image.dataAddr.getD 0) }.exportSymbols base (2 ^ 32) image.symbols

theorem mapped32_eq :
    ∃ dataStart exports, k.mapped32 base image = { k.mapSegments base image.segments with
      dataStart := dataStart, exports } :=
  ⟨_, exportSymbols_eq base _ _ image.symbols⟩

/-- `load_elf` up to the constructors. -/
def link32 : Linker :=
  image.relocations.foldl (relocate32 L env base) (k.mapped32 base image)

/-- The state in which `load_elf64` starts to apply relocations. -/
def mapped64 : Linker :=
  (k.mapSegments base image.segments).exportSymbols (a64GuestVa base) (2 ^ 64) image.symbols

theorem mapped64_eq : ∃ exports, k.mapped64 base image =
      { k.mapSegments base image.segments with exports } :=
  exportSymbols_eq _ _ _ image.symbols

/-- `load_elf64` up to the constructors. -/
def link64 : Linker :=
  image.relocations.foldl (relocate64 L env base) (k.mapped64 base image)

end Linker

/-! ## Constructors -/

/-- The value of the last entry with a tag. -/
def dynVal (tag : Nat) : Option Nat :=
  (dynamic.filter (·.tag = tag)).getLast?.map (·.val)

/-- The constructors: `DT_INIT`, and an array of function pointers in guest memory; zero where there
is nothing to call. -/
structure Constructors where
  init : Nat
  arrayVa : Nat
  count : Nat

/-- The constructors of `load_elf`, which does not look at `DT_INIT`. -/
def constructors32 : Constructors :=
  let va := ((dynVal dynamic dtInitArray).map fun p => u32 (base + p)).getD 0
  ⟨0, va, (dynVal dynamic dtInitArraySz).getD 0 / 4⟩

/-- The constructors of `load_elf64`. -/
def constructors64 : Constructors :=
  let guest := fun p => Linker.u64 (a64GuestVa base + p)
  ⟨((dynVal dynamic dtInit).map guest).getD 0, ((dynVal dynamic dtInitArray).map guest).getD 0,
    u32 ((dynVal dynamic dtInitArraySz).getD 0 / 8)⟩

/-! ## Loading a file -/

/-- What a loader leaves behind. -/
structure Loaded where
  linker : Linker
  jniOnloadVa : Nat
  constructors : Constructors

/-- `load_elf` up to the call of the constructors: `none` for a read outside the file, `some none`
for a file turned away. What it patches behind them in `libmono.so` and reads of `libunity.so` is
left out. -/
def loadElf (L : Layout) (env : LinkEnv) (base : Nat) (k : Linker) (file : List UInt8) :
    Option (Option Loaded) :=
  (parse32 file).map fun image => image.map fun image =>
    ⟨Linker.link32 L env k base image, jniOnloadVa base (2 ^ 32) image.symbols,
      constructors32 base image.dynamic⟩

def loadElf64 (L : Layout) (env : LinkEnv) (base : Nat) (k : Linker) (file : List UInt8) :
    Option (Option Loaded) :=
  (parse64 file).map fun image => image.map fun image =>
    ⟨Linker.link64 L env k (u32 base) image, jniOnloadVa (a64GuestVa (u32 base))
      (2 ^ 64) image.symbols,
      constructors64 (u32 base) image.dynamic⟩

section

variable {L : Layout} {env : LinkEnv} {base : Nat} {k : Linker} {file : List UInt8} {image : Image}

theorem loadElf_of_parse (h : parse32 file = some (some image)) :
    loadElf L env base k file = some (some ⟨Linker.link32 L env k base image,
      jniOnloadVa base (2 ^ 32) image.symbols, constructors32 base image.dynamic⟩) := by
  rw [loadElf, h, map_some, map_some]

theorem loadElf64_of_parse (h : parse64 file = some (some image)) :
    loadElf64 L env base k file = some (some ⟨Linker.link64 L env k (u32 base) image,
      jniOnloadVa (a64GuestVa (u32 base)) (2 ^ 64) image.symbols,
      constructors64 (u32 base) image.dynamic⟩) := by
  rw [loadElf64, h, map_some, map_some]

end

end Lunaria.Elf
