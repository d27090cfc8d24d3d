/-
# What the loaders take from a library file

`load_elf` and `load_elf64` read the file's tables through pointers into one buffer. Reading the
buffer is separate from what is then done to guest memory: this module reads a file into the
segments to map, the symbols to export, the relocations to apply and the dynamic entries. A read
outside the buffer gives `none`; a file the loader turns away gives `some none`. Records and
strings are read as wholes, and only where the loaders look at them.
-/

import Lunaria.Elf.Format
import Lunaria.Space.Handlers

namespace Lunaria.Elf

open Lib Buffer

/-- The symbol of a relocation. -/
inductive SymRef
  /-- The loader does not look for a symbol. -/
  | none
  /-- A symbol, with its name where the loader reads it and the empty name elsewhere. -/
  | symbol (sym : Sym) (name : CStr)
  deriving DecidableEq

/-- A relocation with its symbol looked up. -/
structure Relocation where
  type : Nat
  offset : Nat
  addend : Nat
  ref : SymRef
  deriving DecidableEq

/-- What is in the sections of the dynamic linker. -/
structure Linkage where
  symbols : List (CStr × Sym)
  relocations : List Relocation
  deriving DecidableEq

deriving instance DecidableEq for Segment

/-- A library file as the loader sees it. -/
structure Image where
  segments : List Segment
  /-- `sh_addr` of the section called `.data`. -/
  dataAddr : Option Nat
  /-- Missing when the file has no dynamic symbol table. -/
  linkage : Option Linkage
  dynamic : List Dyn
  deriving DecidableEq

def Image.symbols (image : Image) : List (CStr × Sym) :=
  (image.linkage.map (·.symbols)).getD []

def Image.relocations (image : Image) : List Relocation :=
  (image.linkage.map (·.relocations)).getD []

/-! ## Parts both loaders share -/

section Shared

variable (c : ElfClass) (buf : List UInt8)

/-- The check in front of both loaders. -/
def Ehdr.accepted (h : Ehdr) : Bool :=
  h.magic = elfMag && h.elfClass = c.ident && h.machine = c.machine

/-- `shdrs[i]`. The index is not compared with `e_shnum`. -/
def shdrAt? (h : Ehdr) (i : Nat) : Option Shdr :=
  record? buf (h.shoff + i * c.shdrSize) c.shdrSize c.shdr

/-- The dynamic symbol table: where it is, its number of symbols and where its strings are. -/
structure SymTab where
  offset : Nat
  count : Nat
  strOffset : Nat

/-- `dynsym`, `dynsym_n` and `dynstr` after the loop over the sections: the last one counts. -/
def dynsym? (h : Ehdr) (shdrs : List Shdr) : Option (Option SymTab) := do
  let tabs ← (shdrs.filter (·.type = shtDynsym)).mapM fun sh => do
    let str ← shdrAt? c buf h sh.link
    some ⟨sh.offset, sh.size / c.symSize, str.offset⟩
  some tabs.getLast?

def relSecs (shdrs : List Shdr) : List Shdr :=
  shdrs.filter fun sh => sh.type = c.relType ∧ 0 < sh.size

/-- The symbols of the export loop with their names. -/
def symbols? (tab : SymTab) : Option (List (CStr × Sym)) := do
  let syms ← table? buf tab.offset c.symSize tab.count c.sym
  syms.mapM fun sym => do
    let name ← cstring? buf (tab.strOffset + sym.name)
    some (name, sym)

/-- The entries of the first `PT_DYNAMIC` segment, up to `DT_NULL`. -/
def dynamic? (phdrs : List Phdr) : Option (List Dyn) :=
  match phdrs.find? (·.type = ptDynamic) with
  | none => some []
  | some ph => scan? buf c.dynSize c.dyn (·.tag = dtNull) (buf.length + 1) ph.offset

end Shared

/-! ## `load_elf` -/

section Load32

variable (buf : List UInt8)

/-- The program headers the segment loop of `load_elf` acts on. -/
def isSegment32 (ph : Phdr) : Bool := (ph.type = ptExidx || ph.type = ptLoad) && ph.memsz ≠ 0

/-- A segment and its bytes in the file. The end of the bytes is computed in 32 bits. -/
def segment32? (ph : Phdr) : Option Segment := do
  let data ←
    if 0 < ph.filesz ∧ u32 (ph.offset + ph.filesz) ≤ u32 buf.length then
      slice? buf ph.offset ph.filesz
    else some []
  some ⟨ph.vaddr, ph.memsz, ph.flags, data, ph.type = ptLoad⟩

/-- The search for the section called `.data`. -/
def dataAddr? (shstr : Nat) : List Shdr → Option (Option Nat)
  | [] => some none
  | sh :: shdrs =>
    if sh.type = shtProgbits then do
      let name ← cstring? buf (shstr + sh.name)
      if name = cstr ".data" then some (some sh.addr) else dataAddr? shstr shdrs
    else dataAddr? shstr shdrs

/-- One entry of a `SHT_REL` section. The name of a defined symbol is looked at for
`R_ARM_JUMP_SLOT` only. -/
def relocation32? (stab str : Nat) (rel : Reloc) : Option Relocation :=
  if rel.type = rArmRelative ∨ rel.sym = 0 then some ⟨rel.type, rel.offset, 0, .none⟩
  else do
    let sym ← record? buf (stab + rel.sym * elf32.symSize) elf32.symSize elf32.sym
    if sym.shndx ≠ shnUndef ∧ rel.type ≠ rArmJumpSlot then
      some ⟨rel.type, rel.offset, 0, .symbol sym []⟩
    else do
      let name ← cstring? buf (str + sym.name)
      some ⟨rel.type, rel.offset, 0, .symbol sym name⟩

def relSec32? (h : Ehdr) (sh : Shdr) : Option (List Relocation) := do
  let stab ← shdrAt? elf32 buf h sh.link
  let str ← shdrAt? elf32 buf h stab.link
  let rels ← table? buf sh.offset elf32.relSize (sh.size / elf32.relSize) elf32.rel
  rels.mapM (relocation32? buf stab.offset str.offset)

def linkage32? (h : Ehdr) (shdrs : List Shdr) : Option (Option Linkage) := do
  match ← dynsym? elf32 buf h shdrs with
  | none => some none
  | some tab =>
    let symbols ← symbols? elf32 buf tab
    let relocations ← (relSecs elf32 shdrs).mapM (relSec32? buf h)
    some (some ⟨symbols, relocations.flatten⟩)

/-- What `load_elf` takes from the file. -/
def parse32 : Option (Option Image) := do
  let h ← record? buf 0 elf32.ehdrSize elf32.ehdr
  if h.accepted elf32 then do
    let phdrs ← table? buf h.phoff elf32.phdrSize h.phnum elf32.phdr
    let segments ← (phdrs.filter isSegment32).mapM (segment32? buf)
    let shdrs ← table? buf h.shoff elf32.shdrSize h.shnum elf32.shdr
    let dataAddr ←
      if h.shstrndx < h.shnum then do
        let shstr ← shdrAt? elf32 buf h h.shstrndx
        dataAddr? buf shstr.offset shdrs
      else some none
    let linkage ← linkage32? buf h shdrs
    let dynamic ← dynamic? elf32 buf phdrs
    some (some ⟨segments, dataAddr, linkage, dynamic⟩)
  else some none

end Load32

/-! ## `load_elf64` -/

section Load64

variable (buf : List UInt8)

/-- The program headers the segment loop of `load_elf64` acts on. -/
def isSegment64 (ph : Phdr) : Bool := ph.type = ptLoad && ph.memsz ≠ 0

/-- A segment and its bytes in the file. Address and size are cut to 32 bits, and the end of
the bytes is computed in 64. -/
def segment64? (ph : Phdr) : Option Segment := do
  let data ←
    if 0 < ph.filesz ∧ (ph.offset + ph.filesz) % 2 ^ 64 ≤ buf.length then
      slice? buf ph.offset ph.filesz
    else some []
  some ⟨u32 ph.vaddr, u32 ph.memsz, ph.flags, data, true⟩

/-- One entry of a `SHT_RELA` section; the name is looked at unless the symbol has a section and a
value. -/
def relocation64? (count stab str : Nat) (rel : Reloc) : Option Relocation :=
  if rel.type = rAarch64Relative ∨ rel.sym = 0 ∨ count ≤ rel.sym then
    some ⟨rel.type, rel.offset, rel.addend, .none⟩
  else do
    let sym ← record? buf (stab + rel.sym * elf64.symSize) elf64.symSize elf64.sym
    if sym.shndx ≠ shnUndef ∧ sym.value ≠ 0 then
      some ⟨rel.type, rel.offset, rel.addend, .symbol sym []⟩
    else do
      let name ← cstring? buf (str + sym.name)
      some ⟨rel.type, rel.offset, rel.addend, .symbol sym name⟩

/-- A section whose links lead outside the section table is passed over. -/
def relSec64? (h : Ehdr) (count : Nat) (sh : Shdr) : Option (List Relocation) :=
  if sh.link < h.shnum then do
    let stab ← shdrAt? elf64 buf h sh.link
    if stab.link < h.shnum then do
      let str ← shdrAt? elf64 buf h stab.link
      let rels ← table? buf sh.offset elf64.relSize (sh.size / elf64.relSize) elf64.rel
      rels.mapM (relocation64? buf count stab.offset str.offset)
    else some []
  else some []

def linkage64? (h : Ehdr) (shdrs : List Shdr) : Option (Option Linkage) := do
  match ← dynsym? elf64 buf h shdrs with
  | none => some none
  | some tab =>
    let symbols ← symbols? elf64 buf tab
    let relocations ← (relSecs elf64 shdrs).mapM (relSec64? buf h tab.count)
    some (some ⟨symbols, relocations.flatten⟩)

/-- What `load_elf64` takes from the file. Without section headers the loader stops after the
segments. -/
def parse64 : Option (Option Image) := do
  let h ← record? buf 0 elf64.ehdrSize elf64.ehdr
  if h.accepted elf64 then do
    let phdrs ← table? buf h.phoff elf64.phdrSize h.phnum elf64.phdr
    let segments ← (phdrs.filter isSegment64).mapM (segment64? buf)
    if h.shoff = 0 ∨ h.shnum = 0 then some (some ⟨segments, none, none, []⟩)
    else do
      let shdrs ← table? buf h.shoff elf64.shdrSize h.shnum elf64.shdr
      let linkage ← linkage64? buf h shdrs
      let dynamic ← dynamic? elf64 buf phdrs
      some (some ⟨segments, none, linkage, dynamic⟩)
  else some none

end Load64

end Lunaria.Elf
