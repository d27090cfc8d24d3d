/-
# The ELF records the loaders read

The file headers, program headers, section headers, symbols, relocations and dynamic entries of
32-bit and 64-bit ELF, as far as `load_elf` and `load_elf64` look at them. Both classes have the
same records with fields of different width at different offsets, so a class is the list of its
decoders.
-/

import Lunaria.Lib.Buffer

namespace Lunaria.Elf

open Lib

/-- A string of the file: its bytes without the terminator. -/
abbrev CStr := List UInt8

/-- A string of the source. -/
def cstr (s : String) : CStr := s.toList.map fun c => UInt8.ofNat c.toNat

/-! ## Records -/

structure Ehdr where
  magic : Nat
  elfClass : Nat
  machine : Nat
  phoff : Nat
  shoff : Nat
  phnum : Nat
  shnum : Nat
  shstrndx : Nat
  deriving DecidableEq

structure Phdr where
  type : Nat
  offset : Nat
  vaddr : Nat
  filesz : Nat
  memsz : Nat
  flags : Nat
  deriving DecidableEq

structure Shdr where
  name : Nat
  type : Nat
  addr : Nat
  offset : Nat
  size : Nat
  link : Nat
  deriving DecidableEq

structure Sym where
  name : Nat
  value : Nat
  shndx : Nat
  deriving DecidableEq

/-- A relocation. `REL` entries have no addend of their own. -/
structure Reloc where
  offset : Nat
  sym : Nat
  type : Nat
  addend : Nat
  deriving DecidableEq

structure Dyn where
  tag : Nat
  val : Nat
  deriving DecidableEq

/-! ## Constants -/

/-- `"\x7fELF"` as a number. -/
def elfMag : Nat := 0x464c457f

def ptLoad : Nat := 1
def ptDynamic : Nat := 2
/-- `PT_ARM_EXIDX`. -/
def ptExidx : Nat := 0x70000001

def shtProgbits : Nat := 1
def shtRela : Nat := 4
def shtRel : Nat := 9
def shtDynsym : Nat := 11

def shnUndef : Nat := 0

def dtNull : Nat := 0
def dtInit : Nat := 12
def dtInitArray : Nat := 25
def dtInitArraySz : Nat := 27

def rArmAbs32 : Nat := 2
def rArmGlobDat : Nat := 21
def rArmJumpSlot : Nat := 22
def rArmRelative : Nat := 23

def rAarch64Abs64 : Nat := 257
def rAarch64Abs32 : Nat := 258
def rAarch64GlobDat : Nat := 1025
def rAarch64JumpSlot : Nat := 1026
def rAarch64Relative : Nat := 1027

/-! ## Classes -/

/-- The sizes and decoders of one class. -/
structure ElfClass where
  /-- `EI_CLASS` of the class. -/
  ident : Nat
  /-- The machine the loader of this class accepts. -/
  machine : Nat
  ehdrSize : Nat
  phdrSize : Nat
  shdrSize : Nat
  symSize : Nat
  relSize : Nat
  dynSize : Nat
  /-- The type of the relocation sections. -/
  relType : Nat
  ehdr : ByteMemory → Nat → Ehdr
  phdr : ByteMemory → Nat → Phdr
  shdr : ByteMemory → Nat → Shdr
  sym : ByteMemory → Nat → Sym
  rel : ByteMemory → Nat → Reloc
  dyn : ByteMemory → Nat → Dyn

/-- `Elf32_*` for `EM_ARM`. -/
def elf32 : ElfClass where
  ident := 1
  machine := 40
  ehdrSize := 52
  phdrSize := 32
  shdrSize := 40
  symSize := 16
  relSize := 8
  dynSize := 8
  relType := shtRel
  ehdr m a := ⟨m.readLE a 4, (m (a + 4)).toNat, m.readLE (a + 18) 2, m.readLE (a + 28) 4,
    m.readLE (a + 32) 4, m.readLE (a + 44) 2, m.readLE (a + 48) 2, m.readLE (a + 50) 2⟩
  phdr m a := ⟨m.readLE a 4, m.readLE (a + 4) 4, m.readLE (a + 8) 4, m.readLE (a + 16) 4,
    m.readLE (a + 20) 4, m.readLE (a + 24) 4⟩
  shdr m a := ⟨m.readLE a 4, m.readLE (a + 4) 4, m.readLE (a + 12) 4, m.readLE (a + 16) 4,
    m.readLE (a + 20) 4, m.readLE (a + 24) 4⟩
  sym m a := ⟨m.readLE a 4, m.readLE (a + 4) 4, m.readLE (a + 14) 2⟩
  rel m a := ⟨m.readLE a 4, m.readLE (a + 4) 4 / 2 ^ 8, m.readLE (a + 4) 4 % 2 ^ 8, 0⟩
  dyn m a := ⟨m.readLE a 4, m.readLE (a + 4) 4⟩

/-- `Elf64_*` for `EM_AARCH64`. -/
def elf64 : ElfClass where
  ident := 2
  machine := 183
  ehdrSize := 64
  phdrSize := 56
  shdrSize := 64
  symSize := 24
  relSize := 24
  dynSize := 16
  relType := shtRela
  ehdr m a := ⟨m.readLE a 4, (m (a + 4)).toNat, m.readLE (a + 18) 2, m.readLE (a + 32) 8,
    m.readLE (a + 40) 8, m.readLE (a + 56) 2, m.readLE (a + 60) 2, m.readLE (a + 62) 2⟩
  phdr m a := ⟨m.readLE a 4, m.readLE (a + 8) 8, m.readLE (a + 16) 8, m.readLE (a + 32) 8,
    m.readLE (a + 40) 8, m.readLE (a + 4) 4⟩
  shdr m a := ⟨m.readLE a 4, m.readLE (a + 4) 4, m.readLE (a + 16) 8, m.readLE (a + 24) 8,
    m.readLE (a + 32) 8, m.readLE (a + 40) 4⟩
  sym m a := ⟨m.readLE a 4, m.readLE (a + 8) 8, m.readLE (a + 6) 2⟩
  rel m a := ⟨m.readLE a 8, m.readLE (a + 8) 8 / 2 ^ 32, m.readLE (a + 8) 8 % 2 ^ 32,
    m.readLE (a + 16) 8⟩
  dyn m a := ⟨m.readLE a 8, m.readLE (a + 8) 8⟩

end Lunaria.Elf
