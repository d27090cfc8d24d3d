/-
# Reading and writing within bounds

The loaders trust the library file: the offsets, counts, links and string indices in it are used
as they are, and so are the places of its relocations. This module says what a file has to be like
for a loader to read only inside it, and a library for a loader to write only inside the ranges it
records, apart from the stubs of the runtime.
-/

import Lunaria.Elf.Relocation64
import Lunaria.Process.Machine

namespace Lunaria.Elf

open Lib Buffer List Option

/-! ## Files that hold what they refer to -/

section Tables

variable (c : ElfClass) (file : List UInt8)

def ehdrOf : Ehdr := c.ehdr (view file) 0

def phdrsOf : List Phdr := rows file (ehdrOf c file).phoff c.phdrSize (ehdrOf c file).phnum c.phdr

def shdrOf (i : Nat) : Shdr := c.shdr (view file) ((ehdrOf c file).shoff + i * c.shdrSize)

def shdrsOf : List Shdr := rows file (ehdrOf c file).shoff c.shdrSize (ehdrOf c file).shnum c.shdr

def dynsymOf : Option Shdr := ((shdrsOf c file).filter (·.type = shtDynsym)).getLast?

def symsOf (sh : Shdr) : List Sym := rows file sh.offset c.symSize (sh.size / c.symSize) c.sym

def relsOf (sh : Shdr) : List Reloc := rows file sh.offset c.relSize (sh.size / c.relSize) c.rel

def HoldsShdr (i : Nat) : Prop :=
  (ehdrOf c file).shoff + i * c.shdrSize + c.shdrSize ≤ file.length

/-- A symbol table and the names in it. -/
structure HoldsSymbols (sh : Shdr) : Prop where
  table : HoldsTable file sh.offset c.symSize (sh.size / c.symSize)
  names : ∀ sym ∈ symsOf c file sh, Terminated file ((shdrOf c file sh.link).offset + sym.name)

/-- A relocation section, with the symbols the loader looks for and the names it reads. -/
structure HoldsRelocations (wanted : Reloc → Prop) (named : Reloc → Sym → Prop) (sh : Shdr) :
    Prop where
  symtab : HoldsShdr c file sh.link
  strtab : HoldsShdr c file (shdrOf c file sh.link).link
  table : HoldsTable file sh.offset c.relSize (sh.size / c.relSize)
  symbol : ∀ rel ∈ relsOf c file sh, wanted rel →
    (shdrOf c file sh.link).offset + rel.sym * c.symSize + c.symSize ≤ file.length
  name : ∀ rel ∈ relsOf c file sh, wanted rel →
    let sym := c.sym (view file) ((shdrOf c file sh.link).offset + rel.sym * c.symSize)
    named rel sym →
      Terminated file ((shdrOf c file (shdrOf c file sh.link).link).offset + sym.name)

/-- What the loader reads through the section headers, and the dynamic entries up to `DT_NULL`. -/
structure HoldsSections : Prop where
  shdrs : HoldsTable file (ehdrOf c file).shoff c.shdrSize (ehdrOf c file).shnum
  links : ∀ sh ∈ shdrsOf c file, sh.type = shtDynsym → HoldsShdr c file sh.link
  symbols : ∀ sh, dynsymOf c file = some sh → HoldsSymbols c file sh
  dynamic : ∀ ph, (phdrsOf c file).find? (·.type = ptDynamic) = some ph →
    ∃ n, ph.offset + (n + 1) * c.dynSize ≤ file.length ∧
      (c.dyn (view file) (ph.offset + n * c.dynSize)).tag = dtNull

end Tables

/-- `load_elf` looks at the symbol unless the relocation is `R_ARM_RELATIVE` or names none, and
reads the name of an import and of a function called through a slot. -/
def HoldsRelocations32 (file : List UInt8) (sh : Shdr) : Prop :=
  HoldsRelocations elf32 file (fun rel => rel.type ≠ rArmRelative ∧ rel.sym ≠ 0)
    (fun rel sym => sym.shndx = shnUndef ∨ rel.type = rArmJumpSlot) sh

/-- `load_elf64` compares the symbol with the number of them, and reads the name of an import and of
a symbol without a value. -/
def HoldsRelocations64 (file : List UInt8) (count : Nat) (sh : Shdr) : Prop :=
  HoldsRelocations elf64 file
    (fun rel => rel.type ≠ rAarch64Relative ∧ rel.sym ≠ 0 ∧ rel.sym < count)
    (fun _ sym => sym.shndx = shnUndef ∨ sym.value = 0) sh

/-- A 32-bit file that holds all that `load_elf` looks at. -/
structure Holds32 (file : List UInt8) : Prop where
  phdrs : HoldsTable file (ehdrOf elf32 file).phoff elf32.phdrSize (ehdrOf elf32 file).phnum
  /-- The end of a segment's bytes does not wrap around. -/
  segments : ∀ ph ∈ phdrsOf elf32 file, isSegment32 ph = true → ph.offset + ph.filesz < 2 ^ 32
  sections : HoldsSections elf32 file
  names : (ehdrOf elf32 file).shstrndx < (ehdrOf elf32 file).shnum →
    ∀ sh ∈ shdrsOf elf32 file, sh.type = shtProgbits →
      Terminated file ((shdrOf elf32 file (ehdrOf elf32 file).shstrndx).offset + sh.name)
  relocations : (dynsymOf elf32 file).isSome = true →
    ∀ sh ∈ relSecs elf32 (shdrsOf elf32 file), HoldsRelocations32 file sh

/-- A 64-bit file that holds all that `load_elf64` looks at. -/
structure Holds64 (file : List UInt8) : Prop where
  phdrs : HoldsTable file (ehdrOf elf64 file).phoff elf64.phdrSize (ehdrOf elf64 file).phnum
  segments : ∀ ph ∈ phdrsOf elf64 file, isSegment64 ph = true → ph.offset + ph.filesz < 2 ^ 64
  sections : (ehdrOf elf64 file).shoff ≠ 0 → (ehdrOf elf64 file).shnum ≠ 0 →
    HoldsSections elf64 file
  relocations : ∀ tab, dynsymOf elf64 file = some tab →
    ∀ sh ∈ relSecs elf64 (shdrsOf elf64 file), sh.link < (ehdrOf elf64 file).shnum →
      (shdrOf elf64 file sh.link).link < (ehdrOf elf64 file).shnum →
        HoldsRelocations64 file (tab.size / elf64.symSize) sh

/-! ## Reads -/

section Reads

variable {c : ElfClass} {file : List UInt8}

theorem ehdr?_eq_some (h : c.ehdrSize ≤ file.length) :
    record? file 0 c.ehdrSize c.ehdr = some (ehdrOf c file) :=
  record?_eq_some _ _ _ _ (by rwa [zero_add])

theorem shdrAt?_eq_some {i : Nat} (h : HoldsShdr c file i) :
    shdrAt? c file (ehdrOf c file) i = some (shdrOf c file i) :=
  record?_eq_some _ _ _ _ h

namespace HoldsSections

variable (h : HoldsSections c file)
include h

theorem shdrs? : table? file (ehdrOf c file).shoff c.shdrSize (ehdrOf c file).shnum c.shdr =
    some (shdrsOf c file) :=
  table?_eq_some _ _ _ _ h.shdrs

theorem dynsym? : Elf.dynsym? c file (ehdrOf c file) (shdrsOf c file) =
    some ((dynsymOf c file).map fun sh =>
      ⟨sh.offset, sh.size / c.symSize, (shdrOf c file sh.link).offset⟩) := by
  have htabs : ((shdrsOf c file).filter (·.type = shtDynsym)).mapM (fun sh => do
        let str ← shdrAt? c file (ehdrOf c file) sh.link
        some (⟨sh.offset, sh.size / c.symSize, str.offset⟩ : SymTab)) =
      some (((shdrsOf c file).filter (·.type = shtDynsym)).map fun sh =>
        ⟨sh.offset, sh.size / c.symSize, (shdrOf c file sh.link).offset⟩) := by
    apply mapM_eq_map
    intro sh hsh
    rw [mem_filter, decide_eq_true_eq] at hsh
    rw [shdrAt?_eq_some (h.links sh hsh.1 hsh.2)]
    rfl
  rw [Elf.dynsym?, htabs, dynsymOf, ← getLast?_map]
  rfl

theorem symbols?_isSome {sh : Shdr} (hsh : dynsymOf c file = some sh) :
    (symbols? c file ⟨sh.offset, sh.size / c.symSize, (shdrOf c file sh.link).offset⟩).isSome := by
  have hsymbols := h.symbols sh hsh
  rw [symbols?, table?_eq_some _ _ _ _ hsymbols.table]
  apply (mapM_isSome_iff ..).mpr
  intro sym hsym
  exact bind_isSome (cstring?_isSome _ _ (hsymbols.names sym hsym)) fun _ => rfl

theorem dynamic?_isSome (hsize : 0 < c.dynSize) : (dynamic? c file (phdrsOf c file)).isSome := by
  rw [dynamic?]
  cases hfind : (phdrsOf c file).find? (·.type = ptDynamic) with
  | none => rfl
  | some ph =>
    obtain ⟨n, hin, hnull⟩ := h.dynamic ph hfind
    have hle : n + 1 ≤ (n + 1) * c.dynSize := Nat.le_mul_of_pos_right _ hsize
    exact scan?_isSome file ph.offset c.dynSize c.dyn _ (by omega) hin (decide_eq_true hnull)

end HoldsSections

/-- A symbol inside the file, and its name where that is read. -/
theorem symbol?_isSome {α : Type} {a str : Nat} {p : Sym → Prop} [DecidablePred p] {f : Sym → α}
    {g : Sym → CStr → α} (hin : a + c.symSize ≤ file.length)
    (hname : ¬ p (c.sym (view file) a) → Terminated file (str + (c.sym (view file) a).name)) :
    (do
      let sym ← record? file a c.symSize c.sym
      if p sym then some (f sym) else do
        let name ← cstring? file (str + sym.name)
        some (g sym name)).isSome := by
  rw [record?_eq_some _ _ _ _ hin, bind_eq_bind, bind_some]
  split
  · rfl
  · rename_i hnamed
    exact bind_isSome (cstring?_isSome _ _ (hname hnamed)) fun _ => rfl

theorem segments?_isSome {acts : Phdr → Bool} {segment? : Phdr → Option Segment}
    (h : ∀ ph ∈ phdrsOf c file, acts ph = true → (segment? ph).isSome) :
    (((phdrsOf c file).filter acts).mapM segment?).isSome := by
  apply (mapM_isSome_iff ..).mpr
  intro ph hph
  rw [mem_filter] at hph
  exact h ph hph.1 hph.2

/-! ### `load_elf` -/

theorem segment32?_isSome {ph : Phdr} (h : ph.offset + ph.filesz < 2 ^ 32) :
    (segment32? file ph).isSome := by
  rw [segment32?]
  split
  · rename_i hguard
    have hend : ph.offset + ph.filesz ≤ file.length := by
      calc
        ph.offset + ph.filesz = u32 _ := (u32_of_lt h).symm
        _ ≤ u32 file.length := hguard.2
        _ ≤ file.length := Nat.mod_le ..
    exact bind_isSome (slice?_isSome file _ hend) fun _ => rfl
  · rfl

theorem dataAddr?_isSome {shstr : Nat} {shdrs : List Shdr}
    (h : ∀ sh ∈ shdrs, sh.type = shtProgbits → Terminated file (shstr + sh.name)) :
    (dataAddr? file shstr shdrs).isSome := by
  induction shdrs with
  | nil => rfl
  | cons sh shdrs ih =>
    have hrest := ih (forall_mem_cons.mp h).2
    rw [dataAddr?]
    split
    · rename_i hbits
      apply bind_isSome (cstring?_isSome _ _ (h sh mem_cons_self hbits))
      intro name
      split
      · rfl
      · exact hrest
    · exact hrest

theorem relocation32?_isSome {sh : Shdr} {rel : Reloc} (h : HoldsRelocations32 file sh)
    (hrel : rel ∈ relsOf elf32 file sh) : (relocation32? file (shdrOf elf32 file sh.link).offset
      (shdrOf elf32 file (shdrOf elf32 file sh.link).link).offset rel).isSome := by
  rw [relocation32?]
  split
  · rfl
  rename_i hwanted
  rw [not_or] at hwanted
  apply symbol?_isSome (h.symbol rel hrel hwanted)
  intro hnamed
  rw [not_and_or, not_not, not_not] at hnamed
  exact h.name rel hrel hwanted hnamed

theorem relSec32?_isSome {sh : Shdr} (h : HoldsRelocations32 file sh) :
    (relSec32? file (ehdrOf elf32 file) sh).isSome := by
  rw [relSec32?, shdrAt?_eq_some h.symtab]
  simp only [bind_eq_bind, bind_some]
  rw [shdrAt?_eq_some h.strtab, table?_eq_some _ _ _ _ h.table]
  exact (mapM_isSome_iff ..).mpr fun rel hrel => relocation32?_isSome h hrel

theorem linkage32?_isSome (h : Holds32 file) :
    (linkage32? file (ehdrOf elf32 file) (shdrsOf elf32 file)).isSome := by
  rw [linkage32?, h.sections.dynsym?]
  cases hdynsym : dynsymOf elf32 file with
  | none => rfl
  | some tab =>
    have hrels : ((relSecs elf32 (shdrsOf elf32 file)).mapM
        (relSec32? file (ehdrOf elf32 file))).isSome := by
      apply (mapM_isSome_iff ..).mpr
      intro sh hsh
      exact relSec32?_isSome (h.relocations (by rw [hdynsym]; rfl) sh hsh)
    apply bind_isSome (h.sections.symbols?_isSome hdynsym)
    intro symbols
    exact bind_isSome hrels fun _ => rfl

/-- **Reads of `load_elf`.** A file that holds what `load_elf` looks at is read inside its bounds.
-/
theorem parse32_isSome (hheader : elf32.ehdrSize ≤ file.length)
    (h : (ehdrOf elf32 file).accepted elf32 → Holds32 file) : (parse32 file).isSome := by
  rw [parse32, ehdr?_eq_some hheader]
  simp only [bind_eq_bind, bind_some]
  split
  · rename_i haccepted
    have h := h haccepted
    -- What comes behind the search for `.data`, whatever was found.
    have hrest : ∀ segments dataAddr, ((linkage32? file (ehdrOf elf32 file)
        (shdrsOf elf32 file)).bind fun linkage => (dynamic? elf32 file (phdrsOf elf32 file)).bind
          fun dynamic => some (some (⟨segments, dataAddr, linkage, dynamic⟩ : Image))).isSome =
            true := by
      intro segments dataAddr
      apply bind_isSome (linkage32?_isSome h)
      intro linkage
      exact bind_isSome (h.sections.dynamic?_isSome (by decide)) fun _ => rfl
    rw [table?_eq_some _ _ _ _ h.phdrs, h.sections.shdrs?]
    apply bind_isSome (segments?_isSome fun ph hph hacts =>
      segment32?_isSome (h.segments ph hph hacts))
    intro segments
    simp only [bind_some]
    split
    · rename_i hindex
      rw [shdrAt?_eq_some (h.sections.shdrs.row hindex), bind_some]
      exact bind_isSome (dataAddr?_isSome (h.names hindex)) (hrest segments)
    · exact hrest segments none
  · rfl

/-! ### `load_elf64` -/

theorem segment64?_isSome {ph : Phdr} (h : ph.offset + ph.filesz < 2 ^ 64) :
    (segment64? file ph).isSome := by
  rw [segment64?, Nat.mod_eq_of_lt h]
  split
  · rename_i hguard
    exact bind_isSome (slice?_isSome file _ hguard.2) fun _ => rfl
  · rfl

theorem relocation64?_isSome {count : Nat} {sh : Shdr} {rel : Reloc}
    (h : HoldsRelocations64 file count sh) (hrel : rel ∈ relsOf elf64 file sh) :
    (relocation64? file count (shdrOf elf64 file sh.link).offset
      (shdrOf elf64 file (shdrOf elf64 file sh.link).link).offset rel).isSome := by
  rw [relocation64?]
  split
  · rfl
  rename_i hwanted
  rw [not_or, not_or, not_le] at hwanted
  apply symbol?_isSome (h.symbol rel hrel hwanted)
  intro hnamed
  rw [not_and_or, not_not, not_not] at hnamed
  exact h.name rel hrel hwanted hnamed

theorem relSec64?_isSome {count : Nat} {sh : Shdr}
    (hshdrs : HoldsTable file (ehdrOf elf64 file).shoff elf64.shdrSize (ehdrOf elf64 file).shnum)
    (h : sh.link < (ehdrOf elf64 file).shnum →
      (shdrOf elf64 file sh.link).link < (ehdrOf elf64 file).shnum →
        HoldsRelocations64 file count sh) :
    (relSec64? file (ehdrOf elf64 file) count sh).isSome := by
  rw [relSec64?]
  split
  · rename_i hlink
    rw [shdrAt?_eq_some (hshdrs.row hlink)]
    simp only [bind_eq_bind, bind_some]
    split
    · rename_i hstr
      have hrels := h hlink hstr
      rw [shdrAt?_eq_some hrels.strtab, table?_eq_some _ _ _ _ hrels.table]
      exact (mapM_isSome_iff ..).mpr fun rel hrel => relocation64?_isSome hrels hrel
    · rfl
  · rfl

theorem linkage64?_isSome (h : Holds64 file) (hsections : HoldsSections elf64 file) :
    (linkage64? file (ehdrOf elf64 file) (shdrsOf elf64 file)).isSome := by
  rw [linkage64?, hsections.dynsym?]
  cases hdynsym : dynsymOf elf64 file with
  | none => rfl
  | some tab =>
    have hrels : ((relSecs elf64 (shdrsOf elf64 file)).mapM (relSec64? file (ehdrOf elf64 file)
        (tab.size / elf64.symSize))).isSome := by
      apply (mapM_isSome_iff ..).mpr
      intro sh hsh
      exact relSec64?_isSome hsections.shdrs (h.relocations tab hdynsym sh hsh)
    apply bind_isSome (hsections.symbols?_isSome hdynsym)
    intro symbols
    exact bind_isSome hrels fun _ => rfl

/-- **Reads of `load_elf64`.** -/
theorem parse64_isSome (hheader : elf64.ehdrSize ≤ file.length)
    (h : (ehdrOf elf64 file).accepted elf64 → Holds64 file) : (parse64 file).isSome := by
  rw [parse64, ehdr?_eq_some hheader]
  simp only [bind_eq_bind, bind_some]
  split
  · rename_i haccepted
    have h := h haccepted
    rw [table?_eq_some _ _ _ _ h.phdrs]
    apply bind_isSome (segments?_isSome fun ph hph hacts =>
      segment64?_isSome (h.segments ph hph hacts))
    intro segments
    split
    · rfl
    rename_i hsome
    rw [not_or] at hsome
    have hsections := h.sections hsome.1 hsome.2
    rw [hsections.shdrs?]
    apply bind_isSome (linkage64?_isSome h hsections)
    intro linkage
    exact bind_isSome (hsections.dynamic?_isSome (by decide)) fun _ => rfl
  · rfl

/-! ### Files turned away -/

theorem parse32_eq_none_iff (hheader : elf32.ehdrSize ≤ file.length) :
    parse32 file = some none ↔ (ehdrOf elf32 file).accepted elf32 = false := by
  simp only [parse32, ehdr?_eq_some hheader, bind_eq_bind, bind_some]
  cases (ehdrOf elf32 file).accepted elf32 with
  | false => simp
  | true =>
    rw [if_pos rfl]
    split <;> simp [bind_eq_some_iff]

theorem parse64_eq_none_iff (hheader : elf64.ehdrSize ≤ file.length) :
    parse64 file = some none ↔ (ehdrOf elf64 file).accepted elf64 = false := by
  simp only [parse64, ehdr?_eq_some hheader, bind_eq_bind, bind_some]
  cases (ehdrOf elf64 file).accepted elf64 with
  | false => simp
  | true =>
    rw [if_pos rfl]
    split <;> simp [bind_eq_some_iff]

end Reads

/-! ## Writes -/

/-- The entries `load_elf` and `load_elf64` make for a library. -/
def recordedRegions (base : Nat) (segs : List Segment) : List LoadedRegion :=
  (segs.filter (·.isLoad)).map (Segment.region base)

namespace Linker

variable {base : Nat} {k : Linker}

theorem mapSegments_loaded (base : Nat) (k : Linker) (segs : List Segment) :
    (k.mapSegments base segs).space.loaded = k.space.loaded ++ recordedRegions base segs := by
  induction segs generalizing k with
  | nil => simp [mapSegments, recordedRegions]
  | cons seg segs ih =>
    have hrest := ih (k.mapSegment base seg)
    have hstep : (k.mapSegment base seg).space.loaded =
        k.space.loaded ++ recordedRegions base [seg] := by
      simp only [mapSegment, Lunaria.mapSegment, recordedRegions, filter_cons, filter_nil]
      by_cases hload : seg.isLoad
      · rw [if_pos hload, if_pos hload]
        rfl
      · rw [if_neg hload, if_neg hload, map_nil, append_nil]
    rw [hstep, append_assoc, recordedRegions, recordedRegions, ← map_append,
      ← filter_append] at hrest
    exact hrest

theorem mapSegments_observe {segs : List Segment} {x : Nat}
    (hx : ∀ seg ∈ segs, x ∉ (copiedRange base seg).addresses) :
    (k.mapSegments base segs).observe x = k.observe x := by
  induction segs generalizing k with
  | nil => rfl
  | cons seg segs ih =>
    have hhead := hx seg mem_cons_self
    rw [Interval.mem_addresses, not_and_or, not_le, not_lt] at hhead
    have hstep : (k.mapSegment base seg).observe x = k.observe x := by
      apply observe_of_store [copiedRange base seg] rfl
      · exact ByteMemory.writeBytes_agreeOutside _ _ _ x hhead
      · exact not_inRanges_singleton hhead
    rw [← hstep]
    exact ih (forall_mem_cons.mp hx).2

end Linker

/-! ## Libraries that stay inside their segments -/

def segmentRange (base : Nat) (seg : Segment) : Interval :=
  ⟨u32 (base + seg.vaddr), u32 (base + seg.vaddr) + seg.memsz⟩

/-- An address in the memory of a `PT_LOAD` segment. -/
def InSegment (base : Nat) (image : Image) (x : Nat) : Prop :=
  ∃ seg ∈ image.segments, seg.isLoad = true ∧ x ∈ (segmentRange base seg).addresses

/-- The segments do not wrap around, and the bytes copied and the places relocated lie in the
memory of `PT_LOAD` segments. -/
structure StaysInside (base : Nat) (patched : Relocation → Interval) (image : Image) : Prop where
  fits : ∀ seg ∈ image.segments, seg.isLoad = true →
    u32 (base + seg.vaddr) + seg.memsz + 0xfff < 2 ^ 32
  copies : ∀ seg ∈ image.segments, ∀ x ∈ (copiedRange base seg).addresses, InSegment base image x
  places : ∀ r ∈ image.relocations, ∀ x ∈ (patched r).addresses, InSegment base image x

theorem StaysInside.recorded {base : Nat} {patched : Relocation → Interval} {image : Image}
    {x : Nat} (h : StaysInside base patched image) (hx : InSegment base image x) :
    ∃ region ∈ recordedRegions base image.segments, x ∈ region.span.addresses := by
  obtain ⟨seg, hseg, hload, hlo, hhi⟩ := hx
  refine ⟨seg.region base, ?_, ?_, ?_⟩
  · apply List.mem_map_of_mem
    exact mem_filter.mpr ⟨hseg, hload⟩
  · exact (roundDown_le ..).trans hlo
  -- Rounding up to a page does not wrap, so the range recorded reaches to the segment's end.
  have hfits := h.fits seg hseg hload
  have hhigh : x < u32 (base + seg.vaddr) + seg.memsz := hhi
  have hround := lt_roundDown_add (by decide : 0 < 4096)
    (u32 (base + seg.vaddr) + seg.memsz + 0xfff)
  change x < roundDown (u32 (u32 (base + seg.vaddr) + seg.memsz + 0xfff)) 4096
  rw [u32_of_lt hfits]
  omega

/-- The load records the `PT_LOAD` ranges, and writes a library that stays inside its segments to
those ranges and to stubs only. -/
structure KeepsInside (k : Linker) (base : Nat) (patched : Relocation → Interval)
    (stub : Nat → Prop) (image : Image) (loaded : Linker) : Prop where
  recorded : loaded.space.loaded = k.space.loaded ++ recordedRegions base image.segments
  written : StaysInside base patched image → ∀ x, Linker.InRanges loaded.writes x →
    (∃ region ∈ recordedRegions base image.segments, x ∈ region.span.addresses) ∨ stub x

section Loads

variable (L : Layout) (env : LinkEnv) (base : Nat) (k : Linker) {file : List UInt8}

def Linker.unlogged (k : Linker) : Linker := { k with writes := [] }

/-- Segments are mapped, then relocations applied: this keeps to the library if all else that the
relocations change is in stubs. -/
theorem KeepsInside.of_patching {k mapped : Linker} {base : Nat} {image : Image}
    {step : Linker → Relocation → Linker} {patched : Relocation → Interval}
    {scratch : Linker → Nat → Prop} {stub : Nat → Prop}
    (hpatching : Patching step Linker.observe patched scratch)
    (hmapped : mapped.observe = (k.unlogged.mapSegments base image.segments).observe)
    (hloaded : (run step mapped image.relocations).space.loaded =
      (k.unlogged.mapSegments base image.segments).space.loaded)
    (hstub : ∀ x, scratch (run step mapped image.relocations) x → stub x) :
    KeepsInside k base patched stub image (run step mapped image.relocations) where
  recorded := hloaded.trans (Linker.mapSegments_loaded base k.unlogged image.segments)
  written hinside x hx := by
    by_contra hout
    rw [not_or] at hout
    have hclear : (run step mapped image.relocations).observe x = k.unlogged.observe x := by
      rw [hpatching.run_frame, hmapped, Linker.mapSegments_observe]
      · intro seg hseg hin
        exact hout.1 (hinside.recorded (hinside.copies seg hseg x hin))
      · intro r hr hin
        exact hout.1 (hinside.recorded (hinside.places r hr x hin))
      · exact fun hin => hout.2 (hstub x hin)
    have hlog : Linker.InRanges (run step mapped image.relocations).writes x =
      Linker.InRanges [] x := congrArg Prod.snd hclear
    rw [hlog] at hx
    obtain ⟨r, hr, -⟩ := hx
    cases hr

theorem link32_keeps (image : Image) : KeepsInside k base (Linker.patched32 base)
    (Linker.StubByte32 L (k.excCxaThrow.length + image.relocations.length)) image
      (Linker.link32 L env k.unlogged base image) := by
  obtain ⟨dataStart, exports, heq⟩ := Linker.mapped32_eq k.unlogged base image
  apply KeepsInside.of_patching (Linker.patching32 L env base)
  · rw [heq]
    rfl
  · rw [(Linker.Extends.run (Linker.relocate32_extends L env base) _ image.relocations).loaded, heq]
  · exact fun x => .mono (Linker.link32_count L env k.unlogged base image)

theorem link64_keeps (image : Image) : KeepsInside k base (Linker.patched64 base)
    (Linker.StubByte64 L (k.unknownNames.length + image.relocations.length)) image
      (Linker.link64 L env k.unlogged base image) := by
  obtain ⟨exports, heq⟩ := Linker.mapped64_eq k.unlogged base image
  apply KeepsInside.of_patching (Linker.patching64 L env base)
  · rw [heq]
    rfl
  · rw [(Linker.Extends.run (Linker.relocate64_extends L env base) _ image.relocations).loaded, heq]
  · exact fun x => .mono (Linker.link64_count L env k.unlogged base image)

/-- The header of the file lies inside it, and so does what an accepted file refers to. -/
def Contained32 (file : List UInt8) : Prop :=
  elf32.ehdrSize ≤ file.length ∧ ((ehdrOf elf32 file).accepted elf32 = true → Holds32 file)

def Contained64 (file : List UInt8) : Prop :=
  elf64.ehdrSize ≤ file.length ∧ ((ehdrOf elf64 file).accepted elf64 = true → Holds64 file)

/-- The load reads inside the file, has a result exactly for an accepted one, and keeps to the
library. -/
def SafeLoad (accepted : Bool) (parsed : Option (Option Image)) (keeps : Image → Linker → Prop)
    (result : Option (Option Loaded)) : Prop :=
  ∃ outcome, result = some outcome ∧ outcome.isSome = accepted ∧
    ∀ loaded, outcome = some loaded → ∃ image, parsed = some (some image) ∧
      keeps image loaded.linker

theorem SafeLoad.of_parse {accepted : Bool} {parsed : Option (Option Image)}
    {keeps : Image → Linker → Prop} {load : Image → Loaded} (hread : parsed.isSome)
    (hrefused : parsed = some none ↔ accepted = false)
    (hkeeps : ∀ image, keeps image (load image).linker) :
    SafeLoad accepted parsed keeps (parsed.map fun image => image.map load) := by
  obtain ⟨outcome, rfl⟩ := isSome_iff_exists.mp hread
  cases outcome with
  | none =>
    refine ⟨none, rfl, (hrefused.mp rfl).symm, ?_⟩
    rintro loaded ⟨⟩
  | some image =>
    have haccepted : accepted = true := by
      rw [← Bool.not_eq_false, ← hrefused]
      rintro ⟨⟩
    refine ⟨some (load image), rfl, haccepted.symm, ?_⟩
    rintro loaded ⟨⟩
    exact ⟨image, rfl, hkeeps image⟩

/-- **Loader input safety.** Of every file that contains what its headers refer to, the loaders read
only bytes inside it; they turn away exactly other magic numbers, classes and machines; and a
library that stays inside its segments is written to the ranges they record and to stubs only. -/
theorem loaders_safe (file : List UInt8) :
    (Contained32 file → SafeLoad ((ehdrOf elf32 file).accepted elf32) (parse32 file)
      (fun image => KeepsInside k base (Linker.patched32 base)
        (Linker.StubByte32 L (k.excCxaThrow.length + image.relocations.length)) image)
      (loadElf L env base k.unlogged file)) ∧
    (Contained64 file → SafeLoad ((ehdrOf elf64 file).accepted elf64) (parse64 file)
      (fun image => KeepsInside k (u32 base) (Linker.patched64 (u32 base))
        (Linker.StubByte64 L (k.unknownNames.length + image.relocations.length)) image)
      (loadElf64 L env base k.unlogged file)) :=
  ⟨fun h => .of_parse (parse32_isSome h.1 h.2) (parse32_eq_none_iff h.1)
      (link32_keeps L env base k),
    fun h => .of_parse (parse64_isSome h.1 h.2) (parse64_eq_none_iff h.1)
      (link64_keeps L env (u32 base) k)⟩

end Loads

/-! ## Small files -/

open Linker

/-- A file that ends behind its header, which speaks of a program header there. -/
def truncatedFile : List UInt8 :=
  leBytes 4 elfMag ++ [1, 1, 1, 0, 0, 0, 0, 0, 0, 0, 0, 0] ++ [3, 40].flatMap (leBytes 2) ++
    [1, 0, 52, 0, 0].flatMap (leBytes 4) ++ [52, 32, 1, 40, 0, 0].flatMap (leBytes 2)

/-- The truncated file is read beyond its end; the library with its own `__cxa_throw` makes the
loader write a stub outside of it. -/
theorem truncatedFile_throwFile :
    ((ehdrOf elf32 truncatedFile).accepted elf32 = true ∧ loadElf (defaultLayout false) plainEnv
      0xa0000 (plainLinker false) truncatedFile = none) ∧
    ∃ loaded, loadElf (defaultLayout false) plainEnv 0xa0000 (plainLinker false) throwFile =
        some (some loaded) ∧ InRanges loaded.linker.writes 0x4100a080 ∧
      ¬ InRanges (loaded.linker.space.loaded.map (·.span)) 0x4100a080 := by
  have hfile : parse32 throwFile = some (some throwImage) := by decide +kernel
  refine ⟨⟨by decide +kernel, by rw [loadElf]; rfl⟩, _, loadElf_of_parse hfile, ?_, ?_⟩
  · decide +kernel
  · decide +kernel

instance holdsShdrDecidable (c : ElfClass) (file : List UInt8) (i : Nat) :
    Decidable (HoldsShdr c file i) :=
  inferInstanceAs (Decidable (_ ≤ _))

theorem plainFile_contained : Contained32 plainFile := by
  refine ⟨by decide +kernel, fun _ => ?_⟩
  have hdynsym : dynsymOf elf32 plainFile = some (shdrOf elf32 plainFile 1) := by decide +kernel
  have hdynamic : (phdrsOf elf32 plainFile).find? (·.type = ptDynamic) = none := by decide +kernel
  have hrels : relSecs elf32 (shdrsOf elf32 plainFile) = [shdrOf elf32 plainFile 3] := by
    decide +kernel
  refine ⟨by decide +kernel, by decide +kernel, ⟨by decide +kernel, by decide +kernel, ?_, ?_⟩,
    by decide +kernel, ?_⟩
  · intro sh hsh
    cases hdynsym.symm.trans hsh
    exact ⟨by decide +kernel, by decide +kernel⟩
  · intro ph hph
    cases hdynamic.symm.trans hph
  intro _ sh hsh
  rw [hrels, List.mem_singleton] at hsh
  subst hsh
  exact ⟨by decide +kernel, by decide +kernel, by decide +kernel, by decide +kernel,
    by decide +kernel⟩

theorem staysInside_of_single {base : Nat} {patched : Relocation → Interval} {seg : Segment}
    {image : Image} (hseg : image.segments = [seg]) (hload : seg.isLoad)
    (hfits : u32 (base + seg.vaddr) + seg.memsz + 0xfff < 2 ^ 32)
    (hcopy : seg.data.length ≤ seg.memsz)
    (hrels : ∀ r ∈ image.relocations, (patched r).Within (segmentRange base seg)) :
    StaysInside base patched image := by
  have hin : ∀ x ∈ (segmentRange base seg).addresses, InSegment base image x :=
    fun x hx => ⟨seg, hseg ▸ mem_singleton_self seg, hload, hx⟩
  refine ⟨?_, ?_, ?_⟩
  · intro seg' hseg' _
    rw [hseg, mem_singleton] at hseg'
    subst hseg'
    exact hfits
  · intro seg' hseg' x hx
    rw [hseg, mem_singleton] at hseg'
    subst hseg'
    exact hin x ⟨hx.1, hx.2.trans_le (Nat.add_le_add_left hcopy _)⟩
  · intro r hr x hx
    exact hin x ⟨(hrels r hr).1.trans hx.1, hx.2.trans_le (hrels r hr).2⟩

/-- A function and three relocations for it: `load_elf` keeps to the segment and to stubs, and
`load_elf64` turns it away. -/
theorem plainFile_safe :
    (∃ loaded, loadElf (defaultLayout false) plainEnv 0xa0000 (plainLinker false).unlogged
        plainFile = some (some loaded) ∧ ∀ x, InRanges loaded.linker.writes x →
      (∃ region ∈ recordedRegions 0xa0000 plainImage.segments, x ∈ region.span.addresses) ∨
        StubByte32 (defaultLayout false) 3 x) ∧
    loadElf64 (defaultLayout false) plainEnv 0xa0000 (plainLinker false).unlogged plainFile =
      some none := by
  have hplain : parse32 plainFile = some (some plainImage) := by decide +kernel
  have hforeign : (ehdrOf elf64 plainFile).accepted elf64 = false := by decide +kernel
  have hsafe := loaders_safe (defaultLayout false) plainEnv 0xa0000 (plainLinker false) plainFile
  constructor
  · obtain ⟨outcome, hload, hsome, hkeeps⟩ := hsafe.1 plainFile_contained
    cases outcome with
    | none => exact absurd hsome (by decide +kernel)
    | some loaded =>
      obtain ⟨image, himage, hinside⟩ := hkeeps loaded rfl
      cases hplain.symm.trans himage
      refine ⟨loaded, hload, hinside.written ?_⟩
      exact staysInside_of_single rfl rfl (by decide) (by decide) (by decide)
  · obtain ⟨outcome, hload, hsome, -⟩ := hsafe.2
      ⟨by decide +kernel, fun haccepted => absurd haccepted (by rw [hforeign]; decide)⟩
    rw [hforeign, isSome_eq_false_iff, isNone_iff_eq_none] at hsome
    rw [hload, hsome]

end Lunaria.Elf
