/-
# Relocations of 64-bit libraries

What `load_elf64` leaves in the doublewords its relocations name, compared with the AArch64 ELF
ABI: the guest base plus the addend for `R_AARCH64_RELATIVE`, and the address of the definition
plus the addend for `R_AARCH64_ABS64`, `R_AARCH64_GLOB_DAT` and `R_AARCH64_JUMP_SLOT`, whatever
was in place before. The loader adds the doubleword in place for `R_AARCH64_ABS64`, and it takes a
definition whose value is zero for an import. This module says exactly when that shows. The last
section is about names that several libraries define.
-/

import Lunaria.Elf.Relocation32

namespace Lunaria.Elf.Linker

open Lib List

variable {L : Layout} {env : LinkEnv} {base : Nat} {k k' linked : Linker} {r : Relocation}
  {sym : Sym} {name : CStr}

/-! ## One relocation -/

def place64 (base : Nat) (r : Relocation) : Nat := u32 (base + u32 r.offset)

/-- The number of bytes a relocation stores. -/
def width64 (type : Nat) : Nat :=
  if type = rAarch64Relative ∨ type = rAarch64GlobDat ∨ type = rAarch64JumpSlot ∨
      type = rAarch64Abs64 then 8
  else if type = rAarch64Abs32 then 4
  else 0

/-- The range a relocation may change. -/
def patched64 (base : Nat) (r : Relocation) : Interval :=
  ⟨place64 base r, place64 base r + width64 r.type⟩

theorem symbolVa64_handout (L : Layout) (env : LinkEnv) (guestBase : Nat) (sym : Sym)
    (name : CStr) : Handout (growing64 L) (symbolVa64 L env guestBase · sym name) := by
  unfold symbolVa64
  split
  · exact .pure _
  · exact resolveImport64_handout L env name

theorem unknownStub_count (L : Layout) (k : Linker) (name : CStr) :
    (unknownStub L k name).2.unknownNames.length ≤ k.unknownNames.length + 1 := by
  rw [unknownStub]
  split
  · exact Nat.le_succ _
  · split
    · exact Nat.le_succ _
    · exact (addStub_length L k name).le

theorem symbolVa64_count (L : Layout) (env : LinkEnv) (guestBase : Nat) (k : Linker) (sym : Sym)
    (name : CStr) : (symbolVa64 L env guestBase k sym name).2.unknownNames.length ≤
      k.unknownNames.length + 1 := by
  have hstay : k.unknownNames.length ≤ k.unknownNames.length + 1 := Nat.le_succ _
  rw [symbolVa64]
  split
  · exact hstay
  rw [resolveImport64]
  split
  · exact hstay
  obtain ⟨va, slIids, slNext, hdirect⟩ := lookupSymbolDirectVa_eq L env k name
  rw [hdirect]
  cases va with
  | succ va => exact hstay
  | zero =>
    simp only
    cases env.svc name with
    | some n => exact hstay
    | none =>
      have hcount := unknownStub_count L { k with slIids, slNext } name
      revert hcount
      generalize unknownStub L { k with slIids, slNext } name = found
      obtain ⟨slot, k'⟩ := found
      cases slot <;> exact id

section

variable (L : Layout) (env : LinkEnv) (base : Nat) (k : Linker) (r : Relocation)

/-- What a relocation does: some stubs, and then at most its own place. -/
theorem relocate64_cases : ∃ k', Extends L k k' ∧
      k'.unknownNames.length ≤ k.unknownNames.length + 1 ∧
      (∀ x, ¬ StubByte64 L k'.unknownNames.length x → k'.observe x = k.observe x) ∧
        (relocate64 L env base k r = k' ∨
          ∃ v, relocate64 L env base k r = k'.pokeLE (place64 base r) (width64 r.type) v) := by
  by_cases hrel : r.type = rAarch64Relative
  · have hwidth : width64 r.type = 8 := if_pos (.inl hrel)
    refine ⟨k, .refl L k, Nat.le_succ _, fun _ _ => rfl,
      .inr ⟨u64 (a64GuestVa base + r.addend), ?_⟩⟩
    rw [relocate64, if_pos hrel, hwidth]
    rfl
  cases href : r.ref with
  | none =>
    refine ⟨k, .refl L k, Nat.le_succ _, fun _ _ => rfl, .inl ?_⟩
    simp [relocate64, if_neg hrel, href]
  | symbol sym name =>
    have hbind := symbolVa64_handout L env (a64GuestVa base) sym name
    refine ⟨(symbolVa64 L env _ k sym name).2, hbind.grows k,
      symbolVa64_count L env _ k sym name, hbind.frame k, ?_⟩
    simp only [relocate64, if_neg hrel, href]
    split
    · have hwidth : width64 r.type = 8 := if_pos (by tauto)
      rw [hwidth]
      exact .inr ⟨_, rfl⟩
    split
    · have hwidth : width64 r.type = 8 := if_pos (by tauto)
      rw [hwidth]
      exact .inr ⟨_, rfl⟩
    split
    · rename_i habs
      have hwidth : width64 r.type = 4 := by
        rw [habs]
        rfl
      rw [hwidth]
      exact .inr ⟨_, rfl⟩
    · exact .inl rfl

theorem relocate64_extends : Extends L k (relocate64 L env base k r) := by
  obtain ⟨k', hgrows, -, -, heq | ⟨v, heq⟩⟩ := relocate64_cases L env base k r
  · exact heq ▸ hgrows
  · rw [heq]
    exact hgrows.trans (pokeLE_extends L k' ..)

theorem relocate64_count :
    (relocate64 L env base k r).unknownNames.length ≤ k.unknownNames.length + 1 := by
  obtain ⟨k', -, hcount, -, heq | ⟨v, heq⟩⟩ := relocate64_cases L env base k r
  · exact heq ▸ hcount
  · rw [heq]
    exact hcount

end

theorem patching64 (L : Layout) (env : LinkEnv) (base : Nat) :
    Patching (relocate64 L env base) observe (patched64 base)
      fun k => StubByte64 L k.unknownNames.length where
  grows k r x := .mono (relocate64_extends L env base k r).slotCount
  frame k r x hx hstub := by
    obtain ⟨k', -, -, hframe, heq | ⟨v, heq⟩⟩ := relocate64_cases L env base k r
    · rw [heq] at hstub ⊢
      exact hframe x hstub
    · rw [heq] at hstub ⊢
      rw [patched64, Interval.mem_addresses, not_and_or, not_le, not_lt] at hx
      rw [pokeLE_frame hx]
      exact hframe x hstub

/-! ## What the loader stores and what the ABI wants -/

def Valueless (sym : Sym) : Prop := sym.shndx ≠ shnUndef ∧ sym.value = 0
  deriving Decidable

/-- The address of the definition of a symbol. -/
def definitionVa64 (L : Layout) (env : LinkEnv) (base : Nat) (k : Linker) (sym : Sym)
    (name : CStr) : Nat :=
  if sym.shndx ≠ shnUndef then u64 (a64GuestVa base + sym.value)
  else (resolveImport64 L env k name).1

/-- A relocation that is about the address of a symbol. -/
def isSymbolic64 (type : Nat) : Bool :=
  type = rAarch64GlobDat || type = rAarch64JumpSlot || type = rAarch64Abs64

/-- The value the ABI wants, for the kinds of relocation a library has. -/
def abiValue64 (L : Layout) (env : LinkEnv) (base : Nat) (linked : Linker) (r : Relocation) :
    Option Nat :=
  if r.type = rAarch64Relative then some (u64 (a64GuestVa base + r.addend))
  else
    match r.ref with
    | .none => none
    | .symbol sym name =>
      if isSymbolic64 r.type then
        some (u64 (definitionVa64 L env base linked sym name + r.addend))
      else none

/-- The value the loader stores, given the doubleword in place before. -/
def storedValue64 (L : Layout) (env : LinkEnv) (base : Nat) (linked : Linker) (r : Relocation)
    (inPlace : Nat) : Nat :=
  if r.type = rAarch64Relative then u64 (a64GuestVa base + r.addend)
  else
    match r.ref with
    | .none => inPlace
    | .symbol sym name =>
      let symVa := (symbolVa64 L env (a64GuestVa base) linked sym name).1
      if r.type = rAarch64Abs64 then u64 (symVa + r.addend + inPlace)
      else u64 (symVa + r.addend)

/-- The loader's two slips do not show: the symbol is no definition with value zero (or its address
as an import makes up for it), and the doubleword in place is zero for `R_AARCH64_ABS64`. -/
def Unharmed (L : Layout) (env : LinkEnv) (base : Nat) (linked : Linker) (r : Relocation)
    (inPlace : Nat) : Prop :=
  ∀ sym name, r.ref = .symbol sym name →
    (r.type = rAarch64GlobDat ∨ r.type = rAarch64JumpSlot → Valueless sym →
      u64 (resolveImport64 L env linked name).1 = u64 (a64GuestVa base)) ∧
    (r.type = rAarch64Abs64 → if Valueless sym then
        u64 ((resolveImport64 L env linked name).1 + inPlace) = u64 (a64GuestVa base)
      else inPlace = 0)

theorem write64_read (k : Linker) (a v : Nat) : (k.write64 a v).mem.readLE a 8 = u64 v :=
  pokeLE_read k a 8 v

theorem u64_u64 (n : Nat) : u64 (u64 n) = u64 n := Nat.mod_mod n _

theorem symbolVa64_later (h : Extends L (symbolVa64 L env (a64GuestVa base) k sym name).2 linked) :
    (symbolVa64 L env (a64GuestVa base) k sym name).1 =
      (symbolVa64 L env (a64GuestVa base) linked sym name).1 :=
  ((symbolVa64_handout L env _ sym name).stable k linked h).symm

/-- What one relocation stores, in terms of any later state. -/
theorem relocate64_value (hlinked : Extends L (relocate64 L env base k r) linked)
    (hclear : ∀ i < 8, ¬ StubByte64 L linked.unknownNames.length (place64 base r + i))
    (hkind : (abiValue64 L env base linked r).isSome) :
    (relocate64 L env base k r).mem.readLE (place64 base r) 8 =
      storedValue64 L env base linked r (k.mem.readLE (place64 base r) 8) := by
  by_cases hrel : r.type = rAarch64Relative
  · rw [relocate64, if_pos hrel, storedValue64, if_pos hrel]
    exact (write64_read k ..).trans (u64_u64 _)
  rw [abiValue64, if_neg hrel] at hkind
  rw [storedValue64]
  cases href : r.ref with
  | none => simp [href] at hkind
  | symbol sym name =>
    simp only [relocate64, if_neg hrel, href] at hlinked hkind ⊢
    have hbind := symbolVa64_handout L env (a64GuestVa base) sym name
    by_cases habs : r.type = rAarch64Abs64
    · have hslot : ¬ (r.type = rAarch64GlobDat ∨ r.type = rAarch64JumpSlot) := by
        rw [habs]
        decide
      rw [if_neg hslot, if_pos habs] at hlinked ⊢
      have hbound := (pokeLE_extends L ..).trans hlinked
      -- Binding the symbol did not touch the doubleword in place.
      have hplace : (symbolVa64 L env (a64GuestVa base) k sym name).2.mem.readLE
          (place64 base r) 8 = k.mem.readLE (place64 base r) 8 := by
        apply ByteMemory.readLE_congr
        intro x hlo hhi
        apply congrArg Prod.fst (hbind.frame k x ?_)
        intro hstub
        exact Interval.not_of_offsets hclear hlo hhi (hstub.mono hbound.slotCount)
      rw [if_pos habs, ← symbolVa64_later hbound, ← hplace]
      exact (write64_read ..).trans (u64_u64 _)
    · have hslot : r.type = rAarch64GlobDat ∨ r.type = rAarch64JumpSlot := by
        by_contra hno
        simp [isSymbolic64, habs, not_or.mp hno] at hkind
      rw [if_pos hslot] at hlinked ⊢
      have hbound := (pokeLE_extends L ..).trans hlinked
      rw [if_neg habs, ← symbolVa64_later hbound]
      exact (write64_read ..).trans (u64_u64 _)

theorem symbolVa64_of_not_valueless (h : ¬ Valueless sym) :
    (symbolVa64 L env (a64GuestVa base) linked sym name).1 =
      definitionVa64 L env base linked sym name := by
  rw [symbolVa64, definitionVa64]
  by_cases hdefined : sym.shndx ≠ shnUndef
  · have hvalue : sym.value ≠ 0 := fun hzero => h ⟨hdefined, hzero⟩
    rw [if_pos ⟨hdefined, hvalue⟩, if_pos hdefined]
  · rw [if_neg fun hboth => hdefined hboth.1, if_neg hdefined]

theorem symbolVa64_of_valueless (h : Valueless sym) :
    symbolVa64 L env (a64GuestVa base) linked sym name = resolveImport64 L env linked name := by
  rw [symbolVa64, if_neg fun hboth => hboth.2 h.2]

theorem definitionVa64_of_valueless (h : Valueless sym) :
    definitionVa64 L env base linked sym name = u64 (a64GuestVa base) := by
  rw [definitionVa64, if_pos h.1, h.2, add_zero]

/-- For one symbol, what is stored is what the ABI wants exactly if the slips do not show. -/
theorem storedSymbol_iff {type addend inPlace : Nat} (hplace : inPlace < 2 ^ 64) :
    (isSymbolic64 type → (if type = rAarch64Abs64 then
        u64 ((symbolVa64 L env (a64GuestVa base) linked sym name).1 + addend + inPlace)
      else u64 ((symbolVa64 L env (a64GuestVa base) linked sym name).1 + addend)) =
        u64 (definitionVa64 L env base linked sym name + addend)) ↔
    (type = rAarch64GlobDat ∨ type = rAarch64JumpSlot → Valueless sym →
      u64 (resolveImport64 L env linked name).1 = u64 (a64GuestVa base)) ∧
    (type = rAarch64Abs64 → if Valueless sym then
        u64 ((resolveImport64 L env linked name).1 + inPlace) = u64 (a64GuestVa base)
      else inPlace = 0) := by
  by_cases habs : type = rAarch64Abs64
  · have hslot : ¬ (type = rAarch64GlobDat ∨ type = rAarch64JumpSlot) := by
      rw [habs]
      decide
    have hsymbolic : isSymbolic64 type := by simp [isSymbolic64, habs]
    simp only [hsymbolic, eq_true habs, true_implies, if_true]
    by_cases hvalue : Valueless sym
    · rw [if_pos hvalue, symbolVa64_of_valueless hvalue, definitionVa64_of_valueless hvalue]
      simp only [u64]
      omega
    · rw [if_neg hvalue, symbolVa64_of_not_valueless hvalue]
      simp only [u64]
      omega
  · simp only [habs, if_false, false_implies, and_true]
    by_cases hslot : type = rAarch64GlobDat ∨ type = rAarch64JumpSlot
    · have hsymbolic : isSymbolic64 type := by
        rcases hslot with h | h <;> simp [isSymbolic64, h]
      simp only [hsymbolic]
      by_cases hvalue : Valueless sym
      · rw [symbolVa64_of_valueless hvalue, definitionVa64_of_valueless hvalue]
        simp only [u64, hvalue, true_implies]
        omega
      · rw [symbolVa64_of_not_valueless hvalue]
        simp [hvalue]
    · have hsymbolic : isSymbolic64 type = false := by
        simp [isSymbolic64, habs, not_or.mp hslot]
      simp [hsymbolic, hslot]

/-- What is stored is what the ABI wants exactly if the slips do not show. -/
theorem stored_eq_abi_iff {inPlace : Nat} (hplace : inPlace < 2 ^ 64) :
    (∀ v, abiValue64 L env base linked r = some v → storedValue64 L env base linked r inPlace = v) ↔
        Unharmed L env base linked r inPlace := by
  by_cases hrel : r.type = rAarch64Relative
  · constructor
    · intro _ sym name _
      rw [hrel]
      exact ⟨fun hslot => absurd hslot (by decide), fun habs => absurd habs (by decide)⟩
    · intro _ v hv
      rw [abiValue64, if_pos hrel] at hv
      rw [storedValue64, if_pos hrel]
      exact Option.some.inj hv
  simp only [abiValue64, storedValue64, if_neg hrel, Unharmed]
  cases href : r.ref with
  | none => simp
  | symbol sym name =>
    constructor
    · rintro hstored sym' name' ⟨⟩
      apply (storedSymbol_iff hplace).mp
      intro hkind
      exact hstored _ (if_pos hkind)
    intro hunharmed v hv
    have hkind : isSymbolic64 r.type := by
      by_contra hno
      simp [hno] at hv
    simp only [if_pos hkind, Option.some.injEq] at hv
    rw [← hv]
    exact (storedSymbol_iff hplace).mpr (hunharmed sym name rfl) hkind

/-! ## What a loaded library looks like -/

/-- A library whose relocations have places of their own that are clear of the stubs the load may
build. -/
structure Relocatable64 (L : Layout) (k : Linker) (base : Nat) (image : Image) : Prop where
  apart : image.relocations.Pairwise fun r r' => (patched64 base r).Apart (patched64 base r')
  clear : ∀ r ∈ image.relocations, ∀ i < 8,
    ¬ StubByte64 L (k.unknownNames.length + image.relocations.length) (place64 base r + i)

theorem mapped64_unknownNames (k : Linker) (base : Nat) (image : Image) :
    (k.mapped64 base image).unknownNames = k.unknownNames := by
  obtain ⟨exports, heq⟩ := mapped64_eq k base image
  obtain ⟨space, writes, hmapped⟩ := mapSegments_eq base k image.segments
  rw [heq, hmapped]

theorem link64_count (L : Layout) (env : LinkEnv) (k : Linker) (base : Nat) (image : Image) :
    (link64 L env k base image).unknownNames.length ≤
      k.unknownNames.length + image.relocations.length := by
  rw [← mapped64_unknownNames k base image]
  exact run_measure_le (fun k => k.unknownNames.length) (relocate64_count L env base)
    (k.mapped64 base image) image.relocations

theorem width64_of_abi (h : (abiValue64 L env base linked r).isSome) : width64 r.type = 8 := by
  apply if_pos
  by_cases hrel : r.type = rAarch64Relative
  · exact .inl hrel
  rw [abiValue64, if_neg hrel] at h
  cases href : r.ref with
  | none => simp [href] at h
  | symbol sym name =>
    by_cases hkind : isSymbolic64 r.type
    · simp only [isSymbolic64, Bool.or_eq_true, decide_eq_true_eq] at hkind
      tauto
    · simp [href, hkind] at h

/-- The doubleword of a relocation after the load is what the loader stores for it. -/
theorem link64_value {image : Image} (hwf : Relocatable64 L k base image)
    (hr : r ∈ image.relocations)
    (hkind : (abiValue64 L env base (link64 L env k base image) r).isSome) :
    (link64 L env k base image).mem.readLE (place64 base r) 8 =
      storedValue64 L env base (link64 L env k base image) r
        ((k.mapped64 base image).mem.readLE (place64 base r) 8) := by
  have hrun : link64 L env k base image =
      run (relocate64 L env base) (k.mapped64 base image) image.relocations := rfl
  have hrange : patched64 base r = ⟨place64 base r, place64 base r + 8⟩ := by
    rw [patched64, width64_of_abi hkind]
  have hplaces : ∀ i < 8,
      ¬ StubByte64 L (link64 L env k base image).unknownNames.length (place64 base r + i) :=
    fun i hi hstub => hwf.clear r hr i hi (hstub.mono (link64_count L env k base image))
  have hpatching : Patching (relocate64 L env base) mem (patched64 base) _ :=
    (patching64 L env base).map Prod.fst
  obtain ⟨before, after, hlinked, hplace, hfinal⟩ :=
    hpatching.run_readLE (hwf.apart.imp Interval.Apart.misses) hr hrange hplaces
  rw [← hplace]
  refine hfinal.trans (relocate64_value ?_ hplaces hkind)
  rw [hrun, hlinked]
  exact .run (relocate64_extends L env base) _ after

open Buffer in
/-- A shared object with one symbol, relocations that name it, and a data segment at `0x1000`. -/
def sharedObject64 (sym : Sym) (name : CStr) (rels : List (Nat × Nat × Nat))
    (doublewords : List Nat) : List UInt8 :=
  let strOff := 424 + 24 * rels.length
  let dataOff := strOff + name.length + 2
  let size := 8 * doublewords.length
  let half := fun fields => fields.flatMap (leBytes 2)
  let word := fun fields => fields.flatMap (leBytes 4)
  let double := fun fields => fields.flatMap (leBytes 8)
  let shdr := fun type offset size link =>
    word [0, type] ++ double [0, 0, offset, size] ++ word [link, 0] ++ double [0, 0]
  word [elfMag] ++ [2, 1, 1, 0, 0, 0, 0, 0, 0, 0, 0, 0] ++ half [3, 183] ++ word [1] ++
    double [0, 64, 120] ++ word [0] ++ half [64, 56, 1, 64, 4, 0xffff] ++
  word [ptLoad, 6] ++ double [dataOff, 0x1000, 0x1000, size, size, 0x1000] ++
  shdr 0 0 0 0 ++ shdr shtDynsym 376 48 2 ++ shdr 3 strOff (name.length + 2) 0 ++
    shdr shtRela 424 (24 * rels.length) 1 ++
  List.replicate 24 0 ++ word [1] ++ [0x12, 0] ++ half [sym.shndx] ++ double [sym.value, 0] ++
  rels.flatMap (fun rel => double [rel.1, 2 ^ 32 + rel.2.1, rel.2.2]) ++ [0] ++ name ++ [0] ++
  double doublewords

/-- A library with a function at `0x1008` and a pointer to it at `0x1000`, where the file has some
number. -/
def pointerFile (inPlace : Nat) : List UInt8 :=
  sharedObject64 ⟨1, 0x1008, 5⟩ (cstr "f") [(0x1000, rAarch64Abs64, 0)] [inPlace, 9]

def pointerRelocation : Relocation := ⟨rAarch64Abs64, 0x1000, 0, .symbol ⟨1, 0x1008, 5⟩ []⟩

def pointerImage (inPlace : UInt8) : Image :=
  ⟨[⟨0x1000, 16, 6, [inPlace, 0, 0, 0, 0, 0, 0, 0, 9, 0, 0, 0, 0, 0, 0, 0], true⟩], none,
    some ⟨[([], ⟨0, 0, 0⟩), (cstr "f", ⟨1, 0x1008, 5⟩)], [pointerRelocation]⟩, []⟩

section

variable (L : Layout) (env : LinkEnv) (bias wrap : Nat) (name : CStr)

/-- The address under which a library exports a name. -/
def definition (symbols : List (CStr × Sym)) : Option Nat :=
  (symbols.find? fun s => s.1 = name ∧ name ≠ [] ∧ s.2.shndx ≠ shnUndef ∧ s.2.value ≠ 0).map
    fun s => (bias + s.2.value) % wrap

theorem exportSymbols_lookup (k : Linker) (symbols : List (CStr × Sym)) :
    (k.exportSymbols bias wrap symbols).exports.lookup name =
      (k.exports.lookup name).or (definition bias wrap name symbols) := by
  induction symbols generalizing k with
  | nil => simp [exportSymbols, definition]
  | cons s symbols ih =>
    obtain ⟨n, sym⟩ := s
    rw [exportSymbols, foldl_cons, ← exportSymbols, ih, definition, definition, find?_cons]
    by_cases hname : n = name
    · -- an entry of this name is added exactly when there was none
      cases hlookup : k.exports.lookup name <;> grind
    · grind

/-- A table that every load extends has the names of the first load that has them. -/
theorem run_lookup {load : Linker → Nat × Image → Linker} {defined : Nat × Image → Option Nat}
    (hload : ∀ k lib, (load k lib).exports.lookup name = (k.exports.lookup name).or (defined lib))
    (k : Linker) (libs : List (Nat × Image)) : (run load k libs).exports.lookup name =
      (k.exports.lookup name).or (libs.findSome? defined) := by
  induction libs generalizing k with
  | nil => simp
  | cons lib libs ih =>
    rw [run_cons, ih, hload, Option.or_assoc, findSome?_cons]
    cases defined lib <;> rfl

/-- **The first library wins** in the table of imports and `dlsym`, after any sequence of loads. -/
theorem first_library_wins (k : Linker) (libs : List (Nat × Image)) :
    (run (fun k lib => link32 L env k lib.1 lib.2) k libs).exports.lookup name =
        (k.exports.lookup name).or (libs.findSome? fun lib =>
          definition lib.1 (2 ^ 32) name lib.2.symbols) ∧
      (run (fun k lib => link64 L env k lib.1 lib.2) k libs).exports.lookup name =
        (k.exports.lookup name).or (libs.findSome? fun lib =>
          definition (a64GuestVa lib.1) (2 ^ 64) name lib.2.symbols) := by
  constructor
  · refine run_lookup name (fun k lib => ?_) k libs
    have hlinked : Extends L (k.mapped32 lib.1 lib.2) (link32 L env k lib.1 lib.2) :=
      .run (relocate32_extends L env lib.1) _ _
    obtain ⟨space, writes, hmapped⟩ := mapSegments_eq lib.1 k lib.2.segments
    rw [hlinked.exports, mapped32, exportSymbols_lookup, hmapped]
  · refine run_lookup name (fun k lib => ?_) k libs
    have hlinked : Extends L (k.mapped64 lib.1 lib.2) (link64 L env k lib.1 lib.2) :=
      .run (relocate64_extends L env lib.1) _ _
    obtain ⟨space, writes, hmapped⟩ := mapSegments_eq lib.1 k lib.2.segments
    rw [hlinked.exports, mapped64, exportSymbols_lookup, hmapped]

end

end Lunaria.Elf.Linker
