/-
# Relocations of 32-bit libraries

What `load_elf` leaves in the words its relocations name, compared with the ARM ELF ABI: the load
base plus the word in place for `R_ARM_RELATIVE`, the address of the definition for
`R_ARM_JUMP_SLOT` and `R_ARM_GLOB_DAT`, and that address plus the word in place for `R_ARM_ABS32`.
The runtime deviates on purpose where it binds a name to a stub of its own, and it drops the word in
place when an `R_ARM_ABS32` names an import.
-/

import Lunaria.Elf.Binding

namespace Lunaria.Elf

open Lib Option

namespace Linker

variable {L : Layout} {env : LinkEnv} {base : Nat} {k k' : Linker} {r : Relocation} {sym : Sym}
  {name : CStr}

/-! ## One relocation -/

/-- The kinds of relocation `load_elf` knows. -/
def isKind32 (type : Nat) : Bool :=
  type = rArmRelative || type = rArmJumpSlot || type = rArmGlobDat || type = rArmAbs32

def place32 (base : Nat) (r : Relocation) : Nat := u32 (base + r.offset)

/-- The range a relocation may change. -/
def patched32 (base : Nat) (r : Relocation) : Interval :=
  if isKind32 r.type then ⟨place32 base r, place32 base r + 4⟩ else ⟨0, 0⟩

/-- The address a relocation of some type binds its symbol to. -/
def bind32 (L : Layout) (env : LinkEnv) (base type : Nat) (sym : Sym) (name : CStr)
    (k : Linker) : Nat × Linker :=
  if sym.shndx ≠ shnUndef then
    if type = rArmJumpSlot ∧ name = cstr "__cxa_throw" then k.cxaThrowStub (u32 (base + sym.value))
    else (u32 (base + sym.value), k)
  else resolveImport32 L env k name

theorem bind32_handout (L : Layout) (env : LinkEnv) (base type : Nat) (sym : Sym) (name : CStr) :
    Handout (growing32 L) (bind32 L env base type sym name) := by
  unfold bind32
  split
  · split
    · exact cxaThrowStub_handout L _
    · exact .pure _
  · exact resolveImport32_handout L env name

theorem relocate32_relative (h : r.type = rArmRelative) : relocate32 L env base k r =
      if base ≠ 0 then k.write32 (place32 base r) (u32 (k.mem.read32 (place32 base r) + base))
      else k := by
  simp only [relocate32, if_pos h]
  rfl

/-- A relocation with a symbol binds the symbol and then stores, if it stores at all, to its own
word. -/
theorem relocate32_symbol (h : r.type ≠ rArmRelative) (href : r.ref = .symbol sym name) :
    relocate32 L env base k r =
      let s := bind32 L env base r.type sym name k
      if r.type = rArmJumpSlot ∨ r.type = rArmGlobDat then s.2.write32 (place32 base r) s.1
      else if r.type = rArmAbs32 then
        s.2.write32 (place32 base r)
          (if sym.shndx ≠ shnUndef then u32 (s.2.mem.read32 (place32 base r) + s.1) else s.1)
      else s.2 := by
  simp only [relocate32, if_neg h, href, bind32]
  by_cases hdefined : sym.shndx ≠ shnUndef
  · simp only [if_pos hdefined]
    by_cases hthrow : r.type = rArmJumpSlot ∧ name = cstr "__cxa_throw"
    · simp only [if_pos hthrow, if_pos (Or.inl hthrow.1)]
      rfl
    · simp only [if_neg hthrow]
      rfl
  simp only [if_neg hdefined]
  by_cases hslot : r.type = rArmJumpSlot ∨ r.type = rArmGlobDat
  · have hkind : r.type = rArmJumpSlot ∨ r.type = rArmGlobDat ∨ r.type = rArmAbs32 := by tauto
    simp only [if_pos hslot, if_pos hkind]
    rfl
  simp only [if_neg hslot]
  by_cases habs : r.type = rArmAbs32
  · simp only [if_pos habs, if_pos (Or.inr (Or.inr habs))]
    rfl
  · have hkind : ¬ (r.type = rArmJumpSlot ∨ r.type = rArmGlobDat ∨ r.type = rArmAbs32) := by
      tauto
    simp [if_neg habs, if_neg hkind]

/-! ## At most one new stub each -/

theorem cxaThrowStub_count (k : Linker) (real : Nat) :
    (k.cxaThrowStub real).2.excCxaThrow.length ≤ k.excCxaThrow.length + 1 := by
  rw [cxaThrowStub]
  split <;> simp

theorem resolveImport32_count (L : Layout) (env : LinkEnv) (k : Linker) (name : CStr) :
    (resolveImport32 L env k name).2.excCxaThrow.length ≤ k.excCxaThrow.length + 1 := by
  have hstay : k.excCxaThrow.length ≤ k.excCxaThrow.length + 1 := Nat.le_succ _
  rw [resolveImport32]
  split
  · split
    · rw [excFromNameStub]
      split <;> exact hstay
    split
    · rw [excRaiseStub]
      split <;> exact hstay
    split
    · exact cxaThrowStub_count k _
    · split
      · rw [buildMjivStub]
        split <;> exact hstay
      · exact hstay
  · obtain ⟨va, slIids, slNext, hdirect⟩ := lookupSymbolDirectVa_eq L env k name
    rw [hdirect]
    cases va with
    | zero | succ _ => exact hstay

section

variable (L : Layout) (env : LinkEnv) (base : Nat)

theorem bind32_count (type : Nat) (sym : Sym) (name : CStr) (k : Linker) :
    (bind32 L env base type sym name k).2.excCxaThrow.length ≤ k.excCxaThrow.length + 1 := by
  rw [bind32]
  split
  · split
    · exact cxaThrowStub_count k _
    · exact Nat.le_succ _
  · exact resolveImport32_count L env k name

/-! ## All relocations -/

/-- What a relocation does: some stubs, and then at most its own word. -/
theorem relocate32_cases (k : Linker) (r : Relocation) : ∃ k', Extends L k k' ∧
      k'.excCxaThrow.length ≤ k.excCxaThrow.length + 1 ∧
      (∀ x, ¬ StubByte32 L k'.excCxaThrow.length x → k'.observe x = k.observe x) ∧
        (relocate32 L env base k r = k' ∨
          isKind32 r.type ∧ ∃ v, relocate32 L env base k r = k'.write32 (place32 base r) v) := by
  by_cases hrel : r.type = rArmRelative
  · refine ⟨k, .refl L k, Nat.le_succ _, fun _ _ => rfl, ?_⟩
    rw [relocate32_relative hrel]
    split
    · exact .inr ⟨by simp [isKind32, hrel], _, rfl⟩
    · exact .inl rfl
  cases href : r.ref with
  | none =>
    refine ⟨k, .refl L k, Nat.le_succ _, fun _ _ => rfl, .inl ?_⟩
    simp [relocate32, if_neg hrel, href]
  | symbol sym name =>
    have hbind := bind32_handout L env base r.type sym name
    refine ⟨(bind32 L env base r.type sym name k).2, hbind.grows k,
      bind32_count L env base r.type sym name k, hbind.frame k, ?_⟩
    rw [relocate32_symbol hrel href]
    split
    · rename_i hslot
      exact .inr ⟨by rcases hslot with h | h <;> simp [isKind32, h], _, rfl⟩
    · split
      · rename_i habs
        exact .inr ⟨by simp [isKind32, habs], _, rfl⟩
      · exact .inl rfl

theorem relocate32_extends (k : Linker)
    (r : Relocation) : Extends L k (relocate32 L env base k r) := by
  obtain ⟨k', hgrows, -, -, heq | ⟨-, v, heq⟩⟩ := relocate32_cases L env base k r
  · exact heq ▸ hgrows
  · rw [heq]
    exact hgrows.trans { Extends.refl L k' with }

theorem relocate32_count (k : Linker) (r : Relocation) :
    (relocate32 L env base k r).excCxaThrow.length ≤ k.excCxaThrow.length + 1 := by
  obtain ⟨k', -, hcount, -, heq | ⟨-, v, heq⟩⟩ := relocate32_cases L env base k r
  · exact heq ▸ hcount
  · rw [heq]
    exact hcount

theorem patching32 : Patching (relocate32 L env base) observe (patched32 base)
      fun k => StubByte32 L k.excCxaThrow.length where
  grows k r x := .mono (relocate32_extends L env base k r).cxaCount
  frame k r x hx hstub := by
    obtain ⟨k', -, -, hframe, heq | ⟨hkind, v, heq⟩⟩ := relocate32_cases L env base k r
    · rw [heq] at hstub ⊢
      exact hframe x hstub
    · rw [heq] at hstub ⊢
      rw [patched32, if_pos hkind, Interval.mem_addresses, not_and_or, not_le, not_lt] at hx
      rw [write32, pokeLE_frame hx]
      exact hframe x hstub

end

/-! ## The address of the definition -/

/-- The address of the definition of a symbol: in this library, in an earlier one, at a fixed
place of the runtime, or a trampoline. -/
def definitionVa32 (L : Layout) (env : LinkEnv) (base : Nat) (k : Linker) (sym : Sym)
    (name : CStr) : Nat :=
  if sym.shndx ≠ shnUndef then u32 (base + sym.value)
  else
    match k.exports.lookup name with
    | some va => va
    | none =>
      match (lookupSymbolDirectVa L env k name).1 with
      | 0 => tramp L ((env.svc name).getD svcUnknownCall)
      | va => va

/-- The runtime binds the symbol to a stub of its own: `__cxa_throw`, two functions of mono when
exceptions are traced, and `mono_jit_init_version`. -/
def Interposed (env : LinkEnv) (k : Linker) (type : Nat) (sym : Sym) (name : CStr) : Prop :=
  (sym.shndx ≠ shnUndef ∧ type = rArmJumpSlot ∧ name = cstr "__cxa_throw") ∨
    (sym.shndx = shnUndef ∧ (k.exports.lookup name).isSome = true ∧
      (env.traceExc = true ∧ (name = cstr "mono_exception_from_name_msg" ∨
          name = cstr "mono_raise_exception") ∨
        name = cstr "__cxa_throw" ∨ name = cstr "mono_jit_init_version" ∧ env.mjivWrap = true))
  deriving Decidable

/-- A symbol without a stub is bound to its definition, as any later state has it. -/
theorem bind32_plain {type : Nat} (hplain : ¬ Interposed env k' type sym name)
    (h : Extends L (bind32 L env base type sym name k).2 k') :
    (bind32 L env base type sym name k).1 = definitionVa32 L env base k' sym name := by
  rw [← (bind32_handout L env base type sym name).stable k k' h]
  by_cases hdefined : sym.shndx ≠ shnUndef
  · rw [bind32, definitionVa32, if_pos hdefined, if_pos hdefined,
      if_neg fun hthrow => hplain (.inl ⟨hdefined, hthrow⟩)]
  simp only [bind32, definitionVa32, if_neg hdefined, resolveImport32]
  cases hlookup : k'.exports.lookup name with
  | some va =>
    have hbare (hwrapped : env.traceExc ∧ (name = cstr "mono_exception_from_name_msg" ∨
        name = cstr "mono_raise_exception") ∨ name = cstr "__cxa_throw" ∨
          name = cstr "mono_jit_init_version" ∧ env.mjivWrap) : False :=
      hplain (.inr ⟨not_not.mp hdefined, by simp [hlookup], hwrapped⟩)
    simp only
    rw [if_neg fun hname => hbare (.inl ⟨hname.1, .inl hname.2⟩),
      if_neg fun hname => hbare (.inl ⟨hname.1, .inr hname.2⟩),
      if_neg fun hname => hbare (.inr (.inl hname)),
      if_neg fun hname => hbare (.inr (.inr hname))]
  | none =>
    obtain ⟨va, slIids, slNext, hdirect⟩ := lookupSymbolDirectVa_eq L env k' name
    rw [hdirect]
    cases va with
    | zero | succ _ => rfl

/-! ## What a loaded library looks like -/

/-- A library whose relocations have words of their own that are clear of the stubs the load may
build. -/
structure Relocatable32 (L : Layout) (k : Linker) (base : Nat) (image : Image) : Prop where
  apart : image.relocations.Pairwise fun r r' => (patched32 base r).Apart (patched32 base r')
  clear : ∀ r ∈ image.relocations, ∀ i < 4,
    ¬ StubByte32 L (k.excCxaThrow.length + image.relocations.length) (place32 base r + i)

/-- The value the ABI wants, given the word in place before; nothing is said of a symbol with a stub
and of an import's `R_ARM_ABS32`. -/
def relocated32 (L : Layout) (env : LinkEnv) (base : Nat) (linked : Linker) (r : Relocation)
    (inPlace : Nat) : Option Nat :=
  if r.type = rArmRelative then some (u32 (base + inPlace))
  else
    match r.ref with
    | .none => none
    | .symbol sym name =>
      if Interposed env linked r.type sym name then none
      else if r.type = rArmJumpSlot ∨ r.type = rArmGlobDat then
        some (u32 (definitionVa32 L env base linked sym name))
      else if r.type = rArmAbs32 ∧ sym.shndx ≠ shnUndef then
        some (u32 (definitionVa32 L env base linked sym name + inPlace))
      else none

theorem write32_read (k : Linker) (a v : Nat) : (k.write32 a v).mem.read32 a = u32 v :=
  pokeLE_read k a 4 v

/-- What one relocation writes, in terms of any later state. -/
theorem relocate32_value {linked : Linker} {v : Nat}
    (hlinked : Extends L (relocate32 L env base k r) linked)
    (hclear : ∀ i < 4, ¬ StubByte32 L linked.excCxaThrow.length (place32 base r + i))
    (hv : relocated32 L env base linked r (k.mem.read32 (place32 base r)) = some v) :
    (relocate32 L env base k r).mem.read32 (place32 base r) = v := by
  rw [relocated32] at hv
  by_cases hrel : r.type = rArmRelative
  · rw [if_pos hrel, some.injEq] at hv
    subst hv
    rw [relocate32_relative hrel]
    split
    · rw [write32_read, u32_u32, add_comm]
    · rename_i hzero
      rw [not_not.mp hzero, zero_add]
      exact (u32_of_lt (ByteMemory.readLE_lt _ _ 4)).symm
  rw [if_neg hrel] at hv
  cases href : r.ref with
  | none => simp [href] at hv
  | symbol sym name =>
    simp only [href] at hv
    rw [relocate32_symbol hrel href] at hlinked ⊢
    have hbind := bind32_handout L env base r.type sym name
    by_cases hplain : Interposed env linked r.type sym name
    · simp [hplain] at hv
    rw [if_neg hplain] at hv
    by_cases hslot : r.type = rArmJumpSlot ∨ r.type = rArmGlobDat
    · rw [if_pos hslot] at hlinked hv ⊢
      rw [write32_read, bind32_plain hplain ((pokeLE_extends L ..).trans hlinked)]
      exact some.inj hv
    rw [if_neg hslot] at hlinked hv ⊢
    by_cases habs : r.type = rArmAbs32 ∧ sym.shndx ≠ shnUndef
    · rw [if_pos habs.1, if_pos habs.2] at hlinked ⊢
      rw [if_pos habs, some.injEq] at hv
      have hbound :=
        (pokeLE_extends L ..).trans hlinked
      -- Binding the symbol did not touch the word in place.
      have hplace : (bind32 L env base r.type sym name k).2.mem.read32 (place32 base r) =
          k.mem.read32 (place32 base r) := by
        apply ByteMemory.readLE_congr
        intro x hlo hhi
        apply congrArg Prod.fst (hbind.frame k x ?_)
        intro hstub
        exact Interval.not_of_offsets hclear hlo hhi (hstub.mono hbound.cxaCount)
      rw [write32_read, hplace, bind32_plain hplain hbound, ← hv, u32_u32, add_comm]
    · simp [habs] at hv

theorem mapped32_cxaThrow (k : Linker) (base : Nat) (image : Image) :
    (k.mapped32 base image).excCxaThrow = k.excCxaThrow := by
  obtain ⟨dataStart, exports, heq⟩ := mapped32_eq k base image
  obtain ⟨space, writes, hmapped⟩ := mapSegments_eq base k image.segments
  rw [heq, hmapped]

theorem link32_count (L : Layout) (env : LinkEnv) (k : Linker) (base : Nat) (image : Image) :
    (link32 L env k base image).excCxaThrow.length ≤
      k.excCxaThrow.length + image.relocations.length := by
  rw [← mapped32_cxaThrow k base image]
  exact run_measure_le (fun k => k.excCxaThrow.length) (relocate32_count L env base)
    (k.mapped32 base image) image.relocations

/-- **Relocations of 32-bit libraries.** `load_elf` leaves in the word of every relocation what the
ABI wants, unless the runtime binds the symbol to a stub of its own, and changes no other byte
outside the stubs. -/
theorem relocated32_of_loadElf (L : Layout) (env : LinkEnv) (k : Linker) (base : Nat)
    (file : List UInt8) (image : Image) (hfile : parse32 file = some (some image))
    (hwf : Relocatable32 L k base image) :
    ∃ loaded, loadElf L env base k file = some (some loaded) ∧
      (∀ r ∈ image.relocations, ∀ v, relocated32 L env base loaded.linker r
            ((k.mapped32 base image).mem.read32 (place32 base r)) = some v →
          loaded.linker.mem.read32 (place32 base r) = v) ∧
      ∀ x, (∀ r ∈ image.relocations, x ∉ (patched32 base r).addresses) →
        ¬ StubByte32 L (k.excCxaThrow.length + image.relocations.length) x →
          loaded.linker.mem x = (k.mapped32 base image).mem x := by
  have hpatching : Patching (relocate32 L env base) mem (patched32 base) _ :=
    (patching32 L env base).map Prod.fst
  have hrun : link32 L env k base image =
      run (relocate32 L env base) (k.mapped32 base image) image.relocations := rfl
  -- The stubs of the load are among those the library is clear of.
  have hstubs : ∀ x, StubByte32 L (link32 L env k base image).excCxaThrow.length x →
      StubByte32 L (k.excCxaThrow.length + image.relocations.length) x := by
    intro x
    exact .mono (link32_count L env k base image)
  refine ⟨_, loadElf_of_parse hfile, ?_, ?_⟩
  · intro r hr v hv
    by_cases hkind : isKind32 r.type
    · have hclear : ∀ i < 4,
          ¬ StubByte32 L (link32 L env k base image).excCxaThrow.length (place32 base r + i) :=
        fun i hi hstub => hwf.clear r hr i hi (hstubs _ hstub)
      obtain ⟨before, after, hlinked, hplace, hfinal⟩ :=
        hpatching.run_readLE (hwf.apart.imp Interval.Apart.misses) hr (if_pos hkind) hclear
      rw [ByteMemory.read32, ← hplace] at hv
      refine hfinal.trans (relocate32_value ?_ hclear hv)
      rw [hrun, hlinked]
      exact .run (relocate32_extends L env base) _ after
    · simp only [isKind32, Bool.or_eq_true, decide_eq_true_eq, not_or] at hkind
      rw [relocated32, if_neg (by tauto)] at hv
      cases href : r.ref with
      | none => simp [href] at hv
      | symbol sym name => simp [href, hkind] at hv
  · intro x hout hx
    exact hpatching.run_frame image.relocations hout fun hstub => hx (hstubs x hstub)

/-! ## Two small libraries -/

open Buffer in
/-- A shared object with one symbol, relocations that name it, and a data segment at `0x1000`. -/
def sharedObject32 (sym : Sym) (name : CStr) (rels : List (Nat × Nat)) (words : List Nat) :
    List UInt8 :=
  let strOff := 276 + 8 * rels.length
  let dataOff := strOff + name.length + 2
  let size := 4 * words.length
  let half := fun fields => fields.flatMap (leBytes 2)
  let word := fun fields => fields.flatMap (leBytes 4)
  let shdr := fun type offset size link => word [0, type, 0, 0, offset, size, link, 0, 0, 0]
  word [elfMag] ++ [1, 1, 1, 0, 0, 0, 0, 0, 0, 0, 0, 0] ++ half [3, 40] ++ word [1, 0, 52, 84, 0] ++
    half [52, 32, 1, 40, 4, 0xffff] ++
  word [ptLoad, dataOff, 0x1000, 0x1000, size, size, 6, 0x1000] ++
  shdr 0 0 0 0 ++ shdr shtDynsym 244 32 2 ++ shdr 3 strOff (name.length + 2) 0 ++
    shdr shtRel 276 (8 * rels.length) 1 ++
  List.replicate 16 0 ++ word [1, sym.value, 0] ++ [0x12, 0] ++ half [sym.shndx] ++
  rels.flatMap (fun rel => word [rel.1, 0x100 + rel.2]) ++ [0] ++ name ++ [0] ++ word words

def plainEnv : LinkEnv := ⟨fun _ => none, none, true, false⟩

/-- The linker at start. -/
def plainLinker (isArm64 : Bool) : Linker :=
  .initial (AddressSpace.initial (defaultLayout isArm64))

/-- A library with its own `__cxa_throw` at `0x1004`, called through a slot at `0x1000`. -/
def throwFile : List UInt8 :=
  sharedObject32 ⟨1, 0x1004, 5⟩ (cstr "__cxa_throw") [(0x1000, rArmJumpSlot)] [7, 9]

def throwImage : Image :=
  ⟨[⟨0x1000, 8, 6, [7, 0, 0, 0, 9, 0, 0, 0], true⟩], none,
    some ⟨[([], ⟨0, 0, 0⟩), (cstr "__cxa_throw", ⟨1, 0x1004, 5⟩)],
      [⟨rArmJumpSlot, 0x1000, 0, .symbol ⟨1, 0x1004, 5⟩ (cstr "__cxa_throw")⟩]⟩, []⟩

/-- The slot of the first file does not get the address of the definition in the library. -/
theorem throwFile_slot : parse32 throwFile = some (some throwImage) ∧ ∃ loaded,
      loadElf (defaultLayout false) plainEnv 0xa0000 (plainLinker false) throwFile =
          some (some loaded) ∧
        ¬ ∀ r ∈ throwImage.relocations, ∀ sym name, r.ref = .symbol sym name →
          r.type = rArmJumpSlot → loaded.linker.mem.read32 (place32 0xa0000 r) =
            definitionVa32 (defaultLayout false) plainEnv 0xa0000 loaded.linker sym name := by
  have hfile : parse32 throwFile = some (some throwImage) := by decide +kernel
  refine ⟨hfile, _, loadElf_of_parse hfile, ?_⟩
  intro h
  have hslot := h ⟨rArmJumpSlot, 0x1000, 0, .symbol ⟨1, 0x1004, 5⟩ _⟩
    (List.mem_singleton.mpr rfl) ⟨1, 0x1004, 5⟩ _ rfl rfl
  revert hslot
  decide +kernel

/-- A library with a function at `0x100c` and the three kinds of relocation for it. -/
def plainFile : List UInt8 :=
  sharedObject32 ⟨1, 0x100c, 5⟩ (cstr "f")
    [(0x1000, rArmRelative), (0x1004, rArmAbs32), (0x1008, rArmGlobDat)] [0x1000, 4, 0, 9]

def plainImage : Image :=
  ⟨[⟨0x1000, 16, 6, [0, 16, 0, 0, 4, 0, 0, 0, 0, 0, 0, 0, 9, 0, 0, 0], true⟩], none,
    some ⟨[([], ⟨0, 0, 0⟩), (cstr "f", ⟨1, 0x100c, 5⟩)],
      [⟨rArmRelative, 0x1000, 0, .none⟩, ⟨rArmAbs32, 0x1004, 0, .symbol ⟨1, 0x100c, 5⟩ []⟩,
        ⟨rArmGlobDat, 0x1008, 0, .symbol ⟨1, 0x100c, 5⟩ []⟩]⟩, []⟩

/-- The words of the second file after loading it at `0xa0000`. -/
theorem plainFile_words : ∃ loaded,
    loadElf (defaultLayout false) plainEnv 0xa0000 (plainLinker false) plainFile =
        some (some loaded) ∧
      loaded.linker.mem.read32 0xa1000 = 0xa1000 ∧ loaded.linker.mem.read32 0xa1004 = 0xa1010 ∧
        loaded.linker.mem.read32 0xa1008 = 0xa100c := by
  have hfile : parse32 plainFile = some (some plainImage) := by decide +kernel
  have hwf : Relocatable32 (defaultLayout false) (plainLinker false) 0xa0000 plainImage :=
    { apart := by decide +kernel
      clear := by decide +kernel }
  obtain ⟨loaded, hloaded, hwords, -⟩ := relocated32_of_loadElf _ plainEnv
    (plainLinker false) 0xa0000 plainFile plainImage hfile hwf
  have hlinker : loaded.linker =
      link32 (defaultLayout false) plainEnv (plainLinker false) 0xa0000 plainImage := by
    rw [loadElf_of_parse hfile] at hloaded
    exact congrArg Loaded.linker (some.inj (some.inj hloaded)).symm
  refine ⟨loaded, hloaded, ?_, ?_, ?_⟩
  · exact hwords ⟨rArmRelative, 0x1000, 0, .none⟩ (by decide) _ (by rw [hlinker]; decide +kernel)
  · exact hwords ⟨rArmAbs32, 0x1004, 0, .symbol ⟨1, 0x100c, 5⟩ []⟩ (by decide) _
      (by rw [hlinker]; decide +kernel)
  · exact hwords ⟨rArmGlobDat, 0x1008, 0, .symbol ⟨1, 0x100c, 5⟩ []⟩ (by decide) _
      (by rw [hlinker]; decide +kernel)

end Linker

end Lunaria.Elf
