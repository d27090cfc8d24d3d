/-
# What the marshaller loses

A variadic entry takes one word for every argument. This module lays out, for
any call with a wide or floating argument on ground with room for it, a frame in
which that argument is not zero and everything else is, and shows that the union
built for it is not the argument. Together with the calls that are delivered this
settles the marshaller for every signature.
-/

import Lunaria.Jni.Delivery
import Mathlib.Data.List.Forall2

namespace Lunaria.Jni

open Lib Lib.Variadic List Option Function ByteMemory

/-! ## Ground with room -/

def Apart (a size b size' : Nat) : Prop := a + size ≤ b ∨ b + size' ≤ a

def VaList.vrBase (va : VaList) : Nat := u32 (va.vrTop - 16 * va.vrLeft)

/-- A `va_list` in a stretch of the arena, with its two save areas and `n`
doublewords of stack in stretches of their own. -/
structure VaList.Spacious (L : Layout) (s : AddressSpace) (list : Nat) (va : VaList) (n : Nat) :
    Prop where
  list_ne : pack L s list ≠ 0
  list_linear : Linear L s list (pack L s list) 32
  gr_linear : Linear L s (va.grTop - 8 * va.grLeft) va.grBase (8 * va.grLeft)
  vr_linear : Linear L s (va.vrTop - 16 * va.vrLeft) va.vrBase (16 * va.vrLeft)
  stack_linear : Linear L s va.stack (u32 va.stack) (8 * n)
  gr_le : va.grLeft ≤ 8 ∧ 8 * va.grLeft ≤ va.grTop ∧ va.grTop < 2 ^ 64
  vr_le : va.vrLeft ≤ 8 ∧ 16 * va.vrLeft ≤ va.vrTop ∧ va.vrTop < 2 ^ 64
  stack_lt : 0 < va.stack ∧ va.stack < 2 ^ 64
  list_gr : Apart (pack L s list) 32 va.grBase (8 * va.grLeft)
  list_vr : Apart (pack L s list) 32 va.vrBase (16 * va.vrLeft)
  list_stack : Apart (pack L s list) 32 (u32 va.stack) (8 * n)
  gr_vr : Apart va.grBase (8 * va.grLeft) va.vrBase (16 * va.vrLeft)
  gr_stack : Apart va.grBase (8 * va.grLeft) (u32 va.stack) (8 * n)
  vr_stack : Apart va.vrBase (16 * va.vrLeft) (u32 va.stack) (8 * n)

/-- There is room for any `n` arguments: an aligned stack, areas that keep apart, nothing above an
`int`. -/
def Ground.Spacious (L : Layout) (s : AddressSpace) (n : Nat) (g : Ground) : Prop :=
  match g, L.isArm64 with
  | .varargs sp _, false => sp % 8 = 0 ∧ 4 ≤ sp ∧ sp + 8 * n ≤ 2 ^ 32
  | .varargs sp upper, true => Linear L s sp (a64CanonVa L s sp) (8 * n) ∧ ∀ i < 5, upper i = 0
  | .vaList ap _, false => ap % 4 = 0 ∧ ap + 8 * n ≤ 2 ^ 32
  | .vaList list va, true => va.Spacious L s list n
  | .jvalues _, _ => True

/-! ## A frame with one argument that is not zero -/

def zeroArg (k : Kind) : Arg := ⟨k, 0, Nat.two_pow_pos _⟩

theorem promote_zero (k : Kind) : k.promote 0 = 0 := by
  cases k with
  | reference => rfl
  | prim p => cases p <;> rfl

/-- A value of a kind whose promoted form is zero in its low word, and all of it
when the kind is a word. -/
structure Spike where
  arg : Arg
  low : arg.kind.promote arg.val % 2 ^ 32 = 0
  lt : arg.kind.promote arg.val < 2 ^ 64
  word : arg.cls = .word → arg.kind.promote arg.val = 0

namespace Spike

variable (spike : Spike)

def form : Nat := spike.arg.kind.promote spike.arg.val

def args (front back : List Kind) : List Arg :=
  front.map zeroArg ++ spike.arg :: back.map zeroArg

variable {spike} {front back : List Kind} {j : Nat} {a : Arg}

theorem args_getElem? (ha : (spike.args front back)[j]? = some a) :
    j = front.length ∧ a = spike.arg ∨ j ≠ front.length ∧ a.val = 0 := by
  have hzero {ks : List Kind} {i : Nat} (hi : (ks.map zeroArg)[i]? = some a) : a.val = 0 := by
    obtain ⟨k, -, rfl⟩ := mem_map.mp (mem_of_getElem? hi)
    rfl
  rw [args, getElem?_append, length_map] at ha
  split at ha
  · exact .inr ⟨by omega, hzero ha⟩
  · cases hj : j - front.length with
    | zero =>
      rw [hj] at ha
      exact .inl ⟨by omega, (some.inj ha).symm⟩
    | succ i =>
      rw [hj] at ha
      exact .inr ⟨by omega, hzero ha⟩

theorem args_cls (front back : List Kind) : (spike.args front back).map Arg.cls =
      front.map Kind.cls ++ spike.arg.cls :: back.map Kind.cls := by
  simp [args, zeroArg, Arg.cls, comp_def]

theorem args_kinds (front back : List Kind) :
    (spike.args front back).map Arg.kind = front ++ spike.arg.kind :: back := by
  simp [args, zeroArg, comp_def]

theorem form_mod_slot (spike : Spike) :
    spike.form % 256 ^ spike.arg.kind.slotBytes = spike.form := by
  rcases slotBytes_cases spike.arg.kind with h | h
  · have hword : spike.arg.cls = .word := by
      revert h
      rw [Arg.cls]
      generalize spike.arg.kind = k
      cases k with
      | reference => exact fun _ => rfl
      | prim p => cases p <;> simp [Kind.slotBytes, Kind.cls]
    rw [form, spike.word hword, Nat.zero_mod]
  · rw [h]
    exact Nat.mod_eq_of_lt spike.lt

/-! ## In a stream of words -/

def place (spike : Spike) (start : Nat) (front : List Kind) : Nat :=
  spike.arg.cls.start32 (start + 4 * front.length)

/-- A stream that is zero except for the spike holds the arguments. -/
theorem inStream (hfront : ∀ k ∈ front, k.cls = .word) {cell : Nat → Nat → Nat} {start : Nat}
    (hspike : cell (spike.place start front) spike.arg.cls.size32 = spike.form)
    (hzero : ∀ q width, q + width ≤ spike.place start front ∨
      spike.place start front + spike.arg.cls.size32 ≤ q → cell q width = 0) :
    InStream cell start (spike.args front back) := by
  intro j a p ha hp
  have hwords : ∀ w ∈ front.map Kind.cls, w = .word := by
    intro w hw
    obtain ⟨k, hk, rfl⟩ := mem_map.mp hw
    exact hfront k hk
  rw [args_cls] at hp
  have hcases := places32_cases hwords hp
  rw [length_map] at hcases
  rcases args_getElem? ha with ⟨rfl, rfl⟩ | ⟨hne, hval⟩
  · obtain rfl : p = spike.place start front := by
      rw [place]
      omega
    exact hspike
  have hle : start + 4 * front.length ≤ spike.place start front := ArgClass.le_start32 ..
  rw [hval, promote_zero]
  apply hzero
  rcases hcases with ⟨hlt, rfl⟩ | ⟨heq, -⟩ | ⟨-, hbehind⟩
  · have hcls : a.kind.cls = .word := by
      rw [args, getElem?_append_left (by rwa [length_map])] at ha
      obtain ⟨k, hk, rfl⟩ := mem_map.mp (mem_of_getElem? ha)
      exact hfront k hk
    rw [hcls, ArgClass.size32]
    omega
  · exact absurd heq hne
  · exact .inr hbehind

/-- A memory that is zero except for `width` bytes of the spike. -/
def memory (spike : Spike) (addr width : Nat) : HostMemory :=
  ⟨ByteMemory.writeLE (fun _ => 0) addr width spike.form, fun _ _ => 0⟩

variable {q width sp : Nat}

theorem memory_elsewhere {addr width' : Nat} (h : q + width' ≤ addr ∨ addr + width ≤ q) :
    (spike.memory addr width).arena.readLE q width' = 0 := by
  rw [memory, readLE_writeLE_of_disjoint _ _ h, readLE_zero]

theorem memory_low (addr : Nat) {width' : Nat} (h : width' ≤ width) :
    (spike.memory addr width).arena.readLE addr width' = spike.form % 256 ^ width' := by
  rw [memory, readLE_writeLE_le _ _ _ h]

theorem four_le_size32 (c : ArgClass) : 4 ≤ c.size32 := by
  cases c <;> decide

theorem form_mod_size (spike : Spike) : spike.form % 256 ^ spike.arg.cls.size32 = spike.form := by
  have hlt : spike.form < 2 ^ 64 := spike.lt
  cases hcls : spike.arg.cls with
  | word => rw [form, spike.word hcls, Nat.zero_mod]
  | wide | floating => exact Nat.mod_eq_of_lt hlt

/-- The word that the marshaller takes for the spike is zero: it lies in the
padding in front of it, or is its low word. -/
theorem memory_word (hq : q % 4 = 0) :
    (spike.memory (spike.arg.cls.start32 q) spike.arg.cls.size32).arena.read32 q = 0 := by
  rcases ArgClass.start32_cases hq spike.arg.cls with heq | hpad
  · rw [heq]
    exact (memory_low q (four_le_size32 _)).trans spike.low
  · exact memory_elsewhere (.inl hpad)

/-- A word that cannot stand for the spike. -/
def Misses (spike : Spike) (w : Nat) : Prop := w < 2 ^ 32 ∧ (spike.arg.cls = .floating → w = 0)

theorem misses_zero : spike.Misses 0 := ⟨by norm_num, fun _ => rfl⟩

/-- There is a frame with the spike for which the marshaller takes such a word. -/
def Exhibited (L : Layout) (s : AddressSpace) (g : Ground) (spike : Spike)
    (front back : List Kind) : Prop :=
  ∃ mem x v sp, Frame.LaidOut L ⟨{ s with mem := mem }, x, v, sp⟩ g (spike.args front back) ∧
    spike.Misses (jniArgWord L.isArm64 mem.arena (svcRegs L { s with mem := mem } x sp) g.variant
      front.length)

section Frames

variable {L : Layout} {s : AddressSpace} {n : Nat}

theorem exhibited_varargs32 (harm : L.isArm64 = false) {upper : Nat → Nat}
    (hroomy : Ground.Spacious L s n (.varargs sp upper)) (hfront : ∀ k ∈ front, k.cls = .word)
    (hn : front.length < n) : spike.Exhibited L s (.varargs sp upper) front back := by
  simp only [Ground.Spacious, harm] at hroomy
  have hplace : spike.place (sp - 4) front = sp - 4 → spike.form = 0 := by
    intro h
    apply spike.word
    rw [place] at h
    revert h
    cases spike.arg.cls with
    | word => exact fun _ => rfl
    | wide | floating => simp only [ArgClass.start32]; omega
  refine ⟨spike.memory (spike.place (sp - 4) front) spike.arg.cls.size32, fun _ => 0, fun _ => 0,
    sp, ?_, ?_⟩
  · simp only [Frame.LaidOut, harm]
    refine ⟨trivial, inStream hfront ?_ fun q width hq => ?_⟩
    · simp only [Frame.cell32, guest_arm32 harm]
      split
      · rename_i hr3
        exact (hplace hr3).symm
      · rw [memory_low _ le_rfl, form_mod_size]
    · simp only [Frame.cell32, guest_arm32 harm]
      split
      · rfl
      · exact memory_elsewhere hq
  · simp only [Ground.variant, jniArgWord, harm, svcRegs, svcArg, Bool.false_eq_true, if_false,
      if_true]
    split
    · exact misses_zero
    · rw [u32_of_lt (by omega),
        show sp + (front.length - 1) * 4 = sp - 4 + 4 * front.length by omega, place,
        memory_word (by omega)]
      exact misses_zero

theorem exhibited_vaList32 (harm : L.isArm64 = false) {ap : Nat} {va : VaList}
    (hroomy : Ground.Spacious L s n (.vaList ap va)) (hfront : ∀ k ∈ front, k.cls = .word)
    (hn : front.length < n) : spike.Exhibited L s (.vaList ap va) front back := by
  simp only [Ground.Spacious, harm] at hroomy
  refine ⟨spike.memory (spike.place ap front) spike.arg.cls.size32, fun _ => ap, fun _ => 0, 0,
    ?_, ?_⟩
  · simp only [Frame.LaidOut, harm]
    refine ⟨trivial, inStream hfront ?_ fun q width hq => ?_⟩
    · rw [guest_arm32 harm, memory_low _ le_rfl, form_mod_size]
    · rw [guest_arm32 harm]
      exact memory_elsewhere hq
  · simp only [Ground.variant, jniArgWord, harm, svcRegs, svcArg, Bool.false_eq_true, if_false]
    rw [if_neg (by decide), u32_of_lt (by omega), mul_comm, place, memory_word (by omega)]
    exact misses_zero

end Frames

/-! ## In banks of registers -/

def bank (spike : Spike) (G V : Nat) (front : List Kind) : Place :=
  place64 G V (usedBy G front.length) spike.arg.cls

/-- What a place holds when everything but the spike is zero. -/
def content (spike : Spike) (home q : Place) (width : Nat) : Nat :=
  if q = home then spike.form % 256 ^ width else 0

theorem bank_ne_gr {G V i : Nat} (h : spike.arg.cls = .floating) :
    spike.bank G V front ≠ .gr i := by
  rw [bank, h, place64]
  split <;> simp

section Banks

variable {G V : Nat} (hfront : ∀ k ∈ front, k.cls = .word)
include hfront

theorem places_eq : places64 G V (usedBy G 0) ((spike.args front back).map Arg.cls) =
      (range' 0 front.length).map (integerPlace G) ++ spike.bank G V front ::
        places64 G V ((usedBy G front.length).take (spike.bank G V front)) (back.map Kind.cls) := by
  have hints : ∀ w ∈ front.map Kind.cls, w ≠ .floating := by
    intro w hw
    obtain ⟨k, hk, rfl⟩ := mem_map.mp hw
    rw [hfront k hk]
    exact nofun
  rw [args_cls, places64_of_integers hints, length_map, zero_add]
  rfl

theorem places_spike :
    (places64 G V (usedBy G 0) ((spike.args front back).map Arg.cls))[front.length]? =
      some (spike.bank G V front) := by
  rw [places_eq hfront]
  simp

theorem bank_within (back : List Kind) :
    (spike.bank G V front).Within G V (spike.args front back).length := by
  refine within_of_mem_places64 ?_ (mem_of_getElem? (@places_spike spike front back G V hfront))
  simp [usedBy]

theorem eq_of_place (h : (places64 G V (usedBy G 0) ((spike.args front back).map Arg.cls))[j]? =
      some (spike.bank G V front)) : j = front.length :=
  (getElem?_inj (List.getElem?_eq_some_iff.mp h).1 (nodup_places64 ..)).mp
    (h.trans (places_spike hfront).symm)

theorem inBanks {cell : Place → Nat → Nat} {n : Nat} (hn : (spike.args front back).length ≤ n)
    (hcell : ∀ q width, q.Within G V n → width ≤ 8 →
      cell q width = spike.content (spike.bank G V front) q width) :
    InBanks cell G V (spike.args front back) := by
  intro j a p ha hp
  have hwithin : p.Within G V n := by
    have hfresh : (usedBy G 0).stack = 0 := Nat.zero_sub G
    refine within_of_mem_places64 ?_ (mem_of_getElem? hp)
    rw [length_map, hfresh, zero_add]
    exact hn
  rw [hcell p _ hwithin (slotBytes_le _), content]
  rcases args_getElem? ha with ⟨rfl, rfl⟩ | ⟨hne, hval⟩
  · rw [places_spike hfront] at hp
    rw [if_pos (some.inj hp).symm]
    exact spike.form_mod_slot
  · rw [hval, promote_zero, if_neg]
    rintro rfl
    exact hne (eq_of_place hfront hp)

end Banks

/-- A memory that holds the spike if the stack does. -/
def stackMemory (spike : Spike) (base : Nat) : Place → HostMemory
  | .stack i => spike.memory (base + 8 * i) 8
  | _ => spike.memory 0 0

theorem stackMemory_slot (base i : Nat) (hwidth : width ≤ 8) (home : Place) :
    (spike.stackMemory base home).arena.readLE (base + 8 * i) width =
      spike.content home (.stack i) width := by
  rw [content]
  cases home with
  | gr _ | vr _ => exact memory_elsewhere (.inr (Nat.zero_le _))
  | stack j =>
    by_cases h : i = j
    · subst h
      rw [if_pos rfl]
      exact memory_low _ hwidth
    · rw [if_neg fun heq => h (Place.stack.inj heq)]
      exact memory_elsewhere (by omega)

theorem content_word (home q : Place) : spike.content home q 4 = 0 := by
  rw [content]
  split
  · exact spike.low
  · rfl

/-- Core registers that hold the spike if one of them does. -/
def registers (spike : Spike) (home : Place) : Nat → Nat := fun r =>
  if .gr (r - 3) = home then spike.form else 0

theorem registers_apply (home : Place) (i : Nat) :
    spike.registers home (3 + i) = if .gr i = home then spike.form else 0 := by
  rw [registers, Nat.add_sub_cancel_left]

theorem registers_mod (home : Place) (i width : Nat) :
    spike.registers home (3 + i) % 256 ^ width = spike.content home (.gr i) width := by
  rw [registers_apply, content]
  split
  · rfl
  · exact Nat.zero_mod _

/-- Vector registers that hold the spike if one of them does. -/
def vectors (spike : Spike) (home : Place) : Nat → Nat := fun i =>
  if .vr i = home then spike.form else 0

theorem vectors_mod (home : Place) (i width : Nat) :
    spike.vectors home i % 256 ^ width = spike.content home (.vr i) width := by
  rw [vectors, content]
  split
  · rfl
  · exact Nat.zero_mod _

theorem registers_upper (hfront : ∀ k ∈ front, k.cls = .word) {i : Nat}
    (ha : (spike.args front back)[j]? = some a)
    (hplace : (places64 5 8 (usedBy 5 0) ((spike.args front back).map Arg.cls))[j]? = some (.gr i))
    (hnarrow : a.kind.slotBytes = 4) :
    spike.registers (spike.bank 5 8 front) (3 + i) / 2 ^ 32 = 0 := by
  rw [registers_apply]
  split
  · rename_i hhome
    obtain rfl := eq_of_place hfront (hplace.trans (congrArg some hhome))
    rcases args_getElem? ha with ⟨-, rfl⟩ | ⟨hne, -⟩
    · have hlt : spike.form < 2 ^ 32 := by
        rw [← spike.form_mod_slot, hnarrow]
        exact Nat.mod_lt _ (by norm_num)
      exact Nat.div_eq_of_lt hlt
    · exact absurd rfl hne
  · rfl

theorem exhibited_varargs64 {L : Layout} {s : AddressSpace} (harm : L.isArm64) {upper : Nat → Nat}
    (hroomy : Ground.Spacious L s (spike.args front back).length (.varargs sp upper))
    (hfront : ∀ k ∈ front, k.cls = .word) : spike.Exhibited L s (.varargs sp upper) front back := by
  simp only [Ground.Spacious, harm] at hroomy
  obtain ⟨hlinear, hupper⟩ := hroomy
  have hlen : front.length < (spike.args front back).length := by simp [args]
  have hbanks (q : Place) (width : Nat)
      (hq : q.Within 5 8 (spike.args front back).length) (hwidth : width ≤ 8) :
      Frame.cell64 L
        ⟨{ s with mem := spike.stackMemory (a64CanonVa L s sp) (spike.bank 5 8 front) },
          spike.registers (spike.bank 5 8 front), spike.vectors (spike.bank 5 8 front), sp⟩ sp q
        width = spike.content (spike.bank 5 8 front) q width := by
    cases q with
    | gr i => exact registers_mod ..
    | vr i => exact vectors_mod ..
    | stack i =>
      simp only [Place.Within] at hq
      simp only [Frame.cell64]
      rw [guest_linear harm hlinear (by omega)]
      exact stackMemory_slot _ _ hwidth _
  refine ⟨spike.stackMemory (a64CanonVa L s sp) (spike.bank 5 8 front),
    spike.registers (spike.bank 5 8 front), spike.vectors (spike.bank 5 8 front), sp, ?_, ?_⟩
  · simp only [Frame.LaidOut, harm]
    refine ⟨trivial, inBanks hfront le_rfl hbanks, fun j a i ha hplace hnarrow => ?_⟩
    have hi : (Place.gr i).Within 5 8 (spike.args front back).length :=
      within_of_mem_places64 (by simp [usedBy]) (mem_of_getElem? hplace)
    rw [hupper i hi]
    exact registers_upper hfront ha hplace hnarrow
  simp only [jniArgWord, harm, svcRegs, svcArg, if_true]
  by_cases hreg : front.length < 5
  · rw [if_pos hreg, if_neg (by omega)]
    refine ⟨pack_lt .., fun hfloat => ?_⟩
    rw [registers_apply, if_neg (bank_ne_gr hfloat).symm]
    exact pack_of_mod rfl (by norm_num)
  · have hfit := hlinear.1
    have hbase (mem : HostMemory) : a64CanonVa L { s with mem } sp = a64CanonVa L s sp := rfl
    rw [if_neg hreg, hbase (spike.stackMemory ..), u32_of_lt (by omega), mul_comm,
      ByteMemory.read32, stackMemory_slot _ _ (by norm_num), content_word]
    exact misses_zero

/-! ## Behind a `va_list` -/

/-- A word that reads as the negative offset. -/
def negWord (d : Nat) : Nat := (2 ^ 32 - d) % 2 ^ 32

theorem int32_negWord {d : Nat} (hd : d ≤ 2 ^ 31) : int32 (negWord d) = -d := by
  rw [int32, negWord]
  split <;> omega

/-- The fields of a `va_list`, in memory that is zero otherwise. -/
def listMemory (list : Nat) (va : VaList) : ByteMemory :=
  ((((ByteMemory.writeLE (fun _ => 0) list 8 va.stack).writeLE (list + 8) 8 va.grTop).writeLE
    (list + 16) 8 va.vrTop).writeLE (list + 24) 4 (negWord (8 * va.grLeft))).writeLE
    (list + 28) 4 (negWord (16 * va.vrLeft))

theorem listMemory_elsewhere (va : VaList) {list : Nat}
    (h : q + width ≤ list ∨ list + 32 ≤ q) : (listMemory list va).readLE q width = 0 := by
  simp (disch := omega) only [listMemory, readLE_writeLE_of_disjoint, readLE_zero]

theorem listMemory_fields (list : Nat) {va : VaList} (hstack : va.stack < 2 ^ 64)
    (hgr : va.grTop < 2 ^ 64) (hvr : va.vrTop < 2 ^ 64) :
    (listMemory list va).readLE list 8 = va.stack ∧
      (listMemory list va).readLE (list + 8) 8 = va.grTop ∧
      (listMemory list va).readLE (list + 16) 8 = va.vrTop ∧
      (listMemory list va).readLE (list + 24) 4 = negWord (8 * va.grLeft) ∧
      (listMemory list va).readLE (list + 28) 4 = negWord (16 * va.vrLeft) := by
  have hword (d : Nat) : negWord d < 2 ^ 32 := Nat.mod_lt _ (by norm_num)
  simp (disch := omega) only [listMemory, readLE_writeLE_of_disjoint, readLE_writeLE]
  exact ⟨Nat.mod_eq_of_lt hstack, Nat.mod_eq_of_lt hgr, Nat.mod_eq_of_lt hvr,
    Nat.mod_eq_of_lt (hword _), Nat.mod_eq_of_lt (hword _)⟩

/-- The arena address of a place behind a `va_list`. -/
def listAddr (va : VaList) : Place → Nat
  | .gr i => va.grBase + 8 * i
  | .vr i => va.vrBase + 16 * i
  | .stack i => u32 va.stack + 8 * i

section List

variable {L : Layout} {s : AddressSpace} {list n : Nat} {va : VaList} {p q : Place}

theorem listAddr_list (hroomy : va.Spacious L s list n) (hp : p.Within va.grLeft va.vrLeft n) :
    listAddr va p + 8 ≤ pack L s list ∨ pack L s list + 32 ≤ listAddr va p := by
  have hgr := hroomy.list_gr
  have hvr := hroomy.list_vr
  have hstack := hroomy.list_stack
  rw [Apart] at hgr hvr hstack
  cases p <;> simp only [Place.Within, listAddr] at hp ⊢ <;> omega

theorem listAddr_apart (hroomy : va.Spacious L s list n) (hp : p.Within va.grLeft va.vrLeft n)
    (hq : q.Within va.grLeft va.vrLeft n) (hne : q ≠ p) :
    listAddr va q + 8 ≤ listAddr va p ∨ listAddr va p + 8 ≤ listAddr va q := by
  have hgv := hroomy.gr_vr
  have hgs := hroomy.gr_stack
  have hvs := hroomy.vr_stack
  rw [Apart] at hgv hgs hvs
  cases p <;> cases q <;> simp only [Place.Within, listAddr, ne_eq, Place.gr.injEq,
    Place.vr.injEq, Place.stack.injEq] at hp hq hne ⊢ <;> omega

theorem listCell_eq (harm : L.isArm64) (hroomy : va.Spacious L s list n)
    {mem : HostMemory} {x v : Nat → Nat}
    (hq : q.Within va.grLeft va.vrLeft n) (hwidth : width ≤ 8) :
    Frame.listCell L ⟨{ s with mem }, x, v, sp⟩ va q width =
      mem.arena.readLE (listAddr va q) width := by
  cases q <;> simp only [Place.Within] at hq
  case gr i => exact guest_linear harm hroomy.gr_linear (by omega)
  case vr i => exact guest_linear harm hroomy.vr_linear (by omega)
  case stack i => exact guest_linear harm hroomy.stack_linear (by omega)

/-- A memory with the `va_list` and the spike. -/
def listHost (spike : Spike) (list : Nat) (va : VaList) (home : Place) : HostMemory :=
  ⟨(listMemory list va).writeLE (listAddr va home) 8 spike.form, fun _ _ => 0⟩

theorem listHost_cell (hroomy : va.Spacious L s list n) (hp : p.Within va.grLeft va.vrLeft n)
    (hq : q.Within va.grLeft va.vrLeft n) (hwidth : width ≤ 8) :
    (spike.listHost (pack L s list) va p).arena.readLE (listAddr va q) width =
      spike.content p q width := by
  rw [listHost, content]
  by_cases h : q = p
  · rw [if_pos h, h]
    exact readLE_writeLE_le _ _ _ hwidth
  · have hapart := listAddr_apart hroomy hp hq h
    have hlist := listAddr_list hroomy hq
    rw [if_neg h, readLE_writeLE_of_disjoint _ _ (by omega)]
    exact listMemory_elsewhere va (by omega)

theorem listHost_field (hroomy : va.Spacious L s list n) (hp : p.Within va.grLeft va.vrLeft n)
    {k : Nat} (hk : k + width ≤ 32) :
    (spike.listHost (pack L s list) va p).arena.readLE (pack L s list + k) width =
      (listMemory (pack L s list) va).readLE (pack L s list + k) width := by
  have hlist := listAddr_list hroomy hp
  exact readLE_writeLE_of_disjoint _ _ (by omega)

theorem listHost_fields (spike : Spike) (hroomy : va.Spacious L s list n)
    (hp : p.Within va.grLeft va.vrLeft n) :
    (spike.listHost (pack L s list) va p).arena.readLE (pack L s list) 8 = va.stack ∧
      (spike.listHost (pack L s list) va p).arena.readLE (pack L s list + 8) 8 = va.grTop ∧
      (spike.listHost (pack L s list) va p).arena.readLE (pack L s list + 16) 8 = va.vrTop ∧
      int32 ((spike.listHost (pack L s list) va p).arena.readLE (pack L s list + 24) 4) =
        -(8 * va.grLeft) ∧
      int32 ((spike.listHost (pack L s list) va p).arena.readLE (pack L s list + 28) 4) =
        -(16 * va.vrLeft) := by
  obtain ⟨hstack, hgr, hvr, hgrOffs, hvrOffs⟩ :=
    listMemory_fields _ hroomy.stack_lt.2 hroomy.gr_le.2.2 hroomy.vr_le.2.2
  have hgrLe := hroomy.gr_le
  have hvrLe := hroomy.vr_le
  refine ⟨(listHost_field hroomy hp (k := 0) (by omega)).trans hstack,
    (listHost_field hroomy hp (by omega)).trans hgr,
    (listHost_field hroomy hp (by omega)).trans hvr, ?_, ?_⟩
  · rw [listHost_field hroomy hp (by omega), hgrOffs, int32_negWord (by omega)]
    rfl
  · rw [listHost_field hroomy hp (by omega), hvrOffs, int32_negWord (by omega)]
    rfl

section

variable (harm : L.isArm64) (hroomy : va.Spacious L s list (spike.args front back).length)
    (hfront : ∀ k ∈ front, k.cls = .word)
include harm hroomy hfront

/-- The marshaller reads the place an integer would have taken, and the spike is not there. -/
theorem jniArgWord_vaList64 : jniArgWord L.isArm64 (spike.listHost (pack L s list) va
        (spike.bank va.grLeft va.vrLeft front)).arena
      (svcRegs L { s with
          mem := (spike.listHost (pack L s list) va (spike.bank va.grLeft va.vrLeft front)) }
        (fun _ => list) 0) .vaList front.length = 0 := by
  have hlen : front.length < (spike.args front back).length := by simp [args]
  have hhome : (spike.bank va.grLeft va.vrLeft front).Within va.grLeft va.vrLeft
      (spike.args front back).length := bank_within hfront back
  obtain ⟨hstack, hgr, -, hoffs, -⟩ := spike.listHost_fields hroomy hhome
  have hcell {q : Place} (hq : q.Within va.grLeft va.vrLeft (spike.args front back).length) :
      (spike.listHost (pack L s list) va (spike.bank va.grLeft va.vrLeft front)).arena.readLE
        (listAddr va q) 4 = spike.content (spike.bank va.grLeft va.vrLeft front) q 4 :=
    listHost_cell hroomy hhome hq (by decide)
  generalize spike.listHost (pack L s list) va (spike.bank va.grLeft va.vrLeft front) = mem
    at hstack hgr hoffs hcell ⊢
  have hreg : svcRegs L { s with mem } (fun _ => list) 0 3 = pack L s list := by
    simp only [svcRegs, svcArg, harm]
    rfl
  have hgrfit := hroomy.gr_linear.1
  have hstfit := hroomy.stack_linear.1
  have hfound := a64VaArgU64_plain (i := front.length) hroomy.list_ne hroomy.list_linear.1 hstack
    hgr hoffs hroomy.gr_le.2.1 (by omega) (fun _ => hroomy.stack_lt) (by omega)
  have hplace : a64VaArgU64 mem.arena (pack L s list) front.length =
      mem.arena.readLE (listAddr va (integerPlace va.grLeft front.length)) 8 := by
    rw [hfound, integerPlace]
    split <;> rfl
  have hwithin : (integerPlace va.grLeft front.length).Within va.grLeft va.vrLeft
      (spike.args front back).length := by
    rw [integerPlace]
    split
    · assumption
    · simp only [Place.Within]
      omega
  have hlow : u32 (mem.arena.readLE (listAddr va (integerPlace va.grLeft front.length)) 8) =
      mem.arena.readLE (listAddr va (integerPlace va.grLeft front.length)) 4 :=
    mem.arena.readLE_mod _ 4 4
  simp only [jniArgWord, harm, hreg, if_true]
  rw [hplace, hlow, hcell hwithin, content_word]

theorem exhibited_vaList64 : spike.Exhibited L s (.vaList list va) front back := by
  have hhome : (spike.bank va.grLeft va.vrLeft front).Within va.grLeft va.vrLeft
      (spike.args front back).length := bank_within hfront back
  obtain ⟨hstack, hgr, hvr, hgrOffs, hvrOffs⟩ := spike.listHost_fields hroomy hhome
  have hlist := hroomy.list_linear
  refine ⟨spike.listHost _ va _,
    fun _ => list, fun _ => 0, 0, ?_, (jniArgWord_vaList64 harm hroomy hfront).symm ▸ misses_zero⟩
  simp only [Frame.LaidOut, harm]
  refine ⟨trivial, ⟨?_, ?_, ?_, ?_, ?_⟩, inBanks hfront le_rfl fun q width hq hwidth => ?_⟩
  · exact (guest_linear harm hlist (k := 0) (by omega)).trans hstack
  · exact (guest_linear harm hlist (by omega)).trans hgr
  · exact (guest_linear harm hlist (by omega)).trans hvr
  · rw [guest_linear harm hlist (by omega), hgrOffs]
  · rw [guest_linear harm hlist (by omega), hvrOffs]
  · rw [listCell_eq harm hroomy hq hwidth]
    exact listHost_cell hroomy hhome hq hwidth

end

end List

end Spike

/-! ## Every signature -/

section Signatures

variable {L : Layout} {s : AddressSpace} {g : Ground} {spike : Spike} {front back : List Kind}

/-- A plain variadic call can hold the spike; the marshaller takes one word, zero unless it is an
integer. -/
theorem exhibited (hvar : g.variant ≠ .jvalues)
    (hroomy : g.Spacious L s (spike.args front back).length)
    (hfront : ∀ k ∈ front, k.cls = .word) : spike.Exhibited L s g front back := by
  have hlen : front.length < (spike.args front back).length := by simp [Spike.args]
  cases g with
  | jvalues array => exact absurd rfl hvar
  | varargs sp upper =>
    cases harm : L.isArm64 with
    | true => exact Spike.exhibited_varargs64 harm hroomy hfront
    | false => exact Spike.exhibited_varargs32 harm hroomy hfront hlen
  | vaList list va =>
    cases harm : L.isArm64 with
    | true =>
      simp only [Ground.Spacious, harm] at hroomy
      exact Spike.exhibited_vaList64 harm hroomy hfront
    | false => exact Spike.exhibited_vaList32 harm hroomy hfront hlen

def zeroSpike (k : Kind) : Spike where
  arg := zeroArg k
  low := by rw [zeroArg, promote_zero, Nat.zero_mod]
  lt := by rw [zeroArg, promote_zero]; norm_num
  word := fun _ => promote_zero k

/-- A kind that is no word has a value that one word cannot stand for. -/
theorem exists_spike {k : Kind} (hk : k.cls ≠ .word) :
    ∃ spike : Spike, spike.arg.kind = k ∧ spike.arg.val ≠ 0 ∧ k.letter ≠ 90 ∧
      ∀ w < 2 ^ 32, (k.cls = .floating → w = 0) → k.member w ≠ spike.arg.val := by
  cases k with
  | reference => exact absurd rfl hk
  | prim p =>
    cases p with
    | boolean | byte | char | short | int => exact absurd rfl hk
    | long =>
      refine ⟨⟨⟨.prim .long, 2 ^ 32, by decide⟩, by decide, by decide, by decide⟩, rfl,
        by decide, by decide, fun w hw _ => ?_⟩
      simp only [Kind.member, Kind.bits]
      omega
    | float =>
      refine ⟨⟨⟨.prim .float, 0x3f800000, by decide⟩, by decide, by decide, by decide⟩, rfl,
        by decide, by decide, fun w _ hzero => ?_⟩
      rw [hzero rfl]
      decide
    | double =>
      refine ⟨⟨⟨.prim .double, 2 ^ 32, by decide⟩, by decide, by decide, by decide⟩, rfl,
        by decide, by decide, fun w _ hzero => ?_⟩
      rw [hzero rfl]
      decide

theorem exists_laidOut {k : Kind} {ks : List Kind} (hroomy : g.Spacious L s (ks.length + 1)) :
    ∃ mem x v sp args, args.map Arg.kind = k :: ks ∧
      Frame.LaidOut L ⟨{ s with mem }, x, v, sp⟩ g args := by
  by_cases hvar : g.variant = .jvalues
  · cases g with
    | varargs _ _ | vaList _ _ => cases hvar
    | jvalues array =>
      refine ⟨.zero, fun _ => array, fun _ => 0, 0, (k :: ks).map zeroArg, ?_, rfl,
        fun j a ha => ?_⟩
      · rw [List.map_map]
        exact map_id _
      obtain ⟨k', -, rfl⟩ := mem_map.mp (mem_of_getElem? ha)
      have hguest : Frame.guest L ⟨{ s with mem := .zero }, fun _ => array, fun _ => 0, 0⟩ =
          fun _ => 0 := by
        funext va
        cases harm : L.isArm64 with
        | false => rw [guest_arm32 harm]; rfl
        | true =>
          rw [Frame.guest, guestLoad_arm64 harm]
          cases (AddressSpace.ptr L { s with mem := .zero } va).1 <;> rfl
      rw [hguest, readLE_zero]
      rfl
  · have hzeros : g.Spacious L s ((zeroSpike k).args [] ks).length := by
      simpa [Spike.args] using hroomy
    obtain ⟨mem, x, v, sp, hlaid, -⟩ := exhibited hvar hzeros fun _ h => absurd h not_mem_nil
    exact ⟨mem, x, v, sp, _, Spike.args_kinds [] ks, hlaid⟩

/-- Where there is room for all arguments, no other signatures are delivered. -/
theorem suits_of_delivers {sig : Signature} {maxn : Nat}
    (hroomy : g.Spacious L s sig.params.length) (hall : Delivers L s g sig maxn) :
    sig.params.length ≤ maxn ∧ g.Suits sig := by
  have hroom : sig.params.length ≤ maxn := by
    by_contra hfull
    cases hkinds : sig.params.map JType.kind with
    | nil =>
      rw [map_eq_nil_iff.mp hkinds] at hfull
      exact hfull (Nat.zero_le _)
    | cons k ks =>
      have hlen : sig.params.length = ks.length + 1 := by simpa using congrArg length hkinds
      obtain ⟨mem, x, v, sp, args, hargs, hlaid⟩ := exists_laidOut (hlen ▸ hroomy)
      have hcount := (hall mem x v sp args (hargs.trans hkinds.symm) hlaid).length_eq
      have hargsLen : args.length = ks.length + 1 := by simpa using congrArg length hargs
      rw [Frame.marshalled, jniMarshalJvalues_text, length_map, length_zipIdx,
        length_take] at hcount
      omega
  refine ⟨hroom, ?_⟩
  by_contra hsuits
  obtain ⟨hvar, hwide⟩ := not_or.mp hsuits
  obtain ⟨t, ht, hcls⟩ : ∃ t ∈ sig.params, t.kind.cls ≠ .word := by simpa using hwide
  -- The first parameter that is no word.
  obtain ⟨front, c, back, hkinds, hfront, hc⟩ : ∃ front c back,
      sig.params.map JType.kind = front ++ c :: back ∧ (∀ k ∈ front, k.cls = .word) ∧
        c.cls ≠ .word := by
    have hsome : ((sig.params.map JType.kind).find? fun k => decide (k.cls ≠ .word)).isSome :=
      find?_isSome.mpr ⟨t.kind, mem_map_of_mem ht, decide_eq_true hcls⟩
    obtain ⟨c, hfind⟩ := isSome_iff_exists.mp hsome
    obtain ⟨hc, front, back, hkinds, hfront⟩ := find?_eq_some_iff_append.mp hfind
    exact ⟨front, c, back, hkinds, by simpa using hfront, of_decide_eq_true hc⟩
  obtain ⟨spike, rfl, -, hletter, hlost⟩ := exists_spike hc
  have hargs := (Spike.args_kinds front back).trans hkinds.symm
  have hlen : (spike.args front back).length = sig.params.length := by
    simpa using congrArg length hargs
  obtain ⟨mem, x, v, sp, hlaid, hlt, hzero⟩ := exhibited hvar (hlen.symm ▸ hroomy) hfront
  have hcarried := (carried_marshalled_iff L _ g hroom hargs).mp (hall mem x v sp _ hargs hlaid)
  have hspike := hcarried front.length spike.arg (by simp [Spike.args])
  rw [jvalueAt, if_neg fun h => hvar h.1] at hspike
  simp only [if_neg hletter] at hspike
  exact hlost _ hlt hzero hspike

end Signatures

end Lunaria.Jni
