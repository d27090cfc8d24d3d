/-
# Which calls the marshaller delivers

For every signature and each of the three entries on both ABIs: when the
arguments that the guest lays out reach the host array unchanged. The marshaller
reads the arena through 32-bit addresses, so the guest's argument memory has to
be a stretch of it; that is always so on A32, and on A64 it is so for the image
window. What remains is a condition on the signature alone.
-/

import Lunaria.Jni.Arguments
import Lunaria.Space.OneMemory

namespace Lunaria.Jni

open Lib Lib.Variadic List

variable (L : Layout) (s : AddressSpace)

/-- The guest range at `va` is the arena range at `base`. -/
def Linear (va base size : Nat) : Prop :=
  base + size ≤ 2 ^ 32 ∧ ∀ k < size, (s.ptr L (va + k)).1 = .arena (base + k)

/-- Where the marshaller looks for the save area of the general registers. -/
def VaList.grBase (va : VaList) : Nat := u32 (va.grTop - 8 * va.grLeft)

/-- What `n` words behind a `va_list` are fetched from is a stretch of the arena each: the list, the
saved registers and the stack. -/
structure VaList.Plain (L : Layout) (s : AddressSpace) (list : Nat) (va : VaList) (n : Nat) :
    Prop where
  list_ne : pack L s list ≠ 0
  list_linear : Linear L s list (pack L s list) 32
  gr_linear : Linear L s (va.grTop - 8 * va.grLeft) va.grBase (8 * min n va.grLeft)
  gr_le : 8 * va.grLeft ≤ va.grTop
  stack_linear : Linear L s va.stack (u32 va.stack) (8 * (n - va.grLeft))
  stack_lt : va.grLeft < n → 0 < va.stack ∧ va.stack < 2 ^ 64

/-- The memory that `n` words, or an array of `n` unions, are fetched from is a stretch of the arena
by 32-bit addresses, and packing an `int` in a register keeps its low word. -/
def Ground.Plain (n : Nat) (g : Ground) : Prop :=
  match g, L.isArm64 with
  | .varargs sp _, false => n ≤ 1 ∨ 4 ≤ sp ∧ sp + 4 * (n - 1) ≤ 2 ^ 32
  | .varargs sp upper, true =>
    Linear L s sp (a64CanonVa L s sp) (8 * (n - 5)) ∧
      ∀ i < min n 5, ∀ w < 2 ^ 32, pack L s (upper i * 2 ^ 32 + w) = w
  | .vaList ap _, false => ap + 4 * n ≤ 2 ^ 32
  | .vaList list va, true => va.Plain L s list n
  | .jvalues array, false => n = 0 ∨ array ≠ 0 ∧ array + 8 * n ≤ 2 ^ 32
  | .jvalues array, true => n = 0 ∨ pack L s array ≠ 0 ∧ Linear L s array (pack L s array) (8 * n)

/-- The unions that the entry builds in an array of `maxn`. -/
def Frame.marshalled (f : Frame) (g : Ground) (sig : Signature) (maxn : Nat) : List Nat :=
  jniMarshalJvalues L.isArm64 f.space.mem.arena (svcRegs L f.space f.x f.sp) g.variant
    (some sig.text) maxn

/-- **Every argument list of the signature that the guest lays out there is
delivered**, whatever else its memory and registers hold. -/
def Delivers (g : Ground) (sig : Signature) (maxn : Nat) : Prop :=
  ∀ (mem : HostMemory) (x v : Nat → Nat) (sp : Nat) (args : List Arg),
    args.map Arg.kind = sig.params.map JType.kind →
    Frame.LaidOut L ⟨{ s with mem := mem }, x, v, sp⟩ g args →
    Carried args (Frame.marshalled L ⟨{ s with mem := mem }, x, v, sp⟩ g sig maxn)

/-! ## The array, union by union -/

def Kind.letter : Kind → UInt8
  | .prim p => p.letter
  | .reference => 76

theorem JType.letter_eq (t : JType) : t.letter = t.kind.letter := by
  cases t <;> rfl

variable {args : List Arg}

theorem carried_zipIdx_iff (union : UInt8 → Nat → Nat) {params : List JType}
    (hkinds : args.map Arg.kind = params.map JType.kind) (i : Nat) :
    Carried args ((params.zipIdx i).map fun tj => union tj.1.letter tj.2) ↔
      ∀ (j : Nat) (a : Arg), args[j]? = some a →
        a.kind.member (union a.kind.letter (i + j)) = a.val := by
  induction args generalizing params i with
  | nil =>
    obtain rfl : params = [] := map_eq_nil_iff.mp hkinds.symm
    simp [Carried]
  | cons a args ih =>
    cases params with
    | nil => cases hkinds
    | cons t params =>
      obtain ⟨hhead, hrest⟩ := cons.inj hkinds
      have hletter : t.letter = a.kind.letter := by rw [t.letter_eq, ← hhead]
      have htail := ih hrest (i + 1)
      rw [Carried] at htail ⊢
      rw [zipIdx_cons, map_cons, forall₂_cons, htail, hletter]
      constructor
      · rintro ⟨hfirst, hlater⟩ j b hb
        cases j with
        | zero =>
          obtain rfl : a = b := Option.some.inj hb
          exact hfirst
        | succ j =>
          rw [← add_assoc, add_right_comm]
          exact hlater j b hb
      · intro h
        refine ⟨h 0 a rfl, fun j b hb => ?_⟩
        have hb' := h (j + 1) b hb
        rwa [← add_assoc, add_right_comm] at hb'

/-- The array carries the arguments when it has room for them and each union
carries its own. -/
theorem carried_marshalled_iff (f : Frame) (g : Ground) {sig : Signature}
    {maxn : Nat} (hroom : sig.params.length ≤ maxn)
    (hkinds : args.map Arg.kind = sig.params.map JType.kind) :
    Carried args (f.marshalled L g sig maxn) ↔ ∀ (j : Nat) (a : Arg), args[j]? = some a →
        a.kind.member (jvalueAt L.isArm64 f.space.mem.arena (svcRegs L f.space f.x f.sp)
          g.variant a.kind.letter j) = a.val := by
  rw [Frame.marshalled, jniMarshalJvalues_text, take_of_length_le hroom,
    carried_zipIdx_iff _ hkinds 0]
  simp

/-! ## Reading the guest's memory -/

theorem ptr_with_mem (mem : HostMemory) (va : Nat) :
    (AddressSpace.ptr L { s with mem } va).1 = (s.ptr L va).1 := by
  have hptr := congrArg Prod.fst (ptr_withMem L s mem va)
  exact hptr

section Reading

variable {L : Layout} {s : AddressSpace} {mem : HostMemory} {x v : Nat → Nat} {sp : Nat}

theorem guest_arm32 (harm : L.isArm64 = false) :
    Frame.guest L ⟨{ s with mem }, x, v, sp⟩ = mem.arena := by
  funext va
  simp [Frame.guest, guestLoad, harm]

theorem guest_linear (harm : L.isArm64) {va base size k width : Nat}
    (h : Linear L s va base size) (hk : k + width ≤ size) :
    (Frame.guest L ⟨{ s with mem }, x, v, sp⟩).readLE (va + k) width =
      mem.arena.readLE (base + k) width := by
  apply ByteMemory.readLE_shift
  intro i hi
  rw [Frame.guest, guestLoad_arm64 harm, ptr_with_mem, add_assoc, h.2 _ (by omega), add_assoc]
  rfl

end Reading

/-! ## Words -/

variable {k : Kind}

theorem promote_lt (hk : k.cls = .word) {v : Nat} (hv : v < 2 ^ k.bits) : k.promote v < 2 ^ 32 := by
  cases k with
  | reference => exact hv
  | prim p =>
    cases p <;> simp only [Kind.cls, reduceCtorEq] at hk <;>
      simp only [Kind.bits, Kind.promote, signExtend] at hv ⊢ <;> (try split) <;> omega

theorem member_promote (hk : k.cls = .word) {v : Nat} (hv : v < 2 ^ k.bits) :
    k.member (if k.letter = 90 then k.promote v % 256 else k.promote v) = v := by
  cases k with
  | reference =>
    have hletter : Kind.reference.letter ≠ 90 := by decide
    simp only [Kind.bits] at hv
    simp only [if_neg hletter, Kind.member, Kind.promote]
    omega
  | prim p =>
    cases p <;> simp only [Kind.cls, reduceCtorEq] at hk <;>
      simp only [Kind.bits, Kind.letter, Prim.letter, Kind.member, Kind.promote,
        signExtend] at hv ⊢ <;> simp <;> (try split) <;> omega

theorem slotBytes_cases (k : Kind) : k.slotBytes = 4 ∨ k.slotBytes = 8 := by
  cases k with
  | reference => exact .inr rfl
  | prim p => cases p <;> simp [Kind.slotBytes]

theorem slotBytes_le (k : Kind) : k.slotBytes ≤ 8 := by
  rcases slotBytes_cases k with h | h <;> omega

variable {m : ByteMemory}

theorem read32_slot (hk : k.cls = .word) {addr v : Nat}
    (hv : v < 2 ^ k.bits) (hslot : m.readLE addr k.slotBytes = k.promote v) :
    m.read32 addr = k.promote v := by
  have hlt := promote_lt hk hv
  cases k with
  | reference =>
    have hmod := m.readLE_mod addr 4 4
    have hslot' : m.readLE addr (4 + 4) = Kind.reference.promote v := hslot
    rw [hslot', Nat.mod_eq_of_lt (by norm_num at hlt ⊢; exact hlt)] at hmod
    exact hmod.symm
  | prim p => cases p <;> simp only [Kind.cls, reduceCtorEq] at hk <;> exact hslot

variable {arm64 : Bool}

theorem member_jvalueAt_word {regs : Nat → Nat}
    {variant : Variant} (hvar : variant ≠ .jvalues) (hk : k.cls = .word) {v i : Nat}
    (hv : v < 2 ^ k.bits) (hword : jniArgWord arm64 m regs variant i = k.promote v) :
    k.member (jvalueAt arm64 m regs variant k.letter i) = v := by
  rw [jvalueAt, if_neg fun h => hvar h.1]
  simp only [hword]
  exact member_promote hk hv

/-! ## The walk over a `va_list` -/

theorem vaWalk_stack (m : ByteMemory) (top : Nat) {offs : Int} (hoffs : 0 ≤ offs) {n stack : Nat}
    (hpos : 0 < stack) (hlt : stack < 2 ^ 64) (hfit : u32 stack + 8 * (n + 1) ≤ 2 ^ 32)
    (val : Nat) : vaWalk m top (n + 1) offs stack val = m.readLE (u32 stack + 8 * n) 8 := by
  induction n generalizing stack val with
  | zero =>
    rw [vaWalk, if_neg (by omega), if_neg (by omega)]
    rfl
  | succ n ih =>
    have hnext : (stack + 8) % 2 ^ 64 = stack + 8 := by
      rw [u32] at hfit
      omega
    have hword : u32 (stack + 8) = u32 stack + 8 := by
      rw [u32] at hfit ⊢
      rw [u32]
      omega
    have hrest : vaWalk m top (n + 1) offs (stack + 8) (m.readLE (u32 stack) 8) =
        m.readLE (u32 (stack + 8) + 8 * n) 8 :=
      ih (by omega) (by omega) (by rw [hword]; omega) _
    rw [vaWalk, if_neg (by omega), if_neg (by omega), hnext, hrest]
    congr 1
    omega

theorem vaWalk_gr (m : ByteMemory) {top G n : Nat} (hn : n < G) (hle : 8 * G ≤ top)
    (hfit : u32 (top - 8 * G) + 8 * (n + 1) ≤ 2 ^ 32) (stack val : Nat) :
    vaWalk m top (n + 1) (-(8 * G)) stack val = m.readLE (u32 (top - 8 * G) + 8 * n) 8 := by
  have haddr : (((top : Int) + -(8 * G)) % 2 ^ 32).toNat = u32 (top - 8 * G) := by
    rw [u32]
    omega
  induction n generalizing G val with
  | zero =>
    rw [vaWalk, if_pos (by omega), haddr]
    rfl
  | succ n ih =>
    obtain ⟨G, rfl⟩ : ∃ G', G = G' + 1 := ⟨G - 1, by omega⟩
    have hword : u32 (top - 8 * G) = u32 (top - 8 * (G + 1)) + 8 := by
      rw [u32]
      omega
    have hoffs : -(8 * ((G + 1 : Nat) : Int)) + 8 = -(8 * (G : Int)) := by omega
    have hrest := ih (G := G) (by omega) (by omega) (by rw [hword]; omega)
      (m.readLE (u32 (top - 8 * (G + 1))) 8) (by rw [u32]; omega)
    rw [vaWalk, if_pos (by omega), haddr, hoffs, hrest]
    congr 1
    omega

theorem vaWalk_past (m : ByteMemory) (top G n stack val : Nat) :
    ∃ val', vaWalk m top (G + n) (-(8 * G)) stack val = vaWalk m top n 0 stack val' := by
  induction G generalizing val with
  | zero => exact ⟨val, by simp⟩
  | succ G ih =>
    have hoffs : -(8 * ((G + 1 : Nat) : Int)) + 8 = -(8 * (G : Int)) := by omega
    obtain ⟨val', hrest⟩ := ih (m.readLE (((top : Int) + -(8 * (G + 1 : Nat))) % 2 ^ 32).toNat 8)
    refine ⟨val', ?_⟩
    rw [add_right_comm, vaWalk, if_pos (by omega), hoffs, hrest]

/-- **What `a64_va_arg_u64` finds** for a `va_list` that lies plainly in memory. -/
theorem a64VaArgU64_plain {list i : Nat} {va : VaList} (hlist : list ≠ 0)
    (hfit : list + 32 ≤ 2 ^ 32)
    (hstack : m.readLE list 8 = va.stack) (hgr : m.readLE (list + 8) 8 = va.grTop)
    (hoffs : int32 (m.readLE (list + 24) 4) = -(8 * va.grLeft))
    (hle : 8 * va.grLeft ≤ va.grTop)
    (hgrfit : i < va.grLeft → va.grBase + 8 * (i + 1) ≤ 2 ^ 32)
    (hpos : va.grLeft ≤ i → 0 < va.stack ∧ va.stack < 2 ^ 64)
    (hstfit : va.grLeft ≤ i → u32 va.stack + 8 * (i - va.grLeft + 1) ≤ 2 ^ 32) :
    a64VaArgU64 m list i =
      if i < va.grLeft then m.readLE (va.grBase + 8 * i) 8
      else m.readLE (u32 va.stack + 8 * (i - va.grLeft)) 8 := by
  rw [a64VaArgU64, if_neg hlist, u32_of_lt (by omega), u32_of_lt (by omega), hstack, hgr, hoffs]
  by_cases hreg : i < va.grLeft
  · rw [if_pos hreg]
    exact vaWalk_gr m hreg hle (hgrfit hreg) ..
  · rw [if_neg hreg]
    obtain ⟨val, hpast⟩ := vaWalk_past m va.grTop va.grLeft _ va.stack 0
    rw [show i + 1 = va.grLeft + (i - va.grLeft + 1) by omega, hpast]
    have hleft : va.grLeft ≤ i := by omega
    exact vaWalk_stack m _ (by omega) (hpos hleft).1 (hpos hleft).2 (hstfit hleft) val

/-! ## Word arguments are found -/

section Words

variable {L : Layout} {s : AddressSpace} {mem : HostMemory} {x v : Nat → Nat} {sp : Nat}
variable {args : List Arg} {n j : Nat} {a : Arg}

theorem cls_words (hwords : ∀ a ∈ args, a.cls = .word) : ∀ c ∈ args.map Arg.cls, c = .word := by
  intro c hc
  obtain ⟨a, ha, rfl⟩ := mem_map.mp hc
  exact hwords a ha

theorem pack_of_mod {y w : Nat} (hy : y % 2 ^ 64 = w) (hw : w < 2 ^ 32) : pack L s y = w := by
  have hlow : y < 2 ^ 32 ∨ 2 ^ 64 ≤ y := by omega
  have himage : a64IsGuestVa y = false := by
    rcases hlow with hlt | hge
    · exact a64IsGuestVa_of_lt hlt
    · have hout : ¬ y < a64GuestBase + a64GuestSize := by
        rw [a64GuestBase, a64GuestSize]
        omega
      simp [a64IsGuestVa, hout]
  have hhi : hiWord y = 0 := by
    rw [hiWord, u32]
    omega
  rw [pack, himage, if_neg (by decide), if_pos hhi, loWord, u32]
  omega

/-- A word is packed to itself if packing keeps the low word under what stands above it. -/
theorem pack_register {i u : Nat} (hcls : a.kind.cls = .word)
    (hcell : x (3 + i) % 256 ^ a.kind.slotBytes = a.kind.promote a.val)
    (hupper : a.kind.slotBytes = 4 → x (3 + i) / 2 ^ 32 = u)
    (hkeeps : ∀ w < 2 ^ 32, pack L s (u * 2 ^ 32 + w) = w) :
    pack L s (x (3 + i)) = a.kind.promote a.val := by
  have hlt := promote_lt hcls a.lt
  by_cases hnarrow : a.kind.slotBytes = 4
  · have hsplit : x (3 + i) = u * 2 ^ 32 + a.kind.promote a.val := by
      have hdiv := hupper hnarrow
      rw [hnarrow] at hcell
      omega
    rw [hsplit]
    exact hkeeps _ hlt
  · apply pack_of_mod _ hlt
    have hwide : a.kind.slotBytes = 8 := (slotBytes_cases a.kind).resolve_left hnarrow
    rw [hwide] at hcell
    exact hcell

variable (hwords : ∀ a ∈ args, a.cls = .word) (ha : args[j]? = some a)
include hwords ha

theorem inStream_word {cell : Nat → Nat → Nat} {start : Nat} (h : InStream cell start args) :
    cell (start + 4 * j) 4 = a.kind.promote a.val := by
  have hlt := (List.getElem?_eq_some_iff.mp ha).1
  have hplace : (places32 start (args.map Arg.cls))[j]? = some (start + 4 * j) :=
    places32_word_getElem? (cls_words hwords) (by rwa [length_map])
  have hcell := h j a _ ha hplace
  have hcls : a.kind.cls = .word := hwords a (mem_of_getElem? ha)
  rwa [hcls] at hcell

theorem inBanks_word {cell : Place → Nat → Nat} {G V : Nat} (h : InBanks cell G V args) :
    cell (integerPlace G j) a.kind.slotBytes = a.kind.promote a.val := by
  have hlt := (List.getElem?_eq_some_iff.mp ha).1
  refine h j a _ ha (places64_integer_getElem? (fun c hc => ?_) (by rwa [length_map]))
  rw [cls_words hwords c hc]
  exact nofun

variable (hj : j < n)
include hj

theorem word_varargs32 (harm : L.isArm64 = false) {base : Nat} {upper : Nat → Nat}
    (hplain : Ground.Plain L s n (.varargs base upper))
    (hlaid : Frame.LaidOut L ⟨{ s with mem }, x, v, sp⟩ (.varargs base upper) args) :
    jniArgWord L.isArm64 mem.arena (svcRegs L { s with mem } x sp) .varargs j =
      a.kind.promote a.val := by
  simp only [Ground.Plain, Frame.LaidOut, harm] at hplain hlaid
  obtain ⟨rfl, hstream⟩ := hlaid
  have hcell := inStream_word hwords ha hstream
  simp only [Frame.cell32, guest_arm32 harm] at hcell
  simp only [jniArgWord, harm, svcRegs, svcArg, Bool.false_eq_true, if_false, if_true]
  cases j with
  | zero => rwa [if_pos (by omega)] at hcell
  | succ j =>
    replace hplain := hplain.resolve_left (by omega)
    rw [if_neg (by omega)] at hcell
    rw [u32_of_lt (by omega), show sp + (j + 1 - 1) * 4 = sp - 4 + 4 * (j + 1) by omega]
    exact hcell

theorem word_vaList32 (harm : L.isArm64 = false) {ap : Nat} {va : VaList}
    (hplain : Ground.Plain L s n (.vaList ap va))
    (hlaid : Frame.LaidOut L ⟨{ s with mem }, x, v, sp⟩ (.vaList ap va) args) :
    jniArgWord L.isArm64 mem.arena (svcRegs L { s with mem } x sp) .vaList j =
      a.kind.promote a.val := by
  simp only [Ground.Plain, Frame.LaidOut, harm] at hplain hlaid
  obtain ⟨rfl, hstream⟩ := hlaid
  have hcell := inStream_word hwords ha hstream
  rw [guest_arm32 harm] at hcell
  have hreg : svcRegs L { s with mem } x sp 3 = x 3 := by simp [svcRegs, svcArg, harm]
  simp only [jniArgWord, harm, hreg, Bool.false_eq_true, if_false]
  rw [u32_of_lt (by omega), mul_comm j]
  exact hcell

theorem word_varargs64 (harm : L.isArm64) {base : Nat} {upper : Nat → Nat}
    (hplain : Ground.Plain L s n (.varargs base upper))
    (hlaid : Frame.LaidOut L ⟨{ s with mem }, x, v, sp⟩ (.varargs base upper) args) :
    jniArgWord L.isArm64 mem.arena (svcRegs L { s with mem } x sp) .varargs j =
      a.kind.promote a.val := by
  simp only [Ground.Plain, Frame.LaidOut, harm] at hplain hlaid
  obtain ⟨rfl, hbanks, hupper⟩ := hlaid
  obtain ⟨hlinear, hkeeps⟩ := hplain
  have hcls : a.kind.cls = .word := hwords a (mem_of_getElem? ha)
  have hcell := inBanks_word hwords ha hbanks
  simp only [jniArgWord, harm, svcRegs, svcArg, if_true]
  by_cases hreg : j < 5
  · have hlt := (List.getElem?_eq_some_iff.mp ha).1
    have hplace : (places64 5 8 (usedBy 5 0) (args.map Arg.cls))[j]? = some (.gr j) := by
      rw [places64_integer_getElem? fun c hc => by rw [cls_words hwords c hc]; decide
        (by rwa [length_map]), integerPlace, if_pos hreg]
    rw [integerPlace, if_pos hreg] at hcell
    rw [if_pos hreg, if_neg (by omega)]
    exact pack_register hcls hcell (hupper j a j ha hplace) (hkeeps j (by omega))
  · rw [integerPlace, if_neg hreg] at hcell
    have hslot := slotBytes_le a.kind
    simp only [Frame.cell64] at hcell
    rw [guest_linear harm hlinear (by omega)] at hcell
    have hbase : a64CanonVa L { s with mem } sp = a64CanonVa L s sp := rfl
    have hfit := hlinear.1
    rw [if_neg hreg, u32_of_lt (by omega), mul_comm]
    exact read32_slot hcls a.lt hcell

theorem word_vaList64 (harm : L.isArm64) {list : Nat} {va : VaList}
    (hplain : Ground.Plain L s n (.vaList list va))
    (hlaid : Frame.LaidOut L ⟨{ s with mem }, x, v, sp⟩ (.vaList list va) args) :
    jniArgWord L.isArm64 mem.arena (svcRegs L { s with mem } x sp) .vaList j =
      a.kind.promote a.val := by
  simp only [Ground.Plain, Frame.LaidOut, harm] at hplain hlaid
  obtain ⟨rfl, ⟨hstack, hgr, -, hoffs, -⟩, hbanks⟩ := hlaid
  have hcls : a.kind.cls = .word := hwords a (mem_of_getElem? ha)
  have hcell := inBanks_word hwords ha hbanks
  have hlist := hplain.list_linear
  have hreg : svcRegs L { s with mem } x sp 3 = pack L s (x 3) := by
    simp only [svcRegs, svcArg, harm]
    rfl
  have hgrfit := hplain.gr_linear.1
  have hstfit := hplain.stack_linear.1
  have hfound := a64VaArgU64_plain (i := j) hplain.list_ne hlist.1
    (by rw [← hstack]; exact (guest_linear harm hlist (by omega) (k := 0)).symm)
    (by rw [← hgr]; exact (guest_linear harm hlist (by omega)).symm)
    (by rw [← hoffs]; exact congrArg int32 (guest_linear harm hlist (by omega)).symm)
    hplain.gr_le (by omega) (fun _ => hplain.stack_lt (by omega)) (by omega)
  have hslot := slotBytes_le a.kind
  have hlow (addr : Nat) : u32 (mem.arena.readLE addr 8) = mem.arena.read32 addr := by
    have hmod := mem.arena.readLE_mod addr 4 4
    exact hmod
  simp only [jniArgWord, harm, hreg, hfound]
  by_cases hleft : j < va.grLeft
  · rw [integerPlace, if_pos hleft] at hcell
    simp only [Frame.listCell] at hcell
    rw [guest_linear harm hplain.gr_linear (by omega)] at hcell
    rw [if_pos hleft, hlow]
    exact read32_slot hcls a.lt hcell
  · rw [integerPlace, if_neg hleft] at hcell
    simp only [Frame.listCell] at hcell
    rw [guest_linear harm hplain.stack_linear (by omega)] at hcell
    rw [if_neg hleft, hlow]
    exact read32_slot hcls a.lt hcell

end Words

/-! ## Arrays of unions -/

theorem member_union {addr v : Nat}
    (hv : v < 2 ^ k.bits) (h : m.readLE addr (k.unionBytes arm64) = v) :
    k.member (if k.letter = 74 ∨ k.letter = 68 then m.read32 (addr + 4) * 2 ^ 32 + m.read32 addr
      else if k.letter = 90 then m.read32 addr % 256 else m.read32 addr) = v := by
  have hlow1 : m.read32 addr % 2 ^ 8 = m.readLE addr 1 := m.readLE_mod addr 1 3
  have hlow2 : m.read32 addr % 2 ^ 16 = m.readLE addr 2 := m.readLE_mod addr 2 2
  have hlow4 : m.read32 addr = m.readLE addr 4 := rfl
  have hwhole : m.readLE addr 8 = m.read32 addr + 2 ^ 32 * m.read32 (addr + 4) :=
    m.readLE_add addr 4 4
  cases k with
  | reference =>
    cases arm64 <;> simp [Kind.letter, Kind.unionBytes, Kind.bits, Kind.member] at h hv ⊢ <;> omega
  | prim p =>
    cases p <;>
      simp [Kind.letter, Prim.letter, Kind.unionBytes, Kind.bits, Kind.member] at h hv ⊢ <;>
      omega

/-- **A union of the guest's array is marshalled whole.** -/
theorem member_jvalueAt_union {regs : Nat → Nat} {base n j : Nat}
    {a : Arg} (hreg : regs 3 = base) (hne : base ≠ 0) (hfit : base + 8 * n ≤ 2 ^ 32) (hj : j < n)
    (h : m.readLE (base + 8 * j) (a.kind.unionBytes arm64) = a.val) :
    a.kind.member (jvalueAt arm64 m regs .jvalues a.kind.letter j) = a.val := by
  have hlo : u32 (base + j * 8) = base + 8 * j := by
    rw [mul_comm]
    exact u32_of_lt (by omega)
  have hhi : u32 (base + (j * 8 + 4)) = base + 8 * j + 4 := by
    rw [mul_comm]
    exact u32_of_lt (by omega)
  rw [jvalueAt, if_pos ⟨rfl, by rwa [hreg]⟩]
  simp only [hreg, hlo, hhi]
  exact member_union a.lt h

theorem union_jvalues {L : Layout} {s : AddressSpace} {mem : HostMemory} {x v : Nat → Nat}
    {sp array n j : Nat} {a : Arg} (hplain : Ground.Plain L s n (.jvalues array)) (hj : j < n)
    (hlaid : Frame.LaidOut L ⟨{ s with mem }, x, v, sp⟩ (.jvalues array) args)
    (ha : args[j]? = some a) :
    a.kind.member (jvalueAt L.isArm64 mem.arena (svcRegs L { s with mem } x sp) .jvalues
      a.kind.letter j) = a.val := by
  obtain ⟨hptr, hcells⟩ : x 3 = array ∧ _ := hlaid
  have hcell := hcells j a ha
  cases harm : L.isArm64 with
  | false =>
    simp only [Ground.Plain, harm] at hplain
    obtain ⟨hne, hfit⟩ := hplain.resolve_left (by omega)
    rw [guest_arm32 harm, harm] at hcell
    exact member_jvalueAt_union (by simp [svcRegs, svcArg, harm, hptr]) hne hfit hj hcell
  | true =>
    simp only [Ground.Plain, harm] at hplain
    obtain ⟨hne, hlinear⟩ := hplain.resolve_left (by omega)
    have hbytes : a.kind.unionBytes true ≤ 8 := by
      generalize a.kind = k
      cases k with
      | reference => decide
      | prim p => cases p <;> decide
    rw [harm, guest_linear harm hlinear (by omega)] at hcell
    refine member_jvalueAt_union ?_ hne hlinear.1 hj hcell
    simp only [svcRegs, svcArg, harm, hptr]
    rfl

/-! ## What is enough -/

theorem varargs_ne_jvalues : Variant.varargs ≠ .jvalues := nofun

theorem vaList_ne_jvalues : Variant.vaList ≠ .jvalues := nofun

/-- A call with nothing but word arguments, or with an array of unions. -/
def Ground.Suits (g : Ground) (sig : Signature) : Prop :=
  g.variant = .jvalues ∨ ∀ t ∈ sig.params, t.kind.cls = .word

/-- **Plain calls are delivered** when the host array has room and no argument of
a variadic entry is wider than a word. -/
theorem delivers_of_suits {L : Layout} {s : AddressSpace} {g : Ground} {sig : Signature}
    {maxn : Nat} (hplain : g.Plain L s sig.params.length) (hroom : sig.params.length ≤ maxn)
    (hsuits : g.Suits sig) : Delivers L s g sig maxn := by
  intro mem x v sp args hkinds hlaid
  rw [carried_marshalled_iff L _ g hroom hkinds]
  intro j a ha
  have hlen : args.length = sig.params.length := by simpa using congrArg length hkinds
  have hj : j < sig.params.length := hlen ▸ (List.getElem?_eq_some_iff.mp ha).1
  rcases hsuits with hvar | hwords
  · cases g with
    | varargs _ _ | vaList _ _ => cases hvar
    | jvalues array => exact union_jvalues hplain hj hlaid ha
  have hcls : ∀ a ∈ args, a.cls = .word := by
    intro a ha
    have hmem : a.kind ∈ sig.params.map JType.kind := hkinds ▸ mem_map_of_mem ha
    obtain ⟨t, ht, hkind⟩ := mem_map.mp hmem
    rw [Arg.cls, ← hkind]
    exact hwords t ht
  have ha' : a.kind.cls = .word := hcls a (mem_of_getElem? ha)
  cases g with
  | jvalues array => exact union_jvalues hplain hj hlaid ha
  | varargs base upper =>
    refine member_jvalueAt_word varargs_ne_jvalues ha' a.lt ?_
    cases harm : L.isArm64 with
    | false => exact harm ▸ word_varargs32 hcls ha hj harm hplain hlaid
    | true => exact harm ▸ word_varargs64 hcls ha hj harm hplain hlaid
  | vaList list va =>
    refine member_jvalueAt_word vaList_ne_jvalues ha' a.lt ?_
    cases harm : L.isArm64 with
    | false => exact harm ▸ word_vaList32 hcls ha hj harm hplain hlaid
    | true => exact harm ▸ word_vaList64 hcls ha hj harm hplain hlaid

end Lunaria.Jni
