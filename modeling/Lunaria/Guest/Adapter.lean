/-
# Registers across the SVC adapters

The handlers work on an array of sixteen 32-bit registers. The A32 adapter copies the whole
array in and out; the A64 adapter packs `x0`–`x7`, the stack pointer and the link register into
it and takes back the result alone. Handlers that mean other registers, or wider ones, do what
they say on A32 only.
-/

import Lunaria.Elf.Binding
import Lunaria.Space.OneMemory
import Mathlib.Data.List.Induction

namespace Lunaria

open Lib List Option ByteMemory
open Elf.Linker (storeWords wordRanges storeWords_frame)

/-- How a handler leaves its result. -/
inductive SvcRet
  | ret32 (v : Nat)
  | ret64 (v : Nat)
  | retptr (v : Nat)
  deriving DecidableEq

/-- `x0` behind a handler: a result of all ones is extended, since it stands for an error. -/
def SvcRet.x0 : SvcRet → Nat
  | .ret32 v => if v = 0xffffffff then 2 ^ 64 - 1 else v
  | .ret64 v => v
  | .retptr v => if v ≠ 0 then a64GuestVa v else 0

/-- `g_svc_ret64` and `g_svc_retptr` when a handler answers. They are clear, unless guest code has
made calls since its own was taken: in a scheduler pass in front of the handler, or called by it.
Then they are what the last of these left. -/
structure SvcFlags where
  long : Bool
  ptr : Bool
  deriving DecidableEq

def SvcFlags.clear : SvcFlags := ⟨false, false⟩

/-- The flags behind an answer. -/
def SvcFlags.after (left : SvcFlags) : SvcRet → SvcFlags
  | .ret32 _ => left
  | .ret64 _ => { left with long := true }
  | .retptr _ => { left with ptr := true }

/-- `x0` behind a handler that found these flags; `r1` is the second word of the array. A handler
sets the flag of its own kind and clears none. -/
def SvcRet.x0Of (left : SvcFlags) (r1 : Nat) : SvcRet → Nat
  | .ret32 v =>
    if left.ptr then (SvcRet.retptr v).x0 else if left.long then v + 2 ^ 32 * r1
    else (SvcRet.ret32 v).x0
  | .ret64 v => if left.ptr then (SvcRet.retptr (u32 v)).x0 else v
  | .retptr v => (SvcRet.retptr v).x0

/-- No flag is left that says another kind than the answer's own. -/
def SvcFlags.Fits (left : SvcFlags) : SvcRet → Prop
  | .ret32 _ => left = .clear
  | .ret64 _ => left.ptr = false
  | .retptr _ => True

theorem SvcRet.x0Of_of_fits {left : SvcFlags} {ret : SvcRet} (h : left.Fits ret) (r1 : Nat) :
    ret.x0Of left r1 = ret.x0 := by
  cases ret with
  | ret32 v =>
    cases h
    rfl
  | ret64 v => exact if_neg (Bool.eq_false_iff.mp h)
  | retptr v => rfl

/-- Where the flag of a pointer is left, the value is null or the image address of its low word. -/
def SvcFlags.KeepsLong (left : SvcFlags) (v : Nat) : Prop :=
  left.ptr = true → v = 0 ∨ u32 v ≠ 0 ∧ v = a64GuestVa (u32 v)

/-- The same for a value that is returned by its low word: the adapter makes a result below 2^32 - 1
or all ones of it, or puts `r1` above it if the other flag is left. -/
def SvcFlags.KeepsWord (left : SvcFlags) (r1 v : Nat) : Prop :=
  left.KeepsLong v ∧ (left.ptr = false →
    if left.long then v / 2 ^ 32 = r1 else v < 2 ^ 32 - 1 ∨ v = 2 ^ 64 - 1)

theorem SvcRet.x0_retptr_iff (v : Nat) :
    (SvcRet.retptr (u32 v)).x0 = v ↔ v = 0 ∨ u32 v ≠ 0 ∧ v = a64GuestVa (u32 v) := by
  by_cases hlow : u32 v = 0
  · simp [SvcRet.x0, hlow, eq_comm]
  · have hne : v ≠ 0 := by
      rintro rfl
      exact hlow rfl
    simp [SvcRet.x0, hlow, hne, eq_comm]

theorem SvcRet.x0Of_ret64_iff (left : SvcFlags) (r1 v : Nat) :
    (SvcRet.ret64 v).x0Of left r1 = v ↔ left.KeepsLong v := by
  cases hptr : left.ptr with
  | true => simp [SvcRet.x0Of, SvcFlags.KeepsLong, hptr, SvcRet.x0_retptr_iff]
  | false => simp [SvcRet.x0Of, SvcFlags.KeepsLong, hptr]

theorem SvcRet.x0Of_ret32_iff (left : SvcFlags) {r1 v : Nat} (hv : v < 2 ^ 64) :
    (SvcRet.ret32 (u32 v)).x0Of left r1 = v ↔ left.KeepsWord r1 v := by
  cases hptr : left.ptr with
  | true =>
    simp [SvcRet.x0Of, SvcFlags.KeepsWord, SvcFlags.KeepsLong, hptr, SvcRet.x0_retptr_iff]
  | false =>
    cases hlong : left.long with
    | true =>
      simp only [SvcRet.x0Of, SvcFlags.KeepsWord, SvcFlags.KeepsLong, hptr, hlong, u32, if_true]
      simp only [Bool.false_eq_true, if_false, false_imp_iff, true_imp_iff, true_and]
      omega
    | false =>
      simp only [SvcRet.x0Of, SvcFlags.KeepsWord, SvcFlags.KeepsLong, hptr, hlong, SvcRet.x0]
      simp only [Bool.false_eq_true, if_false, false_imp_iff, true_imp_iff, true_and]
      by_cases hones : u32 v = 0xffffffff
      · rw [if_pos hones]
        rw [u32] at hones
        omega
      · rw [if_neg hones]
        rw [u32] at hones ⊢
        omega

/-- The results in `r0`, and in `r1` if there are two. -/
def SvcRet.r0r1 : SvcRet → Nat
  | .ret32 v | .ret64 v | .retptr v => v

/-- The registers at a call: `r0`–`r14` or `x0`–`x30`, and the stack pointer beside them. -/
structure Caller where
  x : Nat → Nat
  sp : Nat

namespace Caller

variable (L : Layout) (s : AddressSpace) (c : Caller)

/-- The array of the handlers, without the program counter. -/
def regs (r : Nat) : Nat :=
  if L.isArm64 then
    if r < 8 then pack L s (c.x r)
    else if r = 13 then a64CanonVa L s c.sp
    else if r = 14 then a64CanonVa L s (c.x 30)
    else 0
  else if r = 13 then c.sp
  else c.x r

/-- What the caller finds behind a handler that leaves the array and returns by `ret32`. -/
def resume (regs : Nat → Nat) : Caller :=
  if L.isArm64 then { c with x := Function.update c.x 0 (SvcRet.ret32 (regs 0)).x0 }
  else ⟨regs, regs 13⟩

/-- The link register, to which the trampoline of every call returns. -/
def lr : Nat := if L.isArm64 then c.x 30 else c.x 14

theorem regs_lt {L : Layout} (harm : L.isArm64) (s : AddressSpace) (c : Caller) (r : Nat) :
    c.regs L s r < 2 ^ 32 := by
  rw [regs]
  split_ifs
  · exact pack_lt L s _
  · exact a64CanonVa_lt L s _
  · exact a64CanonVa_lt L s _
  · decide

end Caller

/-! ## Words one behind the other -/

section Words

variable {m : ByteMemory} {addr : Nat}

theorem storeWords_concat (words : List Nat) (w : Nat) : storeWords m addr (words ++ [w]) =
      (storeWords m addr words).write32 (u32 (addr + words.length * 4)) w := by
  simp [storeWords, zipIdx_append]

/-- A stored word is read back, also where the addresses wrap around. -/
theorem read32_storeWords {words : List Nat} (hlen : words.length ≤ 2 ^ 30) {j w : Nat}
    (hw : words[j]? = some w) : (storeWords m addr words).read32 (u32 (addr + j * 4)) = u32 w := by
  induction words using reverseRecOn with
  | nil => cases hw
  | append_singleton words v ih =>
    rw [length_append, length_singleton] at hlen
    rw [storeWords_concat]
    by_cases hj : j < words.length
    · have happart : u32 (addr + j * 4) + 4 ≤ u32 (addr + words.length * 4) ∨
          u32 (addr + words.length * 4) + 4 ≤ u32 (addr + j * 4) := by
        simp only [u32]
        omega
      rw [read32_write32_of_disjoint _ _ _ _ (by omega)]
      exact ih (by omega) (by rwa [getElem?_append_left hj] at hw)
    · obtain rfl : j = words.length := by
        have hlt := (List.getElem?_eq_some_iff.mp hw).1
        rw [length_append, length_singleton] at hlt
        omega
      rw [getElem?_concat_length] at hw
      cases hw
      exact readLE_writeLE _ _ 4 _

end Words

/-! ## `setjmp` and `longjmp` -/

/-- The registers of a `jmp_buf`, in the order of its words behind the magic. -/
def jmpRegs : List Nat := [4, 5, 6, 7, 8, 9, 10, 11, 13, 14]

def jmpMagic : Nat := 0x4A4D5031

def svcSetjmp (regs : Nat → Nat) (m : ByteMemory) : ByteMemory :=
  if regs 0 ≠ 0 then storeWords m (regs 0) (jmpMagic :: jmpRegs.map regs) else m

def jmpValue (v : Nat) : Nat := if v ≠ 0 then v else 1

/-- `SVC_LONGJMP`: the array it leaves. -/
def svcLongjmp (L : Layout) (regs : Nat → Nat) (m : ByteMemory) (r : Nat) : Nat :=
  if regs 0 ≠ 0 ∧ m.read32 (regs 0) = jmpMagic then
    if r = 0 then jmpValue (regs 1)
    else if r ∈ jmpRegs then m.read32 (u32 (regs 0 + (jmpRegs.idxOf r + 1) * 4))
    else regs r
  else if r = 0 then 0
  else if r = 14 ∨ r = 15 then L.sentinelAddr
  else regs r

/-- A `setjmp` and a later `longjmp` with its buffer, of which nobody has written a word. -/
structure JmpPair (L : Layout) where
  s : AddressSpace
  set : Caller
  mem : ByteMemory
  s' : AddressSpace
  jump : Caller
  mem' : ByteMemory
  buf : jump.regs L s' 0 = set.regs L s 0
  ne_zero : set.regs L s 0 ≠ 0
  kept : ∀ i < 11, mem'.read32 (u32 (set.regs L s 0 + i * 4)) =
    (svcSetjmp (set.regs L s) mem).read32 (u32 (set.regs L s 0 + i * 4))
  words : ∀ r, set.regs L s r < 2 ^ 32 ∧ jump.regs L s' r < 2 ^ 32

namespace JmpPair

variable {L : Layout} (j : JmpPair L)

def after : Caller := j.jump.resume L (svcLongjmp L (j.jump.regs L j.s') j.mem')

/-- The two states agree in the return address, the stack pointer and the registers a callee
has to keep. -/
def Same (L : Layout) (c c' : Caller) : Prop :=
  c'.lr L = c.lr L ∧ c'.sp = c.sp ∧
    ∀ r ∈ if L.isArm64 then List.range' 19 11 else List.range' 4 8, c'.x r = c.x r

/-- `setjmp` returns again, with the value. -/
def Resumes : Prop :=
  u32 (j.after.x 0) = jmpValue (u32 (j.jump.x 1)) ∧ Same L j.set j.after

theorem read32_buf {i w : Nat}
    (hw : (jmpMagic :: jmpRegs.map (j.set.regs L j.s))[i]? = some w) (hlt : w < 2 ^ 32) :
    j.mem'.read32 (u32 (j.set.regs L j.s 0 + i * 4)) = w := by
  have hi := (List.getElem?_eq_some_iff.mp hw).1
  rw [j.kept i (by simpa [jmpRegs] using hi), svcSetjmp, if_pos j.ne_zero,
    read32_storeWords (by simp [jmpRegs]) hw, u32_of_lt hlt]

theorem magic : j.mem'.read32 (j.set.regs L j.s 0) = jmpMagic := by
  have hword := j.read32_buf (i := 0) rfl (by decide)
  rwa [Nat.add_zero, u32_of_lt (j.words 0).1] at hword

theorem svcLongjmp_zero :
    svcLongjmp L (j.jump.regs L j.s') j.mem' 0 = jmpValue (j.jump.regs L j.s' 1) := by
  rw [svcLongjmp, j.buf, if_pos ⟨j.ne_zero, j.magic⟩, if_pos rfl]

theorem svcLongjmp_saved {r : Nat} (hr : r ∈ jmpRegs) :
    svcLongjmp L (j.jump.regs L j.s') j.mem' r = j.set.regs L j.s r := by
  have hne : r ≠ 0 := by
    rintro rfl
    revert hr
    decide
  rw [svcLongjmp, j.buf, if_pos ⟨j.ne_zero, j.magic⟩, if_neg hne, if_pos hr]
  refine j.read32_buf ?_ (j.words r).1
  rw [getElem?_cons_succ, getElem?_map, getElem?_idxOf hr]
  rfl

theorem same_after_iff (harm : L.isArm64) : Same L j.set j.after ↔ Same L j.set j.jump := by
  have hkeep (r : Nat) (hr : r ≠ 0) : j.after.x r = j.jump.x r := by
    simp [after, Caller.resume, harm, hr]
  have hsp : j.after.sp = j.jump.sp := by simp [after, Caller.resume, harm]
  have hne : ∀ r ∈ range' 19 11, r ≠ 0 := by decide
  simp only [Same, Caller.lr, harm, hsp, hkeep 30 (by decide)]
  refine and_congr_right' (and_congr_right' (forall₂_congr fun r hr => ?_))
  rw [hkeep r (hne r hr)]

/-- **`longjmp` resumes at `setjmp`** always on A32, and on A64 exactly when the registers have
not changed since then and the value is packed to itself: nothing but `x0` is written back. -/
theorem resumes_iff : j.Resumes ↔ (L.isArm64 = true → Same L j.set j.jump ∧
    jmpValue (pack L j.s' (j.jump.x 1)) = jmpValue (u32 (j.jump.x 1))) := by
  cases harm : L.isArm64 with
  | false =>
    have hset (r : Nat) (hr : r ≠ 13) : j.set.regs L j.s r = j.set.x r := by
      simp [Caller.regs, harm, hr]
    have hx1 : j.jump.regs L j.s' 1 = j.jump.x 1 := by simp [Caller.regs, harm]
    have hlt : j.jump.x 1 < 2 ^ 32 := hx1 ▸ (j.words 1).2
    have hvalue : jmpValue (j.jump.x 1) < 2 ^ 32 := by
      rw [jmpValue]
      split <;> omega
    simp only [Resumes, Same, after, Caller.resume, Caller.lr, harm, Bool.false_eq_true, if_false,
      false_imp_iff, iff_true]
    refine ⟨?_, ?_, ?_, fun r hr => ?_⟩
    · rw [j.svcLongjmp_zero, hx1, u32_of_lt hvalue, u32_of_lt hlt]
    · rw [j.svcLongjmp_saved (by decide), hset 14 (by decide)]
    · rw [j.svcLongjmp_saved (by decide)]
      simp [Caller.regs, harm]
    · have hsaved : ∀ r ∈ range' 4 8, r ∈ jmpRegs ∧ r ≠ 13 := by decide
      rw [j.svcLongjmp_saved (hsaved r hr).1, hset r (hsaved r hr).2]
  | true =>
    have hx1 : j.jump.regs L j.s' 1 = pack L j.s' (j.jump.x 1) := by simp [Caller.regs, harm]
    have hlt := (j.words 1).2
    have hresult : u32 (j.after.x 0) = jmpValue (pack L j.s' (j.jump.x 1)) := by
      simp only [after, Caller.resume, harm, if_true, Function.update_self, j.svcLongjmp_zero,
        hx1, SvcRet.x0]
      simp only [jmpValue, u32]
      split <;> split <;> omega
    rw [Resumes, hresult, j.same_after_iff harm, and_comm]
    exact ⟨fun h _ => h, fun h => h rfl⟩

/-- A jump back from another function goes on in that function. -/
theorem exists_not_resumes : ∃ j : JmpPair (defaultLayout true), ¬ j.Resumes := by
  have harm : (defaultLayout true).isArm64 := rfl
  refine ⟨⟨.initial (defaultLayout true), ⟨fun _ => 0x20000, 0⟩, fun _ => 0,
    .initial (defaultLayout true), ⟨fun r => if r = 30 then 4 else 0x20000, 0⟩,
    svcSetjmp _ fun _ => 0, by decide +kernel, by decide +kernel, fun _ _ => rfl,
      fun r => ⟨Caller.regs_lt harm .., Caller.regs_lt harm ..⟩⟩,
    fun h => ?_⟩
  have hlr : 4 = 0x20000 := ((same_after_iff _ harm).mp h.2).1
  cases hlr

end JmpPair

/-! ## File offsets -/

/-- A 32-bit word, extended to a 64-bit one by its sign. -/
def extend32 (w : Nat) : Nat := if w < 2 ^ 31 then w else w + (2 ^ 64 - 2 ^ 32)

/-- `SVC_LIBC_LSEEK` and `SVC_LIBC_LSEEK64`. -/
inductive Lseek
  | lseek
  | lseek64

namespace Lseek

variable (L : Layout) (s : AddressSpace) (m : ByteMemory) (c : Caller)

/-- Descriptor, offset and whence of the host call, as words of 32, 64 and 32 bits. -/
def handed (e : Lseek) : Nat × Nat × Nat :=
  let regs := c.regs L s
  match L.isArm64, e with
  | true, _ => (regs 0, regs 1, regs 2)
  | false, lseek => (regs 0, extend32 (regs 1), regs 2)
  | false, lseek64 =>
    (regs 0, regs 2 + 2 ^ 32 * regs 3, if regs 13 ≠ 0 then m.read32 (regs 13) else 0)

/-- The arguments, where the ABI has them. -/
def asked (e : Lseek) : Nat × Nat × Nat :=
  match L.isArm64, e with
  | true, _ => (u32 (c.x 0), c.x 1, u32 (c.x 2))
  | false, lseek => (c.x 0, extend32 (c.x 1), c.x 2)
  | false, lseek64 => (c.x 0, c.x 2 + 2 ^ 32 * c.x 3, m.read32 c.sp)

/-- The host's answer in the caller's result registers, in 64 bits. -/
def answered (left : SvcFlags) (res : Nat) (e : Lseek) : Nat :=
  match L.isArm64, e with
  | true, _ => (SvcRet.ret64 res).x0Of left (c.regs L s 1)
  | false, lseek => extend32 (u32 res)
  | false, lseek64 =>
    if res = 2 ^ 64 - 1 then 0xffffffff + 2 ^ 32 * 0xffffffff
    else u32 res + 2 ^ 32 * u32 (res / 2 ^ 32)

/-- On A64 the offset is below 4 GiB, the two `int`s are packed to themselves and no pointer flag
changes the answer; on A32 the answer of `lseek` is an `off_t`, and `lseek64` has a stack. -/
def Kept (left : SvcFlags) (res : Nat) (e : Lseek) : Prop :=
  match L.isArm64, e with
  | true, _ =>
    (c.x 1 < 2 ^ 32 ∧ pack L s (c.x 0) = u32 (c.x 0) ∧ pack L s (c.x 2) = u32 (c.x 2)) ∧
      left.KeepsLong res
  | false, lseek => res < 2 ^ 31 ∨ 2 ^ 64 - 2 ^ 31 ≤ res
  | false, lseek64 => c.sp ≠ 0 ∨ m.read32 0 = 0

/-- **File offsets** reach the host and come back exactly when they are kept. -/
theorem handed_answered_iff (left : SvcFlags) (res : UInt64) (e : Lseek) :
    e.handed L s m c = e.asked L m c ∧ e.answered L s c left res.toNat = res.toNat ↔
      e.Kept L s m c left res.toNat := by
  have hres : res.toNat < 2 ^ 64 := res.toNat_lt
  generalize res.toNat = res at hres
  cases harm : L.isArm64 with
  | true =>
    have hoff : pack L s (c.x 1) = c.x 1 ↔ c.x 1 < 2 ^ 32 := by
      constructor
      · intro h
        rw [← h]
        exact pack_lt L s _
      · intro hlt
        simpa [svcArg, harm] using svcArg_of_lt (L := L) hlt
    simp only [handed, asked, answered, Kept, Caller.regs, harm, SvcRet.x0Of_ret64_iff, if_true,
      Nat.reduceLT, Prod.mk.injEq, hoff]
    exact and_congr_left' and_left_comm
  | false =>
    cases e with
    | lseek =>
      have hback : extend32 (u32 res) = res ↔ res < 2 ^ 31 ∨ 2 ^ 64 - 2 ^ 31 ≤ res := by
        rw [extend32, u32]
        split <;> omega
      simpa [handed, asked, answered, Kept, Caller.regs, harm] using hback
    | lseek64 =>
      have hback : answered L s c left res lseek64 = res := by
        simp only [answered, harm, u32]
        split <;> omega
      have hwhence : (if c.sp ≠ 0 then m.read32 c.sp else 0) = m.read32 c.sp ↔
          c.sp ≠ 0 ∨ m.read32 0 = 0 := by
        by_cases hsp : c.sp = 0 <;> simp [hsp, eq_comm]
      simpa [handed, asked, Kept, Caller.regs, harm, hback] using hwhence

/-- A64: five bytes back from the end; the handler asks for an offset near 4 GiB. -/
theorem not_handed_negative : ∃ c : Caller, c.x 1 = 2 ^ 64 - 5 ∧
    lseek.handed (defaultLayout true) (.initial (defaultLayout true)) (fun _ => 0) c ≠
      lseek.asked (defaultLayout true) (fun _ => 0) c :=
  ⟨⟨fun r => if r = 1 then 2 ^ 64 - 5 else r, 0⟩, rfl, by decide +kernel⟩

end Lseek

/-! ## Numbers in texts -/

/-- The C result in `w` bits for a text of this value. A negative number of an unsigned type is
its two's complement. -/
def cResult (signed : Bool) (w : Nat) (v : Int) : Nat :=
  ((if signed then max (-2 ^ (w - 1)) (min (2 ^ (w - 1) - 1) v)
    else if v.natAbs < 2 ^ w then v else 2 ^ w - 1) % 2 ^ w).toNat

/-- `SVC_STRTOL` and `SVC_STRTOUL`, or `SVC_STRTOLL` and `SVC_STRTOULL`. -/
structure Strto where
  signed : Bool
  long : Bool

/-- The C string that begins a stretch of bytes. -/
def cText (bytes : Nat → UInt8) (i : Nat) : UInt8 :=
  if (List.range i).any (bytes · == 0) then 0 else bytes i

/-- The host's conversion of a text: its value, and the number of characters that are consumed. For
an invalid base no end is stored. -/
abbrev HostStrto := (Nat → UInt8) → Nat → Int × Option Nat

/-- The handler; `arena` is the host address of the guest's memory. The host converts to 64 bits. -/
def Strto.handle (parse : HostStrto) (arena : Nat) (f : Strto) (regs : Nat → Nat)
    (m : ByteMemory) : SvcRet × ByteMemory :=
  let parsed := parse (cText fun i => m (regs 0 + i)) (regs 2)
  let host := if regs 0 ≠ 0 then cResult f.signed 64 parsed.1 else 0
  -- `end - s`, where `end` is still null if no end was stored
  let consumed := parsed.2.getD (2 ^ 32 - u32 (arena + regs 0))
  (if f.long then .ret32 (u32 host) else .ret64 host,
    if regs 1 ≠ 0 ∧ regs 0 ≠ 0 then m.write32 (regs 1) (u32 (regs 0 + consumed)) else m)

/-- Memory as guest code reads it. -/
def guestView (L : Layout) (s : AddressSpace) : ByteMemory := fun va => (guestLoad L s va).1

namespace Strto

variable (L : Layout) (s : AddressSpace) (c : Caller) (parse : HostStrto) (arena : Nat)
  (left : SvcFlags) (f : Strto)

/-- The value of the guest's text, and the number of its characters. -/
def parsed : Int × Option Nat := parse (cText fun i => guestView L s (c.x 0 + i)) (u32 (c.x 2))

/-- The first character that is not consumed. -/
def stop : Nat := c.x 0 + (parsed L s c parse).2.getD 0

/-- The text, the base and `endptr` reach the handler: it looks for the text where guest code does,
and guest code looks for the end where it is stored. -/
structure Reached : Prop where
  text : (cText fun i => s.mem.arena (c.regs L s 0 + i)) = cText fun i => guestView L s (c.x 0 + i)
  ne_zero : c.regs L s 0 ≠ 0
  base : c.regs L s 2 = u32 (c.x 2)
  null : c.regs L s 1 = 0 ↔ c.x 1 = 0
  place : L.isArm64 = true → c.x 1 ≠ 0 →
    ∀ i < 8, (s.ptr L (c.x 1 + i)).1 = .arena (c.regs L s 1 + i)

/-- The result registers have the C result of the guest's type, and `endptr` a whole pointer. -/
def Converts : Prop :=
  let done := f.handle parse arena (c.regs L s) s.mem.arena
  let after := s.withMem { s.mem with arena := done.2 }
  if L.isArm64 then
    done.1.x0Of left (c.regs L s 1) = cResult f.signed 64 (parsed L s c parse).1 ∧
      (c.x 1 ≠ 0 → (guestView L after).readLE (c.x 1) 8 = stop L s c parse % 2 ^ 64)
  else
    done.1.r0r1 = cResult f.signed (if f.long then 32 else 64) (parsed L s c parse).1 ∧
      (c.x 1 ≠ 0 → (guestView L after).read32 (c.x 1) = u32 (stop L s c parse))

/-- The value is in the range of a 32-bit type, or its low word is by chance that of the bound. -/
def FitsWord (signed : Bool) (v : Int) : Prop :=
  if signed then
    -2 ^ 31 ≤ v ∧ v < 2 ^ 31 ∨ 2 ^ 31 ≤ v ∧ v < 2 ^ 63 ∧ v % 2 ^ 32 = 2 ^ 31 - 1 ∨
      -2 ^ 63 ≤ v ∧ v < -2 ^ 31 ∧ v % 2 ^ 32 = 2 ^ 31
  else v.natAbs < 2 ^ 32 ∨ 2 ^ 64 ≤ v.natAbs ∨ v % 2 ^ 32 = 2 ^ 32 - 1

/-- On A64 the adapter keeps the host's result; on A32 the low word of the `long` forms does. -/
def Fits (v : Int) : Prop :=
  if L.isArm64 then
    if f.long then left.KeepsWord (c.regs L s 1) (cResult f.signed 64 v)
    else left.KeepsLong (cResult f.signed 64 v)
  else f.long = true → FitsWord f.signed v

/-- The word that is stored ends the pointer: the host has stored an end, and the packed address of
the text ends like the whole one. On A64 the upper half stands behind the word already. -/
def EndFits : Prop :=
  c.x 1 ≠ 0 →
    u32 (c.regs L s 0 + (parsed L s c parse).2.getD (2 ^ 32 - u32 (arena + c.regs L s 0))) =
        u32 (stop L s c parse) ∧
      (L.isArm64 = true →
        s.mem.arena.read32 (c.regs L s 1 + 4) = u32 (stop L s c parse / 2 ^ 32))

theorem u32_cResult_iff (signed : Bool) (v : Int) :
    u32 (cResult signed 64 v) = cResult signed 32 v ↔ FitsWord signed v := by
  cases signed with
  | true =>
    simp only [cResult, FitsWord, u32, if_true]
    omega
  | false =>
    simp only [cResult, FitsWord, u32, Bool.false_eq_true, if_false]
    split <;> split <;> omega

theorem cResult_lt (signed : Bool) (v : Int) : cResult signed 64 v < 2 ^ 64 := by
  rw [cResult]
  omega

theorem readLE_write32_iff (m : ByteMemory) (a w p : Nat) :
    (m.write32 a (u32 w)).readLE a 8 = p % 2 ^ 64 ↔
      u32 w = u32 p ∧ m.read32 (a + 4) = u32 (p / 2 ^ 32) := by
  have hlow := m.read32_write32 a _ (u32_lt w)
  have hhigh := m.read32_write32_of_disjoint a (a + 4) (u32 w) (by omega)
  have hlt : m.read32 (a + 4) < 2 ^ 32 := m.readLE_lt _ 4
  rw [readLE_add _ a 4 4]
  simp only [ByteMemory.read32] at hlow hhigh hlt ⊢
  rw [hlow, hhigh]
  simp only [u32]
  omega

section

variable {L s c} (hreached : Reached L s c)
include hreached

theorem handle_fst : (f.handle parse arena (c.regs L s) s.mem.arena).1 =
    if f.long then .ret32 (u32 (cResult f.signed 64 (parsed L s c parse).1))
    else .ret64 (cResult f.signed 64 (parsed L s c parse).1) := by
  simp [Strto.handle, hreached.text, hreached.base, parsed, if_pos hreached.ne_zero]

theorem handle_snd (hx1 : c.x 1 ≠ 0) : (f.handle parse arena (c.regs L s) s.mem.arena).2 =
    s.mem.arena.write32 (c.regs L s 1) (u32 (c.regs L s 0 +
      (parsed L s c parse).2.getD (2 ^ 32 - u32 (arena + c.regs L s 0)))) := by
  have hwrites := And.intro (mt hreached.null.mp hx1) hreached.ne_zero
  simp [Strto.handle, hreached.text, hreached.base, parsed, if_pos hwrites]

theorem guestView_endptr (harm : L.isArm64 = true) (hx1 : c.x 1 ≠ 0) (m : ByteMemory) :
    (guestView L (s.withMem { s.mem with arena := m })).readLE (c.x 1) 8 =
      m.readLE (c.regs L s 1) 8 := by
  refine readLE_shift fun i hi => ?_
  rw [guestView, guestLoad_arm64 harm, ptr_withMem, hreached.place harm hx1 i hi]
  rfl

end

/-- An A32 call with a text at 0x20000, base 10 and no `endptr`. -/
def textAt (text : String) : AddressSpace × Caller :=
  ((AddressSpace.initial (defaultLayout false)).withMem
      ⟨fun a => (Elf.cstr text).getD (a - 0x20000) 0, fun _ _ => 0⟩,
    ⟨fun r => if r = 0 then 0x20000 else if r = 2 then 10 else 0, 0⟩)

theorem reached_textAt (text : String) :
    Reached (defaultLayout false) (textAt text).1 (textAt text).2 :=
  ⟨rfl, (by decide : 0x20000 ≠ 0), rfl, Iff.rfl, nofun⟩

end Strto

/-! ## Calls of native methods -/

/-- A32 registers and memory when a callee starts. -/
structure NativeEntry where
  regs : Nat → Nat
  mem : ByteMemory

/-- The stack pointer `run_arm` starts with. -/
def entrySp (L : Layout) : Nat := L.stackBase + L.stackSize - 16

/-- The entry of `run_arm`; `saved` has what an earlier call left in `r4`–`r11`. -/
def runArmEntry (L : Layout) (saved : Nat → Nat) (m : ByteMemory) (fn r0 r1 r2 r3 : Nat) :
    NativeEntry where
  regs
    | 0 => r0
    | 1 => r1
    | 2 => r2
    | 3 => r3
    | 13 => entrySp L
    | 14 => L.sentinelAddr
    | 15 => roundDown fn 2
    | r => if r < 12 then saved r else 0
  mem := m

/-- `ENV_SLOT_BASE` of the A32 layout. -/
def envSlotBase : Nat := 0x41012000

/-- `arm_exec_call_native` up to the first instruction of the callee. -/
def armExecCallNative (L : Layout) (saved : Nat → Nat) (m : ByteMemory) (fn obj : Nat)
    (args : List Nat) : NativeEntry :=
  let extra := args.drop 2
  runArmEntry L saved (storeWords m (sub32 (entrySp L) (extra.length * 4)) extra) fn envSlotBase
    (u32 obj) (args.getD 0 0) (args.getD 1 0)

/-- Where the callee finds its `j`-th parameter. -/
def NativeEntry.param (e : NativeEntry) (j : Nat) : Nat :=
  if j < 4 then e.regs j else e.mem.read32 (u32 (e.regs 13 + (j - 4) * 4))

/-- 32-bit arguments, so few that the size of the pushed ones is an `int`. -/
structure NativeArgs where
  list : List Nat
  lt : ∀ a ∈ list, a < 2 ^ 32
  length_lt : list.length < 2 ^ 29

theorem entrySp_eq (heapMb mmap2Base mmap2End : Int) :
    entrySp (guestLayoutInit false heapMb mmap2Base mmap2End) = 0x46fffff0 := by
  simp [entrySp, guestLayoutInit]

theorem param_stack {L : Layout} (hsp : entrySp L = 0x46fffff0) (saved : Nat → Nat)
    (m : ByteMemory) (fn obj : Nat) (args : NativeArgs) {j : Nat} (hj : 2 + j < args.list.length) :
    (armExecCallNative L saved m fn obj args.list).param (4 + j) =
      m.read32 (entrySp L + j * 4) := by
  have hlen := args.length_lt
  have haddr : u32 (entrySp L + (4 + j - 4) * 4) = entrySp L + j * 4 := by
    rw [u32]
    omega
  rw [NativeEntry.param, if_neg (by omega), armExecCallNative, runArmEntry]
  simp only [haddr]
  refine readLE_congr fun x _ _ => storeWords_frame ?_
  rintro ⟨r, hr, hlo, hhi⟩
  obtain ⟨i, hi, rfl⟩ := mem_map.mp hr
  rw [mem_range] at hi
  simp only [length_drop, sub32, u32] at hi hlo hhi
  omega

/-- **Native calls.** The callee finds its parameters exactly when those beyond the registers
stood on the stack before: the call stores them below the stack pointer. -/
theorem params_iff (heapMb mmap2Base mmap2End : Int) (saved : Nat → Nat) (m : ByteMemory)
    (fn obj : Nat) (args : NativeArgs) :
    let L := guestLayoutInit false heapMb mmap2Base mmap2End
    (∀ j a, (envSlotBase :: u32 obj :: args.list)[j]? = some a →
        (armExecCallNative L saved m fn obj args.list).param j = a) ↔
      ∀ j a, args.list[2 + j]? = some a → m.read32 (entrySp L + j * 4) = a := by
  intro L
  have hstack {j a : Nat} (ha : args.list[2 + j]? = some a) :
      (armExecCallNative L saved m fn obj args.list).param (4 + j) = m.read32 (entrySp L + j * 4) :=
    param_stack (entrySp_eq heapMb mmap2Base mmap2End) saved m fn obj args
      (List.getElem?_eq_some_iff.mp ha).1
  constructor
  · intro h j a ha
    rw [← hstack ha]
    refine h _ a ?_
    rw [← ha, show 4 + j = 2 + j + 1 + 1 by omega]
    rfl
  · intro h j a ha
    rcases j with _ | _ | _ | _ | j
    · exact some.inj ha
    · exact some.inj ha
    · exact (getD_eq_getElem?_getD ..).trans (congrArg (Option.getD · 0) ha)
    · exact (getD_eq_getElem?_getD ..).trans (congrArg (Option.getD · 0) ha)
    · have ha' : args.list[2 + j]? = some a := by rwa [add_comm]
      rw [Nat.add_comm _ 4, hstack ha', h j a ha']

/-- The third argument is pushed below the stack pointer, and a zero is found. -/
theorem not_param_third :
    (armExecCallNative (defaultLayout false) (fun _ => 0) (fun _ => 0) 0x10000 1 [2, 3, 5]).param 4
      ≠ 5 := by
  decide +kernel

end Lunaria
