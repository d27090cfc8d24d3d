/-
# Mutexes

A mutex is one guest word, `count << 8 | (tid + 1)`. On A32 the three functions are guest
stubs, on A64 they are supervisor calls; both kinds of code change the same word. Locking
never waits: it adds one to the count and writes the owner whoever has the mutex, and
only `trylock` looks first. A stub can be interrupted by the end of a slice after any
instruction, a supervisor call cannot.

The word says who the owner is in eight bits, and the unlock stub takes a count of 2²³ or
more for an underflow.
-/

import Lunaria.Guest.Stubs
import Lunaria.Lib.Interval
import Lunaria.Lib.Run

namespace Lunaria

open Lib Function

/-! ## The functions -/

inductive MutexFn where
  | lock
  | trylock
  | unlock
  deriving DecidableEq

def eBusy : Nat := 16

/-- The word after a lock: one more, and the caller is the owner. -/
def lockedWord (w tid : Nat) : Nat := u32 (roundDown w 0x100 + 0x100) ||| u32 (tid + 1)

/-- The word after `SVC_PTHREAD_MUTEX_UNLOCK`: one less, and free when none is left. -/
def unlockedWord (w : Nat) : Nat :=
  let rest := if 0x100 ≤ w then w - 0x100 else 0
  if rest < 0x100 then 0 else rest

/-- The supervisor calls: what the word becomes and what is returned. -/
def svcMutex (w tid : Nat) : MutexFn → Nat × Nat
  | .lock => (lockedWord w tid, 0)
  | .trylock =>
    if 0x100 ≤ w ∧ w % 0x100 ≠ u32 (tid + 1) then (w, eBusy) else (lockedWord w tid, 0)
  | .unlock => (unlockedWord w, 0)

/-- The guest code of the fast functions. -/
def MutexFn.program : MutexFn → List (Option (StubCond × StubInsn))
  | .lock => lockCode.map decodeA32
  | .trylock => trylockCode.map decodeA32
  | .unlock => unlockCode.map decodeA32

/-! ## The stubs do what the supervisor calls do -/

theorem and_high {x : Nat} (hx : x < 2 ^ 32) : x &&& (2 ^ 32 - 1 - 0xff) = roundDown x 0x100 := by
  apply Nat.eq_of_testBit_eq
  intro i
  rw [show 2 ^ 32 - 1 - 0xff = (2 ^ 24 - 1) * 2 ^ 8 from rfl, roundDown,
    show 0x100 = 2 ^ 8 from rfl, Nat.testBit_and, Nat.testBit_mul_two_pow,
    Nat.testBit_mul_two_pow, Nat.testBit_two_pow_sub_one, Nat.testBit_div_two_pow]
  by_cases hi : 8 ≤ i
  · have hsub : i - 8 + 8 = i := Nat.sub_add_cancel hi
    by_cases hi32 : i < 32
    · simp [hi, show i - 8 < 24 by omega]
    · have hbit : x.testBit i = false :=
        Nat.testBit_lt_two_pow (hx.trans_le (Nat.pow_le_pow_right (by norm_num) (by omega)))
      simp [hsub, hbit]
  · simp [hi]

theorem sub32_eq_zero {a b : Nat} (ha : a < 2 ^ 32) (hb : b < 2 ^ 32) : sub32 a b = 0 ↔ a = b := by
  simp only [sub32, u32]
  omega

/-- The stub adds first and clears the owner then. -/
theorem lockedWord_eq (w tid : Nat) :
    (u32 (w + 0x100) &&& (2 ^ 32 - 1 - 0xff)) ||| u32 (tid + 1) = lockedWord w tid := by
  rw [and_high (u32_lt _)]
  congr 1
  simp only [roundDown, u32]
  omega

variable {m tid : Nat} {cpu : StubCpu} {mem : Nat → Nat}

section

variable (hpc : cpu.pc = 0) (hr0 : cpu.regs 0 = m)
include hpc hr0

theorem lock_finish (htid : mem curTidVa = u32 (tid + 1)) :
    ∃ final, stubFinish MutexFn.lock.program m 10 cpu mem =
      some (final, update mem m (svcMutex (mem m) tid .lock).1) ∧
        final.regs 0 = (svcMutex (mem m) tid .lock).2 := by
  have hword := lockedWord_eq (mem m) tid
  have hva : mem 0x4100f000 = u32 (tid + 1) := htid
  norm_num at hword
  simp [stubFinish, MutexFn.program, decode_lockCode, hpc, hr0, hva, hword, svcMutex]

theorem trylock_finish (htid : mem curTidVa = u32 (tid + 1)) :
    ∃ final, stubFinish MutexFn.trylock.program m 15 cpu mem =
      some (final, update mem m (svcMutex (mem m) tid .trylock).1) ∧
        final.regs 0 = (svcMutex (mem m) tid .trylock).2 := by
  have hword := lockedWord_eq (mem m) tid
  have hva : mem 0x4100f000 = u32 (tid + 1) := htid
  have howner : mem m &&& 0xff = mem m % 0x100 := Nat.and_two_pow_sub_one_eq_mod _ 8
  norm_num at hword
  by_cases hheld : 0x100 ≤ mem m
  · by_cases hown : mem m % 0x100 = u32 (tid + 1)
    · have hsame : sub32 (u32 (tid + 1)) (u32 (tid + 1)) = 0 :=
        (sub32_eq_zero (u32_lt _) (u32_lt _)).mpr rfl
      simp [stubFinish, MutexFn.program, decode_trylockCode, hpc, hr0, hva, hword,
        svcMutex, hheld, howner, hown, hsame]
    · have hother : sub32 (mem m % 0x100) (u32 (tid + 1)) ≠ 0 :=
        (sub32_eq_zero (by omega) (u32_lt _)).not.mpr hown
      simp [stubFinish, MutexFn.program, decode_trylockCode, hpc, hr0, hva,
        svcMutex, hheld, howner, hown, hother, eBusy]
  · simp [stubFinish, MutexFn.program, decode_trylockCode, hpc, hr0, hva, hword, svcMutex, hheld]

theorem unlock_finish (hw : mem m < 2 ^ 31 + 0x100) :
    ∃ final, stubFinish MutexFn.unlock.program m 8 cpu mem =
      some (final, update mem m (svcMutex (mem m) tid .unlock).1) ∧
        final.regs 0 = (svcMutex (mem m) tid .unlock).2 := by
  by_cases hheld : 0x100 ≤ mem m
  · have hsub : sub32 (mem m) 0x100 = mem m - 0x100 := sub32_of_le hheld (by omega)
    have hpos : ¬ 0x80000000 ≤ mem m - 0x100 := by omega
    by_cases hlast : mem m - 0x100 < 0x100 <;>
      simp [stubFinish, MutexFn.program, decode_unlockCode, hpc, hr0, hsub, hpos,
        svcMutex, unlockedWord, hheld, hlast]
  · have hneg : 0x80000000 ≤ sub32 (mem m) 0x100 := by
      simp only [sub32, u32]
      omega
    simp [stubFinish, MutexFn.program, decode_unlockCode, hpc, hr0, hneg,
      svcMutex, unlockedWord, hheld]

end

end Lunaria
