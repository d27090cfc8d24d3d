/-
# Guest virtual address layout

The guest address space is one 4 GiB arena. This module fixes where the malloc
heap, the two mmap arenas, the trampolines and the stacks sit in it, for the
classic A32 layout and for the relocated A64 layout, as a function of the three
environment variables the layout reads. The inequalities that the allocators
depend on are fields of the layout, so they are proved once, where the layout is
built, and for every value of the environment.
-/

import Lunaria.Lib.Interval
import Mathlib.Tactic.NormNum

namespace Lunaria

open Lib

/-- Truncation of an arithmetic result to `uint32_t`. -/
def u32 (n : Nat) : Nat := n % 2 ^ 32

theorem u32_of_lt {n : Nat} (h : n < 2 ^ 32) : u32 n = n := Nat.mod_eq_of_lt h

theorem u32_u32 (n : Nat) : u32 (u32 n) = u32 n := Nat.mod_mod n _

theorem u32_lt (n : Nat) : u32 n < 2 ^ 32 := Nat.mod_lt _ (by norm_num)

/-- `uint32_t` subtraction, which wraps below zero. -/
def sub32 (a b : Nat) : Nat := u32 (a + (2 ^ 32 - b))

theorem sub32_of_le {a b : Nat} (hle : b ≤ a) (ha : a < 2 ^ 32) : sub32 a b = a - b := by
  rw [sub32, u32, show a + (2 ^ 32 - b) = (a - b) + 2 ^ 32 by omega, Nat.add_mod_right]
  exact Nat.mod_eq_of_lt (by omega)

/-- `~0u`: the failure value of the address-returning functions. -/
def mapFailed : Nat := 0xffffffff

def heapBase : Nat := 0x50000000
def mmapBase : Nat := 0x10000000
def mmapMaxSingle : Nat := 0x20001000
def mmapAlign : Nat := 0x10000
def threadStackSize : Nat := 0x00100000
def cbStackSize : Nat := 0x00100000
def cbMaxDepth : Nat := 2
def jniVtableCount : Nat := 229

theorem layoutConsts : mapFailed = 0xffffffff ∧ heapBase = 0x50000000 ∧
    mmapBase = 0x10000000 ∧ mmapMaxSingle = 0x20001000 ∧ mmapAlign = 0x10000 :=
  ⟨rfl, rfl, rfl, rfl, rfl⟩

/-- The address layout, fixed once the context is initialised. `mmap2End` is the raw `g_mmap2_end`,
where `0` is the end of the arena. -/
structure Layout where
  isArm64 : Bool
  heapSize : Nat
  mmapEnd : Nat
  mmap2Base : Nat
  mmap2End : Nat
  trampBase : Nat
  jniTbl64Base : Nat
  jvmTbl64Base : Nat
  envSlot64Base : Nat
  stackBase : Nat
  stackSize : Nat
  cbStackBase : Nat
  sentinelAddr : Nat
  threadStackBase : Nat
  heapSize_ge : 0x04000000 ≤ heapSize
  heapSize_le : heapSize ≤ 0x40000000
  heap_below_mmap2 : heapBase + heapSize ≤ mmap2Base
  mmap2Base_lt : mmap2Base < 2 ^ 32
  mmap2End_lt : mmap2End < 2 ^ 32
  mmapBase_le : mmapBase ≤ mmapEnd
  mmapEnd_le : mmapEnd ≤ heapBase

namespace Layout

variable (L : Layout)

def mmap2EndExcl : Nat := if L.mmap2End ≠ 0 then L.mmap2End else 2 ^ 32

theorem mmap2EndExcl_le : L.mmap2EndExcl ≤ 2 ^ 32 := by
  have h := L.mmap2End_lt
  rw [mmap2EndExcl]
  split <;> omega

def heapEnd : Nat := heapBase + L.heapSize

theorem heapEnd_lt : L.heapEnd < 2 ^ 32 := lt_of_le_of_lt L.heap_below_mmap2 L.mmap2Base_lt

/-- The bound `arm_malloc` and `arm_memalign` check before bumping. -/
def heapLimit : Nat :=
  if L.isArm64 then heapBase + L.heapSize / 2 else heapBase + L.heapSize

theorem heapLimit_le : L.heapLimit ≤ L.heapEnd := by
  rw [heapLimit, heapEnd]
  split <;> omega

theorem heapLimit_le_max : L.heapLimit ≤ 0x90000000 := by
  have hc := layoutConsts
  have hsize := L.heapSize_le
  have hle := L.heapLimit_le
  rw [heapEnd] at hle
  omega

/-- `floor` of the small mapping fallback: the upper half of the heap. -/
def smallFloor : Nat := heapBase + L.heapSize / 2

end Layout

/-- The clamped `LUNARIA_HEAP_MB`. -/
def clampHeapMb (heapMb : Int) : Nat :=
  if heapMb < 64 then 64 else if heapMb > 1024 then 1024 else heapMb.toNat

theorem clampHeapMb_bounds (heapMb : Int) :
    64 ≤ clampHeapMb heapMb ∧ clampHeapMb heapMb ≤ 1024 := by
  unfold clampHeapMb
  split
  · omega
  · split <;> omega

/-- The secondary arena start: `LUNARIA_MMAP2_BASE` when it lies above the heap, else the 1 MiB
boundary behind the heap. -/
def mmap2BaseOf (heapEnd : Nat) (mmap2Base : Int) : Nat :=
  let behindHeap := roundUp heapEnd 0x100000
  let asked := if mmap2Base = 0 then behindHeap else (mmap2Base % 2 ^ 32).toNat
  if asked < heapEnd + 0x1000 then behindHeap else asked

theorem mmap2BaseOf_bounds {heapEnd : Nat} (hend : heapEnd ≤ 0x90000000) (mmap2Base : Int) :
    heapEnd ≤ mmap2BaseOf heapEnd mmap2Base ∧ mmap2BaseOf heapEnd mmap2Base < 2 ^ 32 := by
  have hlo := le_roundUp (show 0 < 0x100000 by norm_num) heapEnd
  have hhi := roundUp_lt_add (show 0 < 0x100000 by norm_num) heapEnd
  simp only [mmap2BaseOf]
  split_ifs <;> omega

/-- `guest_layout_init`, preceded on A64 by `guest_va_layout_arm64`, for the values of
`LUNARIA_HEAP_MB`, `LUNARIA_MMAP2_BASE` and `LUNARIA_MMAP2_END`. -/
def guestLayoutInit (isArm64 : Bool) (heapMb mmap2Base mmap2End : Int) : Layout where
  isArm64 := isArm64
  heapSize := clampHeapMb heapMb * 1024 * 1024
  mmapEnd := if isArm64 then 0x50000000 else 0x41000000
  mmap2Base := mmap2BaseOf (heapBase + clampHeapMb heapMb * 1024 * 1024) mmap2Base
  mmap2End := if mmap2End = 0 then 0 else (mmap2End % 2 ^ 32).toNat
  trampBase := if isArm64 then 0x0A000000 else 0x41000000
  jniTbl64Base := if isArm64 then 0x0A010000 else 0x41010000
  jvmTbl64Base := if isArm64 then 0x0A012000 else 0x41012000
  envSlot64Base := if isArm64 then 0x0A012100 else 0x41012100
  stackBase := if isArm64 then 0x0A100000 else 0x42000000
  stackSize := if isArm64 then 0x03000000 else 0x05000000
  cbStackBase := if isArm64 then 0x0D100000 else 0x47700000
  sentinelAddr := if isArm64 then 0x0D300000 else 0x43000000
  threadStackBase := if isArm64 then 0x0D400000 else 0x48000000
  heapSize_ge := by
    have h := clampHeapMb_bounds heapMb
    omega
  heapSize_le := by
    have h := clampHeapMb_bounds heapMb
    omega
  heap_below_mmap2 := by
    have h := clampHeapMb_bounds heapMb
    have hc := layoutConsts
    exact (mmap2BaseOf_bounds (by omega) mmap2Base).1
  mmap2Base_lt := by
    have h := clampHeapMb_bounds heapMb
    have hc := layoutConsts
    exact (mmap2BaseOf_bounds (by omega) mmap2Base).2
  mmap2End_lt := by split <;> omega
  mmapBase_le := by
    have hc := layoutConsts
    split <;> omega
  mmapEnd_le := by
    have hc := layoutConsts
    split <;> omega

/-- The layout with no environment variable set: a 256 MiB heap and a secondary arena to the end. -/
def defaultLayout (isArm64 : Bool) : Layout := guestLayoutInit isArm64 256 0 0

theorem defaultLayout_heapSize (isArm64 : Bool) :
    (defaultLayout isArm64).heapSize = 0x10000000 := rfl

end Lunaria
