/-
# Guest thread records

Guest threads are records in one vector. `pthread_create` appends a record with a
stack of its own, `pthread_exit` marks the caller's record finished, `pthread_join`
erases the finished records of its target, and the end of a slice stores the register
state of the JIT into the record the scheduler holds a reference to. The id of a new
record is computed from the length of the vector, which a join shrinks.
-/

import Lunaria.Space.AddressSpace
import Lunaria.Lib.CppVector
import Lunaria.Lib.Run
import Mathlib.Data.Fintype.Pi

namespace Lunaria

open Lib

/-! ## Register state -/

/-- What the A32 JIT holds of the guest: `Regs`, `ExtRegs`, `Cpsr` and `Fpscr`. -/
structure Jit32 where
  regs : Fin 16 → Nat
  ext : Fin 64 → Nat
  cpsr : Nat
  fpscr : Nat
  deriving DecidableEq

/-- What the A64 JIT holds: `x0`–`x30`, `SP`, `PC`, the flags, `V0`–`V31` and the floating-point
registers. -/
structure Jit64 where
  x : Fin 31 → Nat
  sp : Nat
  pc : Nat
  nzcv : Nat
  v : Fin 32 → Nat
  fpcr : Nat
  fpsr : Nat
  deriving DecidableEq

/-- `ArmThread`, without the fields that only decide whether a thread is parked. -/
structure ArmThread where
  id : Nat := 0
  regs : Fin 16 → Nat := fun _ => 0
  regs64 : Fin 32 → Nat := fun _ => 0
  pc64 : Nat := 0
  sp64 : Nat := 0
  lr64 : Nat := 0
  ext : Fin 64 → Nat := fun _ => 0
  cpsr : Nat := 0x10
  fpscr : Nat := 0
  stackBase : Nat := 0
  entryPc : Nat := 0
  finished : Bool := false
  stuckPc : Nat := 0
  stuckCount : Nat := 0
  totalTicks : Nat := 0
  isArm64 : Bool := false
  deriving DecidableEq

variable (L : Layout) (t : ArmThread)

/-- `pc_in_sentinel` on a 32-bit address. -/
def pcInSentinel (pc : Nat) : Bool :=
  L.sentinelAddr ≤ roundDown pc 2 && roundDown pc 2 < L.sentinelAddr + 0x1000

namespace ArmThread

/-- The end of an A32 slice: the context is saved; a return to the sentinel page, a call through
null, or 32 memory aborts at one address retire the thread. -/
def saveA32 (L : Layout) (t : ArmThread) (jit : Jit32) (ticks : Nat) (memoryAbort : Bool) :
    ArmThread :=
  let pc15 := roundDown (jit.regs 15) 2
  let saved := { t with
    regs := jit.regs
    ext := jit.ext
    cpsr := jit.cpsr
    fpscr := jit.fpscr
    totalTicks := (t.totalTicks + ticks) % 2 ^ 64
    finished := t.finished || pcInSentinel L pc15 || decide (pc15 < 0x1000) }
  if memoryAbort then
    if pc15 = t.stuckPc then
      { saved with
        stuckCount := u32 (t.stuckCount + 1)
        finished := saved.finished || decide (32 ≤ u32 (t.stuckCount + 1)) }
    else { saved with stuckPc := pc15, stuckCount := 1 }
  else { saved with stuckCount := 0 }

/-- The start of `sched64_run_thread`: load the record into the auxiliary JIT. -/
def loadA64 (t : ArmThread) (jit : Jit64) : Jit64 :=
  { jit with
    x := fun r =>
      if r = 30 ∧ t.lr64 ≠ 0 then t.lr64 else t.regs64 ⟨r.val, by omega⟩
    sp := if t.sp64 ≠ 0 then t.sp64 else t.regs 13
    pc := if t.pc64 ≠ 0 then t.pc64 else t.regs 15 }

/-- The end of `sched64_run_thread`. The flags and the vector and floating-point state
of the JIT are not saved. -/
def saveA64 (L : Layout) (t : ArmThread) (jit : Jit64) (ticks : Nat) : ArmThread :=
  { t with
    regs64 := fun r => if h : r.val ≤ 30 then jit.x ⟨r.val, by omega⟩ else t.regs64 r
    sp64 := jit.sp
    lr64 := jit.x 30
    pc64 := jit.pc
    -- the low halves, for helpers that still read the A32 registers
    regs := fun r =>
      if h : r.val < 8 then u32 (jit.x ⟨r.val, by omega⟩)
      else if r = 13 then u32 jit.sp
      else if r = 14 then u32 (jit.x 30)
      else if r = 15 then u32 jit.pc
      else t.regs r
    totalTicks := (t.totalTicks + ticks) % 2 ^ 64
    finished := t.finished || pcInSentinel L (u32 jit.pc) || decide (jit.pc < 0x1000) }

end ArmThread

/-- How a slice ended: what the JIT of its instruction set held, the ticks used, and on
A32 whether the JIT halted on a memory abort. -/
inductive SliceEnd where
  | a32 (jit : Jit32) (ticks : Nat) (memoryAbort : Bool)
  | a64 (jit : Jit64) (ticks : Nat)
  deriving DecidableEq

/-- The instruction set the slice ran on. -/
def SliceEnd.isArm64 : SliceEnd → Bool
  | .a32 _ _ _ => false
  | .a64 _ _ => true

/-- What the start function of the thread returned, if the slice ended on the sentinel page. -/
def SliceEnd.returnValue : SliceEnd → Option Nat
  | .a32 jit _ _ => if pcInSentinel L (jit.regs 15) then some (jit.regs 0) else none
  | .a64 jit _ => if pcInSentinel L (u32 jit.pc) then some (jit.x 0) else none

/-- The store the scheduler makes when a slice has ended. -/
def ArmThread.endSlice : SliceEnd → ArmThread
  | .a32 jit ticks memoryAbort => t.saveA32 L jit ticks memoryAbort
  | .a64 jit ticks => t.saveA64 L jit ticks

/-- Two states of the record of one thread: its id and its stack never change. -/
def ArmThread.SameThread (t t' : ArmThread) : Prop := t'.id = t.id ∧ t'.stackBase = t.stackBase

theorem ArmThread.sameThread_endSlice (e : SliceEnd) : t.SameThread (t.endSlice L e) := by
  cases e with
  | a32 jit ticks memoryAbort =>
    simp only [endSlice, saveA32]
    split
    · split <;> exact ⟨rfl, rfl⟩
    · exact ⟨rfl, rfl⟩
  | a64 jit ticks => exact ⟨rfl, rfl⟩

/-- What `pthread_exit` does to the record of its caller. -/
def ArmThread.retire : ArmThread := { t with finished := true }

theorem ArmThread.sameThread_retire : t.SameThread t.retire := ⟨rfl, rfl⟩

/-! ## The table -/

structure ThreadTable where
  threads : CppVector ArmThread
  stackNext : Nat

/-- The arguments of `pthread_create`: the 32-bit `r2` and `r3`, and on A64 what `x2`
and `x3` of the main JIT hold. -/
structure CreateCall where
  fn : Nat
  arg : Nat
  fn64 : Nat
  arg64 : Nat

/-- A thread to be started at `0x10000` with argument 0. -/
def startCall : CreateCall := ⟨0x10000, 0, a64GuestVa 0x10000, 0⟩

namespace ThreadTable

variable (L : Layout) (s : ThreadTable) (call : CreateCall)

def initial : ThreadTable := ⟨CppVector.empty, L.threadStackBase⟩

/-- The id the next record gets. -/
def nextId : Nat := u32 (u32 s.threads.items.length + 2)

/-- `pthread_create` appends a record: it was given a function and there is room for
another stack below the heap. -/
def Creates : Prop :=
  call.fn ≠ 0 ∧ u32 (s.stackNext + threadStackSize) ≤ heapBase
  deriving Decidable

/-- The record `pthread_create` appends. -/
def newThread : ArmThread :=
  let stackTop := sub32 (u32 (s.stackNext + threadStackSize)) 16
  let classic : ArmThread :=
    { id := s.nextId
      stackBase := s.stackNext
      regs := fun r =>
        if r = 0 then call.arg
        else if r = 13 then stackTop
        else if r = 14 then L.sentinelAddr
        else if r = 15 then roundDown call.fn 2
        else 0
      entryPc := roundDown call.fn 2
      isArm64 := L.isArm64
      cpsr := if call.fn % 2 = 1 then 0x30 else 0x10 }
  if L.isArm64 then
    { classic with
      regs64 := fun r =>
        if r = 0 then call.arg64 else if r = 30 then a64GuestVa L.sentinelAddr else 0
      stackBase := a64GuestVa s.stackNext
      sp64 := a64GuestVa stackTop
      lr64 := a64GuestVa L.sentinelAddr
      pc64 := roundDown call.fn64 2
      entryPc := roundDown call.fn64 2 }
  else classic

@[simp]
theorem newThread_id : (s.newThread L call).id = s.nextId := by
  simp only [newThread]
  split <;> rfl

theorem newThread_finished : (s.newThread L call).finished = false := by
  simp only [newThread]
  split <;> rfl

def svcPthreadCreate : ThreadTable :=
  if s.Creates call then
    { threads := s.threads.pushBack (s.newThread L call)
      stackNext := u32 (s.stackNext + threadStackSize) }
  else s

theorem threads_svcPthreadCreate : (s.Creates call ∧
      (s.svcPthreadCreate L call).threads = s.threads.pushBack (s.newThread L call)) ∨
    (¬ s.Creates call ∧ s.svcPthreadCreate L call = s) := by
  by_cases h : s.Creates call
  · rw [svcPthreadCreate, if_pos h]
    exact .inl ⟨h, rfl⟩
  · rw [svcPthreadCreate, if_neg h]
    exact .inr ⟨h, rfl⟩

/-- `SVC_PTHREAD_EXIT`, called while `g_current_tid` is `caller`. -/
def svcPthreadExit (caller : Nat) : ThreadTable :=
  if caller ≠ 0 then
    { s with threads := s.threads.modifyFirst (fun t => t.id == caller) ArmThread.retire }
  else s

theorem threads_svcPthreadExit (caller : Nat) :
    (∃ i, (s.svcPthreadExit caller).threads = s.threads.modify i ArmThread.retire) ∨
      s.svcPthreadExit caller = s := by
  rw [svcPthreadExit]
  split
  · exact .inl ⟨_, rfl⟩
  · exact .inr rfl

def joined (target : Nat) (t : ArmThread) : Bool := t.id == target && t.finished

/-- `SVC_PTHREAD_JOIN`, from where its wait for the target has ended. -/
def svcPthreadJoin (target : Nat) : ThreadTable :=
  { s with threads := s.threads.removeIf (joined target) }

/-- The store at the end of a slice, through the reference the scheduler took when the
slice began. -/
def endSlice (held : CppVector.Ref) (e : SliceEnd) : ThreadTable :=
  { s with threads := s.threads.modifyRef held fun t => t.endSlice L e }

end ThreadTable

/-- What changes the table. -/
inductive ThreadOp where
  | create (call : CreateCall)
  | exit (caller : Nat)
  | join (target : Nat)
  | endSlice (held : CppVector.Ref) (e : SliceEnd)

def ThreadTable.step (s : ThreadTable) : ThreadOp → ThreadTable
  | .create call => s.svcPthreadCreate L call
  | .exit caller => s.svcPthreadExit caller
  | .join target => s.svcPthreadJoin target
  | .endSlice held e => s.endSlice L held e

/-- Whatever identifies a thread, a step appends that of the new thread and takes a
stack, or it only drops some. -/
theorem ThreadTable.step_keys {β : Type*} {key : ArmThread → β}
    (hkey : ∀ t t' : ArmThread, t.SameThread t' → key t' = key t) (L : Layout) (s : ThreadTable)
    (op : ThreadOp) :
    (∃ call, op = .create call ∧ s.Creates call ∧ (s.step L op).threads.items.map key =
        s.threads.items.map key ++ [key (s.newThread L call)] ∧
      (s.step L op).stackNext = u32 (s.stackNext + threadStackSize)) ∨
    (((s.step L op).threads.items.map key).Sublist (s.threads.items.map key) ∧
      (s.step L op).stackNext = s.stackNext) := by
  cases op with
  | create call =>
    by_cases h : s.Creates call
    · refine .inl ⟨call, rfl, h, ?_⟩
      simp [step, svcPthreadCreate, h]
    · refine .inr ?_
      simp [step, svcPthreadCreate, h]
  | exit caller =>
    refine .inr ⟨?_, ?_⟩
    · rcases s.threads_svcPthreadExit caller with ⟨i, hexit⟩ | hsame
      · rw [step, hexit, CppVector.items_modify,
          CppVector.map_modify_of_fixed fun t => hkey t _ t.sameThread_retire]
      · rw [step, hsame]
    · rw [step, svcPthreadExit]
      split <;> rfl
  | join target => exact .inr ⟨List.filter_sublist.map key, rfl⟩
  | endSlice held e =>
    refine .inr ⟨?_, rfl⟩
    rcases s.threads.items_modifyRef held fun t => t.endSlice L e with h | h
    · simp [step, endSlice, h]
    · rw [step, endSlice, h,
        CppVector.map_modify_of_fixed fun t => hkey t _ (t.sameThread_endSlice L e)]

end Lunaria
