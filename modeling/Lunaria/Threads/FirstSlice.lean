/-
# The first slice of an A64 thread

On A64 `pthread_create` takes the start function and its argument in full width from the
registers of the main JIT, whichever JIT its caller runs on; only the test for null goes by
the packed registers of the caller. A thread starts as its creator asked when the main JIT
happens to hold the same two values, which it does for the main thread.
-/

import Lunaria.Threads.Ids
import Lunaria.Threads.Context
import Lunaria.Threads.CurrentTid
import Lunaria.Process.Nesting

namespace Lunaria

open Lib List
open Nesting (Instance)

theorem two_lt_registers : 2 < 31 := by decide

theorem three_lt_registers : 3 < 31 := by decide

/-- What `SVC_PTHREAD_CREATE` reads when code on the JIT `i` calls it. -/
def createCall (L : Layout) (s : AddressSpace) (jits : Instance → Jit64) (i : Instance) :
    CreateCall :=
  let fn : Fin 31 := ⟨2, two_lt_registers⟩
  let arg : Fin 31 := ⟨3, three_lt_registers⟩
  ⟨svcArg L s ((jits i).x fn), svcArg L s ((jits i).x arg), (jits .main).x fn, (jits .main).x arg⟩

theorem createCall_eq (L : Layout) (s : AddressSpace) (jits : Instance → Jit64) (i : Instance) :
    createCall L s jits i = ⟨svcArg L s ((jits i).x 2), svcArg L s ((jits i).x 3),
      (jits .main).x 2, (jits .main).x 3⟩ := rfl

/-- What the first slice finds whatever the JIT held: the function, its argument, a stack above all
others, and the thread pointers of an id of its own. -/
structure FirstSlice (table : ThreadTable) (t : ArmThread) (fn arg : Nat) : Prop where
  pc : ∀ aux, (t.loadA64 aux).pc = fn
  x0 : ∀ aux, (t.loadA64 aux).x 0 = arg
  sp : ∀ aux, (t.loadA64 aux).sp = t.stackBase + threadStackSize - 16
  stack : ∀ base ∈ table.stackBases, base + threadStackSize ≤ t.stackBase
  tls : ∀ tids : TidState, (tids.setCurTid t.id).Names (tlsKey t.id)
  id : t.id ∉ mainIds ++ table.ids

/-- The call appends a record whose first slice starts as asked. -/
def StartsThread (L : Layout) (table : ThreadTable) (call : CreateCall) (fn arg : Nat) : Prop :=
  ∃ t, (table.svcPthreadCreate L call).threads.items = table.threads.items ++ [t] ∧
    FirstSlice table t fn arg

/-- There are a function and room for a stack, the main JIT holds what the caller passes (or null,
where the packed function is taken), and the next id is free. -/
structure Heard (L : Layout) (s : AddressSpace) (jits : Instance → Jit64) (i : Instance)
    (table : ThreadTable) : Prop where
  creates : table.Creates (createCall L s jits i)
  fn : roundDown ((jits .main).x 2) 2 = (jits i).x 2 ∨
    (jits .main).x 2 < 2 ∧ roundDown (svcArg L s ((jits i).x 2)) 2 = (jits i).x 2
  arg : (jits .main).x 3 = (jits i).x 3
  id : table.nextId ∉ table.ids

namespace ThreadTable

variable {L : Layout} {table : ThreadTable}

/-- Every stack that was handed out ends below the next one. -/
structure Stacked (table : ThreadTable) : Prop extends table.Numbered where
  ends : ∀ base ∈ table.stackBases, base + threadStackSize ≤ a64GuestVa table.stackNext

theorem Numbered.stackNext_add (h : table.Numbered) :
    u32 (table.stackNext + threadStackSize) = table.stackNext + threadStackSize := by
  have hheap := layoutConsts.2.1
  have hsize : threadStackSize = 0x100000 := rfl
  have hbelow := h.below
  exact u32_of_lt (by omega)

theorem Stacked.step (hL : L.isArm64) (h : table.Stacked) (op : ThreadOp) :
    (table.step L op).Stacked := by
  refine ⟨h.toNumbered.step op, fun base hbase => ?_⟩
  rcases step_stackBases hL table op with ⟨call, -, -, hbases, hnext⟩ | ⟨hsub, hnext⟩
  · rw [hnext, h.stackNext_add]
    rw [hbases, mem_append, mem_singleton] at hbase
    rcases hbase with hold | rfl
    · have hends := h.ends base hold
      simp only [a64GuestVa] at hends ⊢
      omega
    · simp only [a64GuestVa]
      omega
  · rw [hnext]
    exact h.ends base (hsub.subset hbase)

theorem stacked_initial (heapMb mmap2Base mmap2End : Int) :
    (initial (guestLayoutInit true heapMb mmap2Base mmap2End)).Stacked :=
  ⟨numbered_initial true heapMb mmap2Base mmap2End, fun _ hbase => absurd hbase not_mem_nil⟩

theorem loadA64_newThread (table : ThreadTable) (hL : L.isArm64) (call : CreateCall) (aux : Jit64) :
    ((table.newThread L call).loadA64 aux).pc =
        (if roundDown call.fn64 2 ≠ 0 then roundDown call.fn64 2 else roundDown call.fn 2) ∧
      ((table.newThread L call).loadA64 aux).x 0 = call.arg64 ∧
      ((table.newThread L call).loadA64 aux).sp =
        a64GuestVa (sub32 (u32 (table.stackNext + threadStackSize)) 16) := by
  simp [newThread, hL, ArmThread.loadA64, a64GuestVa, a64GuestBase]

/-- What the first slice finds of the record a call appends. -/
theorem Stacked.firstSlice_iff (hL : L.isArm64) (h : table.Stacked) (call : CreateCall)
    (fn arg : Nat) : FirstSlice table (table.newThread L call) fn arg ↔
      (if roundDown call.fn64 2 ≠ 0 then roundDown call.fn64 2 else roundDown call.fn 2) = fn ∧
        call.arg64 = arg ∧ table.nextId ∉ table.ids := by
  have hload := loadA64_newThread table hL call
  constructor
  · intro hslice
    refine ⟨?_, ?_, fun hid => hslice.id ?_⟩
    · rw [← (hload freshJit64).1, hslice.pc]
    · rw [← (hload freshJit64).2.1, hslice.x0]
    · rw [newThread_id]
      exact mem_append_right _ hid
  rintro ⟨rfl, rfl, hid⟩
  refine ⟨fun aux => (hload aux).1, fun aux => (hload aux).2.1, fun aux => ?_, ?_,
    fun tids => tids.names_setCurTid _, ?_⟩
  · have hheap := layoutConsts.2.1
    have hbelow := h.below
    have hsize : threadStackSize = 0x100000 := rfl
    rw [(hload aux).2.2, newThread_stackBase hL, h.stackNext_add, sub32, u32]
    simp only [a64GuestVa]
    omega
  · rw [newThread_stackBase hL]
    exact h.ends
  · rw [newThread_id, mem_append, not_or]
    exact ⟨by simp [h.nextId_eq, mainIds], hid⟩

end ThreadTable

theorem startsThread_iff {L : Layout} {table : ThreadTable} {call : CreateCall} {fn arg : Nat}
    (hcreates : table.Creates call) :
    StartsThread L table call fn arg ↔ FirstSlice table (table.newThread L call) fn arg := by
  simp [StartsThread, ThreadTable.svcPthreadCreate, hcreates]

/-- **Thread start.** After every run, a `pthread_create` on any of the JITs starts the thread
its caller asked for exactly when it was heard. -/
theorem startsThread_iff_heard (heapMb mmap2Base mmap2End : Int) (ops : List ThreadOp)
    (s : AddressSpace) (jits : Instance → Jit64) (i : Instance) :
    let L := guestLayoutInit true heapMb mmap2Base mmap2End
    let table := run (ThreadTable.step L) (ThreadTable.initial L) ops
    StartsThread L table (createCall L s jits i) ((jits i).x 2) ((jits i).x 3) ↔
      Heard L s jits i table := by
  intro L table
  have hL : L.isArm64 := rfl
  have hstacked : table.Stacked := run_always (fun _ op h => h.step hL op)
    (ThreadTable.stacked_initial heapMb mmap2Base mmap2End) ops
  by_cases hcreates : table.Creates (createCall L s jits i)
  · rw [startsThread_iff hcreates, hstacked.firstSlice_iff hL]
    constructor
    · rintro ⟨hfn, harg, hid⟩
      refine ⟨hcreates, ?_, harg, hid⟩
      split at hfn
      · exact .inl hfn
      · rename_i hnull
        exact .inr ⟨by simp only [createCall_eq, roundDown] at hnull; omega, hfn⟩
    · rintro ⟨-, hfn | ⟨hnull, hfn⟩, harg, hid⟩
      · refine ⟨(if_pos fun hzero => hcreates.1 ?_).trans hfn, harg, hid⟩
        have hfn0 : (jits i).x 2 = 0 := hfn.symm.trans hzero
        rw [createCall_eq, hfn0, svcArg_of_lt (by norm_num)]
      · refine ⟨(if_neg ?_).trans hfn, harg, hid⟩
        simp only [createCall_eq, roundDown]
        omega
  · constructor
    · rintro ⟨t, ht, -⟩
      simp [ThreadTable.svcPthreadCreate, hcreates] at ht
    · exact fun hheard => absurd hheard.creates hcreates

/-- The main thread creates a thread at `0x10000` with argument 7, and code on another JIT one at
`0x20000`. -/
def twoCreators : Instance → Jit64
  | .main => { freshJit64 with x := fun r => if r.val = 2 then a64GuestVa 0x10000 else 7 }
  | _ => { freshJit64 with x := fun r => if r.val = 2 then a64GuestVa 0x20000 else 9 }

/-- A worker's thread starts at the address in the main thread's register. -/
theorem not_startsThread_worker :
    ¬ StartsThread (defaultLayout true) (ThreadTable.initial (defaultLayout true))
      (createCall (defaultLayout true) (AddressSpace.initial (defaultLayout true)) twoCreators .aux)
      (a64GuestVa 0x20000) 9 := by
  rw [startsThread_iff (by decide +kernel)]
  exact fun hslice => absurd (hslice.pc freshJit64) (by decide +kernel)

end Lunaria
