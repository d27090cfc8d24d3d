/-
# The fast mutex stubs beside the supervisor calls

On A32 the three mutex functions are guest code, and the supervisor calls they
stand in for are still there. This module runs each stub from any registers, any
flags and any memory, and compares what it leaves behind with the call: the
return value, every word of memory and every register a callee has to keep.

They differ in two places. The calls leave a null mutex alone and the stubs do
not look; and the unlock stub takes the sign of the difference for an underflow.
-/

import Lunaria.Sync.Mutex

namespace Lunaria

open Lib Function

/-! ## What a stub leaves alone -/

/-- The instruction sets no register but `r0` to `r3` and uses no stack. -/
def StubInsn.isScratch : StubInsn → Bool
  | .movImm rd _ => decide (rd < 4)
  | .movTop rd _ => decide (rd < 4)
  | .ldr rt _ => decide (rt < 4)
  | .str _ _ => true
  | .alu op _ rd _ _ => decide (op = .cmp) || decide (rd < 4)
  | .branch _ => true
  | .cbnz _ _ => true
  | .ret => true
  | .call _ => false
  | .push _ => false
  | .pop _ => false

/-- Registers and stack that a callee has to keep are the same. -/
structure StubCpu.Keeps (cpu cpu' : StubCpu) : Prop where
  regs : ∀ r, 4 ≤ r → cpu'.regs r = cpu.regs r
  stack : cpu'.stack = cpu.stack

namespace StubCpu.Keeps

variable {cpu cpu' cpu'' : StubCpu}

theorem refl (cpu : StubCpu) : cpu.Keeps cpu := ⟨fun _ _ => rfl, rfl⟩

theorem trans (h : cpu.Keeps cpu') (h' : cpu'.Keeps cpu'') : cpu.Keeps cpu'' :=
  ⟨fun r hr => (h'.regs r hr).trans (h.regs r hr), h'.stack.trans h.stack⟩

theorem advance (h : cpu.Keeps cpu') (offset : Nat) : cpu.Keeps (cpu'.advance offset) :=
  ⟨h.regs, h.stack⟩

theorem setReg (h : cpu.Keeps cpu') {rd : Nat} (hrd : rd < 4) (value : Nat) :
    cpu.Keeps (cpu'.setReg rd value) := by
  refine ⟨fun r hr => ?_, h.stack⟩
  simp only [StubCpu.setReg]
  rw [update_of_ne (by omega), h.regs r hr]

theorem alu (cpu : StubCpu) (op : AluOp) (setFlags : Bool) {rd : Nat} (rn b : Nat)
    (hrd : op = .cmp ∨ rd < 4) : cpu.Keeps (cpu.alu op setFlags rd rn b) := by
  have hflags (n z c : Bool) : cpu.Keeps { cpu with n, z, c } := ⟨fun _ _ => rfl, rfl⟩
  simp only [StubCpu.alu]
  split
  · split
    · exact hflags ..
    · exact refl cpu
  rename_i hop
  have hlt := hrd.resolve_left hop
  split
  · exact (hflags ..).setReg hlt _
  · exact (refl cpu).setReg hlt _

end StubCpu.Keeps

variable {insn : StubInsn}

theorem StubCpu.keeps_exec {cpu cpu' : StubCpu} {mem mem' : Nat → Nat}
    (hscratch : insn.isScratch) (h : cpu.exec mem insn = .next cpu' mem') : cpu.Keeps cpu' := by
  have hself := Keeps.refl cpu
  cases insn with
  | movImm _ _ | movTop _ _ | ldr _ _ =>
    obtain ⟨rfl, -⟩ := StubStep.next.inj h
    exact (hself.setReg (of_decide_eq_true hscratch) _).advance 1
  | str rt rn =>
    obtain ⟨rfl, -⟩ := StubStep.next.inj h
    exact hself.advance 1
  | alu op setFlags rd rn b =>
    obtain ⟨rfl, -⟩ := StubStep.next.inj h
    have hrd : op = .cmp ∨ rd < 4 := by simpa [StubInsn.isScratch] using hscratch
    exact (Keeps.alu cpu op setFlags rn _ hrd).advance 1
  | branch _ | cbnz _ _ =>
    obtain ⟨rfl, -⟩ := StubStep.next.inj h
    exact hself.advance _
  | call rm => cases hscratch
  | ret => cases h
  | push _ | pop _ => cases hscratch

theorem StubCpu.keeps_exec_ret {cpu cpu' : StubCpu} {mem mem' : Nat → Nat}
    (hscratch : insn.isScratch) (h : cpu.exec mem insn = .ret cpu' mem') : cpu.Keeps cpu' := by
  cases insn with
  | ret =>
    obtain ⟨rfl, -⟩ := StubStep.ret.inj h
    exact Keeps.refl cpu
  | pop rs => cases hscratch
  | _ => cases h

theorem stubFinish_keeps {program : List (Option (StubCond × StubInsn))} {home fuel : Nat}
    (hscratch : ∀ cond insn, some (cond, insn) ∈ program → insn.isScratch)
    {cpu final : StubCpu} {mem mem' : Nat → Nat}
    (h : stubFinish program home fuel cpu mem = some (final, mem')) : cpu.Keeps final := by
  induction fuel generalizing cpu mem with
  | zero => cases h
  | succ fuel ih =>
    rw [stubFinish] at h
    split at h
    · rename_i cond insn hfetch
      have hinsn := hscratch cond insn (List.mem_of_getElem? hfetch)
      split at h
      · split at h
        · split at h
          · rename_i cpu₁ mem₁ hexec
            exact (StubCpu.keeps_exec hinsn hexec).trans (ih h)
          · rename_i cpu₁ mem₁ hexec
            cases h
            exact StubCpu.keeps_exec_ret hinsn hexec
          · cases h
          · cases h
        · cases h
      · exact ((StubCpu.Keeps.refl cpu).advance 1).trans (ih h)
    · cases h

variable {cpu : StubCpu} {mem : Nat → Nat}

theorem stubFinish_mono {program : List (Option (StubCond × StubInsn))} {home fuel fuel' : Nat}
    (hle : fuel ≤ fuel') {out : StubCpu × (Nat → Nat)}
    (h : stubFinish program home fuel cpu mem = some out) :
    stubFinish program home fuel' cpu mem = some out := by
  induction fuel generalizing fuel' cpu mem with
  | zero => cases h
  | succ fuel ih =>
    obtain ⟨fuel', rfl⟩ := Nat.exists_eq_add_of_le hle
    rw [add_right_comm, stubFinish]
    have hle' : fuel ≤ fuel + fuel' := Nat.le_add_right fuel fuel'
    rw [stubFinish] at h
    split at h
    · split at h
      · rename_i hpass
        rw [if_pos hpass]
        split at h
        · rename_i hat
          rw [if_pos hat]
          split at h
          · exact ih hle' h
          · exact h
          · cases h
          · cases h
        · cases h
      · rename_i hpass
        rw [if_neg hpass]
        exact ih hle' h
    · cases h

/-! ## Calls -/

/-- A supervisor call on the mutex at `m`: the memory it leaves and what it returns. A null
mutex is left alone. -/
def svcMutexCall (mem : Nat → Nat) (m tid : Nat) (fn : MutexFn) : (Nat → Nat) × Nat :=
  if m = 0 then (mem, 0)
  else (Function.update mem m (svcMutex (mem m) tid fn).1, (svcMutex (mem m) tid fn).2)

/-- The stub returns what the supervisor call returns, leaves its memory and keeps what a callee has
to keep. -/
def StubAgrees (fn : MutexFn) (tid : Nat) (cpu : StubCpu) (mem : Nat → Nat) : Prop :=
  ∃ fuel final, stubFinish fn.program (cpu.regs 0) fuel cpu mem =
      some (final, (svcMutexCall mem (cpu.regs 0) tid fn).1) ∧
    final.regs 0 = (svcMutexCall mem (cpu.regs 0) tid fn).2 ∧ cpu.Keeps final

/-- The word a stub leaves in the mutex. -/
def stubWord (w tid : Nat) (fn : MutexFn) : Nat :=
  if fn = .unlock ∧ 2 ^ 31 + 0x100 ≤ w then 0 else (svcMutex w tid fn).1

theorem MutexFn.program_isScratch (fn : MutexFn) {cond : StubCond}
    (h : some (cond, insn) ∈ fn.program) : insn.isScratch := by
  have hall : ∀ slot ∈ fn.program, slot.all (fun code => code.2.isScratch) := by
    cases fn
    · simp only [MutexFn.program]
      decide
    · simp only [MutexFn.program, decode_trylockCode]
      decide
    · simp only [MutexFn.program]
      decide
  exact hall _ h

variable {m tid w : Nat}

/-- From a count of 2²³ on the difference is negative, and the stub frees the mutex. -/
theorem unlock_finish_of_large (hpc : cpu.pc = 0)
    (hr0 : cpu.regs 0 = m) (hlarge : 2 ^ 31 + 0x100 ≤ mem m) (hw : mem m < 2 ^ 32) :
    ∃ final, stubFinish MutexFn.unlock.program m 8 cpu mem = some (final, update mem m 0) ∧
      final.regs 0 = 0 := by
  have hsub : sub32 (mem m) 0x100 = mem m - 0x100 := sub32_of_le (by omega) hw
  have hneg : 0x80000000 ≤ mem m - 0x100 := by omega
  simp [stubFinish, MutexFn.program, decode_unlockCode, hpc, hr0, hsub, hneg]

/-- What a stub does from any registers: it returns, with the value of the supervisor call. -/
theorem stub_returns (fn : MutexFn)
    (hpc : cpu.pc = 0) (hmem : ∀ a, mem a < 2 ^ 32) (htid : mem curTidVa = u32 (tid + 1)) :
    ∃ fuel final, stubFinish fn.program (cpu.regs 0) fuel cpu mem =
        some (final, update mem (cpu.regs 0) (stubWord (mem (cpu.regs 0)) tid fn)) ∧
      final.regs 0 = (svcMutex (mem (cpu.regs 0)) tid fn).2 := by
  cases fn with
  | lock =>
    obtain ⟨final, hrun, hret⟩ := lock_finish hpc rfl htid
    exact ⟨10, final, by simpa [stubWord] using hrun, hret⟩
  | trylock =>
    obtain ⟨final, hrun, hret⟩ := trylock_finish hpc rfl htid
    exact ⟨15, final, by simpa [stubWord] using hrun, hret⟩
  | unlock =>
    by_cases hlarge : 2 ^ 31 + 0x100 ≤ mem (cpu.regs 0)
    · obtain ⟨final, hrun, hret⟩ := unlock_finish_of_large hpc rfl hlarge (hmem _)
      refine ⟨8, final, ?_, hret⟩
      rw [hrun, stubWord, if_pos ⟨rfl, hlarge⟩]
    · obtain ⟨final, hrun, hret⟩ :=
        unlock_finish hpc rfl (not_le.mp hlarge)
      refine ⟨8, final, ?_, hret⟩
      rw [hrun, stubWord, if_neg fun h => hlarge h.2]

variable {fn : MutexFn}

theorem stubAgrees_iff_eq
    (hpc : cpu.pc = 0) (hmem : ∀ a, mem a < 2 ^ 32) (htid : mem curTidVa = u32 (tid + 1)) :
    StubAgrees fn tid cpu mem ↔ (update mem (cpu.regs 0) (stubWord (mem (cpu.regs 0)) tid fn),
        (svcMutex (mem (cpu.regs 0)) tid fn).2) = svcMutexCall mem (cpu.regs 0) tid fn := by
  obtain ⟨fuel, final, hrun, hret⟩ := stub_returns fn hpc hmem htid
  constructor
  · rintro ⟨fuel', final', hrun', hret', -⟩
    -- both runs, given the larger of the two fuels, are the same run
    have hboth := (stubFinish_mono (le_max_left fuel fuel') hrun).symm.trans
      (stubFinish_mono (le_max_right fuel fuel') hrun')
    obtain ⟨rfl, hleft⟩ := Prod.mk.inj (Option.some.inj hboth)
    exact Prod.ext hleft (hret.symm.trans hret')
  · intro heq
    refine ⟨fuel, final, ?_, ?_, stubFinish_keeps (fun _ _ => fn.program_isScratch) hrun⟩
    · rw [hrun, ← heq]
    · rw [hret, ← heq]

/-! ## Where they agree -/

/-- Locking changes every word but one whose count is full and whose rest is the owner. -/
theorem lockedWord_eq_self_iff (hw : w < 2 ^ 32) :
    lockedWord w tid = w ↔ w = u32 (tid + 1) ∧ 0xffffff00 ≤ w := by
  constructor
  · intro h
    have hle : u32 (roundDown w 0x100 + 0x100) ≤ w :=
      calc u32 (roundDown w 0x100 + 0x100)
          _ ≤ lockedWord w tid := Nat.left_le_or
          _ = w := h
    have hfull : 0xffffff00 ≤ w := by
      simp only [roundDown, u32] at hle
      omega
    have hzero : u32 (roundDown w 0x100 + 0x100) = 0 := by
      simp only [roundDown, u32]
      omega
    rw [lockedWord, hzero, Nat.zero_or] at h
    exact ⟨h.symm, hfull⟩
  · rintro ⟨howner, hfull⟩
    have hzero : u32 (roundDown w 0x100 + 0x100) = 0 := by
      simp only [roundDown, u32]
      omega
    rw [lockedWord, hzero, Nat.zero_or, howner]

theorem unlockedWord_eq_self_iff : unlockedWord w = w ↔ w = 0 := by
  simp only [unlockedWord]
  split <;> split <;> omega

/-- The stub on the mutex at `m`, whose word is `w`, does what the supervisor call does. A
null mutex is one the stub has to leave as it is. -/
def MutexFn.Covered (fn : MutexFn) (m w tid : Nat) : Prop :=
  if m = 0 then
    (fn = .unlock ∧ w = 0) ∨ (fn = .lock ∧ w = u32 (tid + 1) ∧ 0xffffff00 ≤ w)
  else fn = .unlock → w < 2 ^ 31 + 0x100

theorem covered_of_null (hw : w < 2 ^ 32) :
    stubWord w tid fn = w ∧ (svcMutex w tid fn).2 = 0 ↔ fn.Covered 0 w tid := by
  cases fn with
  | lock => simp [stubWord, svcMutex, MutexFn.Covered, lockedWord_eq_self_iff hw]
  | trylock =>
    have hnever : ¬ MutexFn.trylock.Covered 0 w tid := by simp [MutexFn.Covered]
    rw [iff_false_right hnever, stubWord]
    rintro ⟨hword, hret⟩
    rw [svcMutex] at hword hret
    split at hret
    · cases hret
    rename_i hfree
    rw [if_neg hfree] at hword
    -- a word the lock leaves as it is has its owner above eight bits
    obtain ⟨howner, hfull⟩ := (lockedWord_eq_self_iff hw).mp hword
    apply hfree
    constructor <;> omega
  | unlock =>
    simp only [stubWord, svcMutex, MutexFn.Covered, true_and, and_true, if_true, reduceCtorEq,
      false_and, or_false]
    split
    · omega
    · exact unlockedWord_eq_self_iff

theorem covered_of_ne_null (hm : m ≠ 0) (hw : w < 2 ^ 32) :
    stubWord w tid fn = (svcMutex w tid fn).1 ↔ fn.Covered m w tid := by
  rw [MutexFn.Covered, stubWord]
  split
  · rename_i hlarge
    obtain ⟨rfl, hlarge⟩ := hlarge
    have hkept : unlockedWord w ≠ 0 := by
      simp only [unlockedWord]
      split <;> split <;> omega
    simp only [forall_const]
    exact ⟨fun h => absurd h.symm hkept, fun h => absurd hlarge (Nat.not_le_of_lt h)⟩
  · rename_i hsmall
    exact iff_of_true rfl fun hfn => not_le.mp fun hlarge => hsmall ⟨hfn, hlarge⟩

/-- **The fast stubs and the supervisor calls** agree, from any registers, flags, memory and thread,
exactly where the mutex is not null and, for unlock, the count is at most 2²³. -/
theorem stubAgrees_iff_covered (fn : MutexFn) (tid : Nat) (cpu : StubCpu) (mem : Nat → Nat)
    (hpc : cpu.pc = 0) (hmem : ∀ a, mem a < 2 ^ 32) (htid : mem curTidVa = u32 (tid + 1)) :
    StubAgrees fn tid cpu mem ↔ fn.Covered (cpu.regs 0) (mem (cpu.regs 0)) tid := by
  rw [stubAgrees_iff_eq hpc hmem htid, svcMutexCall]
  split
  · rename_i hnull
    rw [hnull, Prod.mk.injEq, update_eq_self_iff]
    exact covered_of_null (hmem 0)
  · rename_i hnull
    rw [← covered_of_ne_null hnull (hmem _), Prod.mk.injEq, and_iff_left rfl]
    exact (update_injective mem _).eq_iff

/-- A processor that enters a stub with its argument. -/
def StubCpu.entering (m : Nat) : StubCpu :=
  { regs := fun r => if r = 0 then m else 0, n := false, z := false, c := false, pc := 0,
    stack := [] }

/-- The memory of a process whose thread 0 runs: a mutex at `m` with the word `w`. -/
def mutexMemory (m w : Nat) : Nat → Nat := Function.update (fun _ => 1) m w

theorem mutexMemory_lt (hw : w < 2 ^ 32) (a : Nat) : mutexMemory m w a < 2 ^ 32 := by
  rw [mutexMemory, update_apply]
  split
  · exact hw
  · norm_num

/-- Unlocking a mutex that is locked 2²³ + 1 times frees it, and locking a null mutex locks
the word at address zero. -/
theorem stub_disagrees : ¬ StubAgrees .unlock 0 (.entering 0x1000) (mutexMemory 0x1000 0x80000101) ∧
      ¬ StubAgrees .lock 0 (.entering 0) (mutexMemory 0 0) := by
  constructor
  · have hword : mutexMemory 0x1000 0x80000101 0x1000 = 0x80000101 := update_self ..
    rw [stubAgrees_iff_eq rfl (mutexMemory_lt (by norm_num)) rfl]
    intro h
    have hmem := congrFun (congrArg Prod.fst h) 0x1000
    revert hmem
    decide
  · have hword : mutexMemory 0 0 0 = 0 := update_self ..
    rw [stubAgrees_iff_eq rfl (mutexMemory_lt (by norm_num)) rfl]
    intro h
    have hmem := congrFun (congrArg Prod.fst h) 0
    revert hmem
    decide

/-- Unlocking a mutex that thread 0 has locked twice. -/
theorem unlock_twice_locked_agrees :
    StubAgrees .unlock 0 (.entering 0x1000) (mutexMemory 0x1000 0x201) := by
  have hword : mutexMemory 0x1000 0x201 0x1000 = 0x201 := update_self ..
  rw [stubAgrees_iff_covered .unlock 0 _ _ rfl (mutexMemory_lt (by norm_num)) rfl]
  change MutexFn.unlock.Covered 0x1000 (mutexMemory 0x1000 0x201 0x1000) 0
  rw [hword, MutexFn.Covered]
  norm_num

end Lunaria
