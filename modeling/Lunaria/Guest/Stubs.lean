/-
# Guest code of the runtime

Some library functions are not supervisor calls but short pieces of guest code that the
runtime writes into guest memory: the fast mutex functions of A32 and `pthread_once` of
both instruction sets. They are written as instruction words, so they are modelled as
such: two decoders turn the words into instructions, and an interpreter runs them on the
registers of one thread and on shared memory, one instruction at a time. Only the
encodings the stubs use are decoded.

Memory is a function from addresses to 32-bit words, and the stack of a thread, which no
other thread uses, is kept with its registers.
-/

import Lunaria.Layout
import Mathlib.Logic.Function.Basic

namespace Lunaria

/-! ## Instructions -/

inductive StubCond where
  | ne
  | lo
  | mi
  | al
  deriving DecidableEq

inductive AluOp where
  | and
  | sub
  | add
  | cmp
  | orr
  | mov
  | bic
  deriving DecidableEq

/-- The second operand of a data-processing instruction. -/
inductive Operand where
  | imm (value : Nat)
  | reg (r : Nat)
  deriving DecidableEq

/-- The instructions of the stubs. Branch offsets count words from the instruction. -/
inductive StubInsn where
  | movImm (rd imm : Nat)
  | movTop (rd imm : Nat)
  | ldr (rt rn : Nat)
  | str (rt rn : Nat)
  | alu (op : AluOp) (setFlags : Bool) (rd rn : Nat) (operand : Operand)
  | branch (offset : Nat)
  | cbnz (rt offset : Nat)
  | call (rm : Nat)
  | ret
  | push (rs : List Nat)
  | pop (rs : List Nat)
  deriving DecidableEq

/-- The field of width `width` whose least significant bit is bit `lo`. -/
def bitField (w lo width : Nat) : Nat := w / 2 ^ lo % 2 ^ width

/-- The registers of a register list, lowest first. -/
def regList (mask : Nat) : List Nat := (List.range 16).filter fun r => mask.testBit r

/-- The modified immediate of an A32 data-processing instruction: eight bits, rotated. -/
def armExpandImm (imm12 : Nat) : Nat :=
  let rotation := 2 * (imm12 / 2 ^ 8)
  let byte := imm12 % 2 ^ 8
  u32 (byte / 2 ^ rotation + byte * 2 ^ (32 - rotation))

def decodeCond (w : Nat) : Option StubCond :=
  match bitField w 28 4 with
  | 1 => some .ne
  | 3 => some .lo
  | 4 => some .mi
  | 14 => some .al
  | _ => none

def decodeAlu (w : Nat) : Option AluOp :=
  match bitField w 21 4 with
  | 0 => some .and
  | 2 => some .sub
  | 4 => some .add
  | 10 => some .cmp
  | 12 => some .orr
  | 13 => some .mov
  | 14 => some .bic
  | _ => none

/-- Decode an A32 instruction, apart from its condition. -/
def decodeA32Insn (w : Nat) : Option StubInsn :=
  let rn := bitField w 16 4
  let rd := bitField w 12 4
  let imm12 := bitField w 0 12
  if bitField w 0 28 = 0x12FFF1E then some .ret
  else if bitField w 4 24 = 0x12FFF3 then some (.call (bitField w 0 4))
  else if bitField w 16 12 = 0x92D then some (.push (regList (bitField w 0 16)))
  else if bitField w 16 12 = 0x8BD then some (.pop (regList (bitField w 0 16)))
  else if bitField w 20 8 = 0x30 then some (.movImm rd (rn * 2 ^ 12 + imm12))
  else if bitField w 20 8 = 0x34 then some (.movTop rd (rn * 2 ^ 12 + imm12))
  else if bitField w 20 8 = 0x59 ∧ imm12 = 0 then some (.ldr rd rn)
  else if bitField w 20 8 = 0x58 ∧ imm12 = 0 then some (.str rd rn)
  -- the program counter reads as the address two instructions on
  else if bitField w 24 4 = 0xA then some (.branch (bitField w 0 24 + 2))
  else if bitField w 25 3 = 1 then
    (decodeAlu w).map fun op => .alu op (w.testBit 20) rd rn (.imm (armExpandImm imm12))
  else if bitField w 25 3 = 0 ∧ bitField w 4 8 = 0 then
    (decodeAlu w).map fun op => .alu op (w.testBit 20) rd rn (.reg (bitField w 0 4))
  else none

def decodeA32 (w : Nat) : Option (StubCond × StubInsn) := do
  let cond ← decodeCond w
  let insn ← decodeA32Insn w
  pure (cond, insn)

def decodeA64 (w : Nat) : Option (StubCond × StubInsn) :=
  let rt := bitField w 0 5
  let rn := bitField w 5 5
  let insn :=
    if w = 0xD65F03C0 then some .ret
    else if bitField w 10 22 = 0x358FC0 ∧ rt = 0 then some (.call rn)
    -- `stp` and `ldp` of two registers with the stack pointer moved by 16
    else if bitField w 15 17 = 0x1537E ∧ rn = 31 then some (.push [rt, bitField w 10 5])
    else if bitField w 15 17 = 0x15182 ∧ rn = 31 then some (.pop [rt, bitField w 10 5])
    else if bitField w 10 22 = 0x2E5000 then some (.ldr rt rn)
    else if bitField w 10 22 = 0x2E4000 then some (.str rt rn)
    else if bitField w 24 8 = 0x35 then some (.cbnz rt (bitField w 5 19))
    else if bitField w 21 10 = 0x294 then some (.movImm rt (bitField w 5 16))
    else none
  insn.map fun i => (.al, i)

/-! ## Execution -/

/-- What a thread has in its registers while it is in a stub. The program counter counts
words from the start of the stub. -/
structure StubCpu where
  regs : Nat → Nat
  n : Bool
  z : Bool
  c : Bool
  pc : Nat
  stack : List Nat

/-- How an instruction ends: with the next one, with a call that comes back to the next one, or with
the return. -/
inductive StubStep where
  | next (cpu : StubCpu) (mem : Nat → Nat)
  | call (target : Nat) (cpu : StubCpu) (mem : Nat → Nat)
  | ret (cpu : StubCpu) (mem : Nat → Nat)
  | stuck

namespace StubCpu

variable (cpu : StubCpu)

@[simp]
def setReg (r value : Nat) : StubCpu :=
  { cpu with regs := Function.update cpu.regs r value }

@[simp]
def advance (offset : Nat) : StubCpu := { cpu with pc := cpu.pc + offset }

@[simp]
def passes : StubCond → Bool
  | .ne => !cpu.z
  | .lo => !cpu.c
  | .mi => cpu.n
  | .al => true

@[simp]
def operand : Operand → Nat
  | .imm value => value
  | .reg r => cpu.regs r

/-- Load registers from the stack, lowest first. -/
def popRegs : StubCpu → List Nat → StubCpu
  | cpu, [] => cpu
  | cpu, r :: rs => popRegs { cpu.setReg r (cpu.stack.headD 0) with stack := cpu.stack.tail } rs

end StubCpu

/-- The result of an operation on two registers. A comparison subtracts. -/
@[simp]
def AluOp.result : AluOp → Nat → Nat → Nat
  | .and, a, b => a &&& b
  | .sub, a, b | .cmp, a, b => sub32 a b
  | .add, a, b => u32 (a + b)
  | .orr, a, b => a ||| b
  | .mov, _, b => b
  | .bic, a, b => a &&& (2 ^ 32 - 1 - b)

/-- A data-processing instruction. Subtractions and comparisons set the carry unless they borrow. -/
@[simp]
def StubCpu.alu (cpu : StubCpu) (op : AluOp) (setFlags : Bool) (rd rn : Nat) (b : Nat) : StubCpu :=
  let a := cpu.regs rn
  let value := op.result a b
  let flagged :=
    if setFlags then
      { cpu with n := decide (2 ^ 31 ≤ value), z := decide (value = 0), c := decide (b ≤ a) }
    else cpu
  if op = .cmp then flagged else flagged.setReg rd value

/-- Execute one instruction. A pop that loads the A32 program counter returns. -/
@[simp]
def StubCpu.exec (cpu : StubCpu) (mem : Nat → Nat) : StubInsn → StubStep
  | .movImm rd imm => .next ((cpu.setReg rd imm).advance 1) mem
  | .movTop rd imm => .next ((cpu.setReg rd (imm * 2 ^ 16 + cpu.regs rd % 2 ^ 16)).advance 1) mem
  | .ldr rt rn => .next ((cpu.setReg rt (mem (cpu.regs rn))).advance 1) mem
  | .str rt rn => .next (cpu.advance 1) (Function.update mem (cpu.regs rn) (cpu.regs rt))
  | .alu op setFlags rd rn b => .next ((cpu.alu op setFlags rd rn (cpu.operand b)).advance 1) mem
  | .branch offset => .next (cpu.advance offset) mem
  | .cbnz rt offset => .next (cpu.advance (if cpu.regs rt = 0 then 1 else offset)) mem
  | .call rm => .call (cpu.regs rm) (cpu.advance 1) mem
  | .ret => .ret cpu mem
  | .push rs => .next ({ cpu with stack := rs.map cpu.regs ++ cpu.stack }.advance 1) mem
  | .pop rs => if 15 ∈ rs then .ret (cpu.popRegs rs) mem else .next ((cpu.popRegs rs).advance 1) mem

/-- Fetch, decode and execute. An instruction whose condition fails does nothing. -/
def stubStep (program : List (Option (StubCond × StubInsn))) (cpu : StubCpu) (mem : Nat → Nat) :
    StubStep :=
  match program[cpu.pc]? with
  | some (some (cond, insn)) =>
    if cpu.passes cond then cpu.exec mem insn else .next (cpu.advance 1) mem
  | _ => .stuck

/-- Where an instruction stores, if it does. -/
@[simp]
def StubCpu.storesAt (cpu : StubCpu) : StubInsn → Option Nat
  | .str _ rn => some (cpu.regs rn)
  | _ => none

/-- Run a stub that calls nothing and stores nowhere but at `home` until it returns, for at
most so many instructions. -/
def stubFinish (program : List (Option (StubCond × StubInsn))) (home : Nat) :
    Nat → StubCpu → (Nat → Nat) → Option (StubCpu × (Nat → Nat))
  | 0, _, _ => none
  | fuel + 1, cpu, mem =>
    match program[cpu.pc]? with
    | some (some (cond, insn)) =>
      if cpu.passes cond then
        if cpu.storesAt insn = none ∨ cpu.storesAt insn = some home then
          match cpu.exec mem insn with
          | .next cpu' mem' => stubFinish program home fuel cpu' mem'
          | .ret cpu' mem' => some (cpu', mem')
          | .call _ _ _ | .stuck => none
        else none
      else stubFinish program home fuel (cpu.advance 1) mem
    | _ => none

section

variable {cpu cpu' : StubCpu} {mem mem' : Nat → Nat} {insn : StubInsn}

theorem StubCpu.exec_frame {home : Nat} (hat : cpu.storesAt insn = none ∨ cpu.storesAt insn =
    some home)
    (h : cpu.exec mem insn = .next cpu' mem') {a : Nat} (ha : a ≠ home) : mem' a = mem a := by
  cases insn with
  | str rt rn =>
    have hhome : cpu.regs rn = home := by simpa using hat
    simp only [exec, StubStep.next.injEq] at h
    rw [← h.2, hhome, Function.update_of_ne ha]
  | pop rs =>
    simp only [exec] at h
    split at h
    · exact absurd h (by simp)
    · simp only [StubStep.next.injEq] at h
      rw [h.2]
  | call _ | ret => exact absurd h (by simp)
  | _ =>
    simp only [exec, StubStep.next.injEq] at h
    rw [h.2]

theorem StubCpu.exec_ret (h : cpu.exec mem insn = .ret cpu' mem') : mem' = mem := by
  cases insn with
  | pop rs =>
    simp only [exec] at h
    split at h
    · simp only [StubStep.ret.injEq] at h
      exact h.2.symm
    · exact absurd h (by simp)
  | ret =>
    simp only [exec, StubStep.ret.injEq] at h
    exact h.2.symm
  | _ => exact absurd h (by simp)

end

/-- A stub on its way to its return returns now or takes a step, which changes memory at most at its
home. -/
theorem stubFinish_step {program : List (Option (StubCond × StubInsn))} {home fuel : Nat}
    {cpu final : StubCpu} {mem mem' : Nat → Nat}
    (h : stubFinish program home fuel cpu mem = some (final, mem')) :
    (stubStep program cpu mem = .ret final mem ∧ mem' = mem) ∨
    ∃ fuel' cpu₁ mem₁, stubStep program cpu mem = .next cpu₁ mem₁ ∧
      (∀ a, a ≠ home → mem₁ a = mem a) ∧
      stubFinish program home fuel' cpu₁ mem₁ = some (final, mem') := by
  cases fuel with
  | zero => exact absurd h (by simp [stubFinish])
  | succ fuel =>
    simp only [stubFinish] at h
    split at h
    · rename_i cond insn hfetch
      simp only [stubStep, hfetch]
      split at h
      · rename_i hpass
        rw [if_pos hpass]
        split at h
        · rename_i hat
          cases hexec : cpu.exec mem insn with
          | next cpu₁ mem₁ =>
            rw [hexec] at h
            exact .inr ⟨fuel, cpu₁, mem₁, rfl, fun a ha => StubCpu.exec_frame hat hexec ha, h⟩
          | ret cpu₁ mem₁ =>
            rw [hexec] at h
            have hmem := StubCpu.exec_ret hexec
            simp only [Option.some.injEq, Prod.mk.injEq] at h
            exact .inl ⟨by rw [h.1, hmem], by rw [← h.2, hmem]⟩
          | call _ _ _ | stuck => rw [hexec] at h; exact absurd h (by simp)
        · exact absurd h (by simp)
      · rename_i hpass
        rw [if_neg hpass]
        exact .inr ⟨fuel, _, mem, rfl, fun _ _ => rfl, h⟩
    · exact absurd h (by simp)

/-! ## The stubs -/

/-- `FAST_MUTEX_PAGE`, whose first word is `CUR_TID_VA`. -/
def curTidVa : Nat := 0x4100f000

def movw (rd imm : Nat) : Nat :=
  0xE3000000 ||| ((imm &&& 0xf000) <<< 4) ||| (rd <<< 12) ||| (imm &&& 0x0fff)

def movt (rd imm : Nat) : Nat :=
  0xE3400000 ||| ((imm &&& 0xf000) <<< 4) ||| (rd <<< 12) ||| (imm &&& 0x0fff)

def lockCode : List Nat :=
  [movw 2 (curTidVa &&& 0xffff), movt 2 (curTidVa >>> 16),
    0xE5922000, 0xE5903000, 0xE2833C01, 0xE3C330FF, 0xE1833002, 0xE5803000, 0xE3A00000, 0xE12FFF1E]

def unlockCode : List Nat :=
  [0xE5903000, 0xE2533C01, 0x43A03000, 0xE3530C01, 0x33A03000, 0xE5803000, 0xE3A00000, 0xE12FFF1E]

def trylockCode : List Nat :=
  [movw 2 (curTidVa &&& 0xffff), movt 2 (curTidVa >>> 16),
    0xE5922000, 0xE5903000, 0xE3530C01, 0x3A000002, 0xE20310FF, 0xE1510002, 0x1A000005,
    0xE2833C01, 0xE3C330FF, 0xE1833002, 0xE5803000, 0xE3A00000, 0xE12FFF1E, 0xE3A00010, 0xE12FFF1E]

def onceStub : List Nat :=
  [0xE92D4010, 0xE5904000, 0xE3540000, 0x1A000002, 0xE3A04001, 0xE5804000, 0xE12FFF31,
    0xE3A00000, 0xE8BD8010]

def once64 : List Nat :=
  [0xA9BF7BFD, 0xB9400002, 0x35000082, 0x52800022, 0xB9000002, 0xD63F0020, 0xD2800000,
    0xA8C17BFD, 0xD65F03C0]

theorem decode_lockCode : lockCode.map decodeA32 =
    [some (.al, .movImm 2 0xf000), some (.al, .movTop 2 0x4100), some (.al, .ldr 2 2),
      some (.al, .ldr 3 0), some (.al, .alu .add false 3 3 (.imm 0x100)),
      some (.al, .alu .bic false 3 3 (.imm 0xff)), some (.al, .alu .orr false 3 3 (.reg 2)),
      some (.al, .str 3 0), some (.al, .alu .mov false 0 0 (.imm 0)), some (.al, .ret)] := by
  decide

theorem decode_unlockCode : unlockCode.map decodeA32 =
    [some (.al, .ldr 3 0), some (.al, .alu .sub true 3 3 (.imm 0x100)),
      some (.mi, .alu .mov false 3 0 (.imm 0)), some (.al, .alu .cmp true 0 3 (.imm 0x100)),
      some (.lo, .alu .mov false 3 0 (.imm 0)), some (.al, .str 3 0),
      some (.al, .alu .mov false 0 0 (.imm 0)), some (.al, .ret)] := by
  decide

theorem decode_trylockCode : trylockCode.map decodeA32 =
    [some (.al, .movImm 2 0xf000), some (.al, .movTop 2 0x4100), some (.al, .ldr 2 2),
      some (.al, .ldr 3 0), some (.al, .alu .cmp true 0 3 (.imm 0x100)),
      some (.lo, .branch 4), some (.al, .alu .and false 1 3 (.imm 0xff)),
      some (.al, .alu .cmp true 0 1 (.reg 2)), some (.ne, .branch 7),
      some (.al, .alu .add false 3 3 (.imm 0x100)), some (.al, .alu .bic false 3 3 (.imm 0xff)),
      some (.al, .alu .orr false 3 3 (.reg 2)), some (.al, .str 3 0),
      some (.al, .alu .mov false 0 0 (.imm 0)), some (.al, .ret),
      some (.al, .alu .mov false 0 0 (.imm 16)), some (.al, .ret)] := by
  decide

theorem decode_onceStub : onceStub.map decodeA32 =
    [some (.al, .push [4, 14]), some (.al, .ldr 4 0), some (.al, .alu .cmp true 0 4 (.imm 0)),
      some (.ne, .branch 4), some (.al, .alu .mov false 4 0 (.imm 1)), some (.al, .str 4 0),
      some (.al, .call 1), some (.al, .alu .mov false 0 0 (.imm 0)), some (.al, .pop [4, 15])] := by
  decide

end Lunaria
