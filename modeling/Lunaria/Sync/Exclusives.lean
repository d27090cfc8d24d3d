/-
# Exclusive loads and stores

Every guest context runs on one of four JITs: the main one, the auxiliary one that all
guest threads share, and one for each depth of nested callbacks. A JIT has a flag that
says whether an exclusive load is open, and all of them share one monitor, which keeps
for each processor id the address marked last and the value read there. Neither is part
of the context a thread switch saves. An exclusive store asks the monitor, which then
hands the marked value to a callback: the A32 callback compares it with memory, the A64
callback stores whatever it is given.

The access width is fixed but arbitrary: values are of any type.
-/

import Lunaria.Layout
import Lunaria.Lib.History
import Lunaria.Lib.Run
import Mathlib.Data.BitVec
import Mathlib.Data.Nat.Cast.Defs
import Mathlib.Logic.Function.Basic

namespace Lunaria

open Lib

/-! ## Monitor and callbacks -/

/-- The JIT instances of a context. -/
inductive GuestJit where
  | main
  | aux
  | cb
  | cbNest
  deriving DecidableEq

instance GuestJit.forallDecidable (p : GuestJit → Prop) [DecidablePred p] :
    Decidable (∀ jit, p jit) :=
  decidable_of_iff (p .main ∧ p .aux ∧ p .cb ∧ p .cbNest)
    ⟨fun ⟨hmain, haux, hcb, hnest⟩ jit => by cases jit <;> assumption,
      fun h => ⟨h .main, h .aux, h .cb, h .cbNest⟩⟩

/-- The `processor_id` each instance is configured with. -/
def GuestJit.processorId (isArm64 : Bool) : GuestJit → Nat
  | .main => 0
  | .aux => 1
  | .cb => if isArm64 then 4 else 2
  | .cbNest => if isArm64 then 5 else 3

theorem GuestJit.processorId_injective (isArm64 : Bool) :
    Function.Injective (processorId isArm64) := by
  cases isArm64 <;> simp only [Function.Injective] <;> decide

structure ExclusiveMonitor (V : Type) where
  addresses : Nat → Option Nat
  values : Nat → V

namespace ExclusiveMonitor

variable {V : Type}

def readAndMark (m : ExclusiveMonitor V) (processor addr : Nat) (value : V) :
    ExclusiveMonitor V where
  addresses := Function.update m.addresses processor (some addr)
  values := Function.update m.values processor value

/-- What `CheckAndClear` does once the check has passed: nobody keeps a mark at `addr`. -/
def clear (m : ExclusiveMonitor V) (addr : Nat) : ExclusiveMonitor V :=
  { m with addresses := fun p => if m.addresses p = some addr then none else m.addresses p }

end ExclusiveMonitor

/-- Which guest is running, and on A64 the addresses in read-only ranges:
`guest_range_hits_rx` or `runtime_ro`. -/
structure GuestArch where
  isArm64 : Bool
  readOnly : Nat → Bool

section Callbacks

variable {V : Type} [DecidableEq V]

/-- `ArmCallbacks::write_exclusive`: store if memory still holds the expected value. -/
def writeExclusiveA32 (mem : Nat → V) (addr : Nat) (value expected : V) : Bool × (Nat → V) :=
  if mem addr = expected then (true, Function.update mem addr value) else (false, mem)

/-- `Arm64Callbacks::MemoryWriteExclusive*`: the expected value is ignored, and a store to a
read-only range is reported as done. -/
def writeExclusiveA64 (readOnly : Nat → Bool) (mem : Nat → V) (addr : Nat) (value : V)
    (_expected : V) : Bool × (Nat → V) :=
  if readOnly addr then (true, mem) else (true, Function.update mem addr value)

/-- The callback of the guest that is running. -/
def writeExclusive (g : GuestArch) (mem : Nat → V) (addr : Nat) (value expected : V) :
    Bool × (Nat → V) :=
  if g.isArm64 then writeExclusiveA64 g.readOnly mem addr value expected
  else writeExclusiveA32 mem addr value expected

/-- A plain store goes through unless it is to a read-only range on A64. -/
def GuestArch.stores (g : GuestArch) (addr : Nat) : Bool := !(g.isArm64 && g.readOnly addr)

end Callbacks

/-! ## The machine -/

/-- A guest context: its JIT and its thread. `pthread_kill` lets a callback run for a thread other
than the interrupted one. -/
structure GuestContext where
  jit : GuestJit
  tid : Nat
  deriving DecidableEq

/-- What the guest did to memory, as far as the exclusive accesses are concerned. -/
inductive Access (V : Type) where
  | loaded (ctx : GuestContext) (addr : Nat) (value : V)
  | stored (ctx : GuestContext) (addr : Nat)
  | exclusive (ctx : GuestContext) (addr : Nat) (value : V) (ok : Bool)

/-- One memory instruction: `LDREX`/`LDXR`, `STREX`/`STXR`, a plain store, `CLREX`. -/
inductive MemInsn (V : Type) where
  | ldrex (addr : Nat)
  | strex (addr : Nat) (value : V)
  | store (addr : Nat) (value : V)
  | clrex

/-- What happens next: an instruction of the innermost context, a slice for a guest thread,
a nested callback, or the return from either. -/
inductive ExclusiveOp (V : Type) where
  | insn (i : MemInsn V)
  | beginSlice (tid : Nat)
  | enterCb (tid : Nat)
  | leave

/-- Memory, the monitor, the flags of the JITs, the contexts that are running, innermost
first, and what has been done so far, newest first. -/
structure ExclusiveRun (V : Type) where
  mem : Nat → V
  monitor : ExclusiveMonitor V
  exclusiveState : GuestJit → Bool
  running : GuestContext
  suspended : List GuestContext
  log : List (Access V)

namespace ExclusiveRun

variable {V : Type}

/-- The main thread is running and nothing has been loaded exclusively. -/
def initial (mem values : Nat → V) : ExclusiveRun V where
  mem := mem
  monitor := ⟨fun _ => none, values⟩
  exclusiveState := fun _ => false
  running := ⟨.main, 0⟩
  suspended := []
  log := []

/-- The contexts, innermost first. -/
def contexts (s : ExclusiveRun V) : List GuestContext := s.running :: s.suspended

/-- The JIT of the next callback, unless `CB_MAX_DEPTH` of them are running. -/
def nextCb (s : ExclusiveRun V) : Option GuestJit :=
  if s.contexts.any (·.jit == .cbNest) then none
  else if s.contexts.any (·.jit == .cb) then some .cbNest
  else some .cb

/-- Start a context inside the running one. -/
def push (s : ExclusiveRun V) (c : GuestContext) : ExclusiveRun V :=
  { s with running := c, suspended := s.contexts }

/-- Reset the flag of a JIT if the guest is A64. -/
def clearOnA64 (g : GuestArch) (s : ExclusiveRun V) (jit : GuestJit) : ExclusiveRun V :=
  if g.isArm64 then { s with exclusiveState := Function.update s.exclusiveState jit false } else s

/-- The mark of a JIT. -/
def mark (g : GuestArch) (s : ExclusiveRun V) (jit : GuestJit) : Option Nat :=
  s.monitor.addresses (jit.processorId g.isArm64)

/-- The value a JIT read where it put its mark. -/
def marked (g : GuestArch) (s : ExclusiveRun V) (jit : GuestJit) : V :=
  s.monitor.values (jit.processorId g.isArm64)

variable [DecidableEq V]

/-- `ExclusiveWriteMemory` as the JIT emits it. -/
def strex (g : GuestArch) (s : ExclusiveRun V) (addr : Nat) (value : V) : ExclusiveRun V :=
  let c := s.running
  let failed := { s with
    exclusiveState := Function.update s.exclusiveState c.jit false
    log := .exclusive c addr value false :: s.log }
  if s.exclusiveState c.jit = true ∧ s.mark g c.jit = some addr then
    let (ok, mem) := writeExclusive g s.mem addr value (s.marked g c.jit)
    { failed with
      mem := mem
      monitor := s.monitor.clear addr
      log := .exclusive c addr value ok :: s.log }
  else failed

/-- One instruction of the running context. -/
def insn (g : GuestArch) (s : ExclusiveRun V) : MemInsn V → ExclusiveRun V
  | .ldrex addr =>
    { s with
      monitor := s.monitor.readAndMark (s.running.jit.processorId g.isArm64) addr (s.mem addr)
      exclusiveState := Function.update s.exclusiveState s.running.jit true
      log := .loaded s.running addr (s.mem addr) :: s.log }
  | .strex addr value => s.strex g addr value
  | .store addr value =>
    if g.stores addr then
      { s with mem := Function.update s.mem addr value, log := .stored s.running addr :: s.log }
    else s
  | .clrex => { s with exclusiveState := Function.update s.exclusiveState s.running.jit false }

/-- One event. A slice or callback the code refuses is not started, and the return to a context ends
its supervisor call, which on A64 resets its flag. -/
def step (g : GuestArch) (s : ExclusiveRun V) : ExclusiveOp V → ExclusiveRun V
  | .insn i => s.insn g i
  | .beginSlice tid => if s.contexts.any (·.jit == .aux) then s else s.push ⟨.aux, tid⟩
  | .enterCb tid =>
    match s.nextCb with
    | some jit => (s.push ⟨jit, tid⟩).clearOnA64 g jit
    | none => s
  | .leave =>
    match s.suspended with
    | c :: rest => { s with running := c, suspended := rest }.clearOnA64 g c.jit
    | [] => s

end ExclusiveRun

/-! ## No lost update -/

namespace Access

variable {V : Type}

/-- An exclusive load of `addr` for the thread `tid`. -/
def LoadedBy (tid addr : Nat) : Access V → Prop
  | .loaded c a _ => c.tid = tid ∧ a = addr
  | _ => False

/-- Not a store to `addr` for a thread other than `tid`. -/
def SparedBy (tid addr : Nat) : Access V → Prop
  | .loaded _ _ _ => True
  | .stored c a => c.tid = tid ∨ a ≠ addr
  | .exclusive c a _ ok => c.tid = tid ∨ a ≠ addr ∨ ok = false

/-- The thread of a successful exclusive store had loaded the address exclusively, and no other
thread has stored to it since. -/
def Justified : Access V → List (Access V) → Prop
  | .exclusive c addr _ true, past => Since (SparedBy c.tid addr) (LoadedBy c.tid addr) past
  | _, _ => True

/-- A retry loop on `addr` that got through. -/
def completes (addr : Nat) : Access V → Bool
  | .exclusive _ a _ ok => a == addr && ok
  | _ => false

instance loadedByDecidable (tid addr : Nat) : DecidablePred (LoadedBy (V := V) tid addr)
  | .loaded _ _ _ => inferInstanceAs (Decidable (_ ∧ _))
  | .stored _ _ | .exclusive _ _ _ _ => isFalse id

instance sparedByDecidable (tid addr : Nat) : DecidablePred (SparedBy (V := V) tid addr)
  | .loaded _ _ _ => isTrue trivial
  | .stored _ _ => inferInstanceAs (Decidable (_ ∨ _))
  | .exclusive _ _ _ _ => inferInstanceAs (Decidable (_ ∨ _ ∨ _))

instance justifiedDecidable (a : Access V) (past : List (Access V)) :
    Decidable (a.Justified past) :=
  match a with
  | .exclusive _ _ _ true => inferInstanceAs (Decidable (Since _ _ past))
  | .exclusive _ _ _ false | .loaded _ _ _ | .stored _ _ => isTrue trivial

end Access

/-- The newest exclusive load on a JIT: the thread, the address and the value. -/
def lastLoad {V : Type} (jit : GuestJit) : List (Access V) → Option (Nat × Nat × V)
  | [] => none
  | .loaded c addr value :: past =>
    if c.jit = jit then some (c.tid, addr, value) else lastLoad jit past
  | _ :: past => lastLoad jit past

/-- The value the context loaded from `addr` in its retry loop's present turn: none once it has
tried to store. -/
def openLoad {V : Type} (c : GuestContext) (addr : Nat) : List (Access V) → Option V
  | [] => none
  | .loaded c' a value :: past => if c' = c ∧ a = addr then some value else openLoad c addr past
  | .exclusive c' a _ _ :: past => if c' = c ∧ a = addr then none else openLoad c addr past
  | .stored _ _ :: past => openLoad c addr past

namespace ExclusiveRun

variable {V : Type}

/-- The newest exclusive load on the JIT was for the running thread. -/
def OwnMark (s : ExclusiveRun V) (jit : GuestJit) : Prop :=
  ∀ load ∈ lastLoad jit s.log, load.1 = s.running.tid

/-- The condition on the schedule. A thread that stores exclusively to the address its JIT has
marked made the mark, and can write there. A plain store to a marked address is the marking thread's
on A64, and on A32 does not leave the marked value. -/
def Orderly (g : GuestArch) (s : ExclusiveRun V) : ExclusiveOp V → Prop
  | .insn (.strex addr _) =>
    s.mark g s.running.jit = some addr → s.OwnMark s.running.jit ∧ g.stores addr = true
  | .insn (.store addr value) =>
    ∀ jit, s.mark g jit = some addr →
      if g.isArm64 then s.OwnMark jit else value ≠ s.marked g jit
  | _ => True

/-- Every access to `addr` that may store is the `STREX` of a loop that adds one. -/
def Increments [Add V] [One V] (addr : Nat) (s : ExclusiveRun V) : ExclusiveOp V → Prop
  | .insn (.strex a value) => a = addr → ∃ v ∈ openLoad s.running addr s.log, value = v + 1
  | .insn (.store a _) => a ≠ addr
  | _ => True

/-- How many retry loops on `addr` have completed. -/
def completed (s : ExclusiveRun V) (addr : Nat) : Nat := s.log.countP (Access.completes addr)

variable [DecidableEq V]

instance orderlyDecidable (g : GuestArch) (s : ExclusiveRun V) : ∀ op, Decidable (s.Orderly g op)
  | .insn (.strex _ _) => inferInstanceAs (Decidable (_ → (∀ load ∈ _, _) ∧ _))
  | .insn (.store _ _) =>
    have : ∀ jit, Decidable (s.OwnMark jit) :=
      fun jit => inferInstanceAs (Decidable (∀ load ∈ lastLoad jit s.log, _))
    inferInstanceAs (Decidable (∀ jit, s.mark g jit = _ →
      if g.isArm64 then s.OwnMark jit else _ ≠ s.marked g jit))
  | .insn (.ldrex _) | .insn .clrex | .beginSlice _ | .enterCb _ | .leave => isTrue trivial

instance incrementsDecidable [Add V] [One V] (addr : Nat) (s : ExclusiveRun V) :
    ∀ op, Decidable (s.Increments addr op)
  | .insn (.strex _ _) => inferInstanceAs (Decidable (_ → ∃ v ∈ _, _))
  | .insn (.store _ _) => inferInstanceAs (Decidable (_ ≠ _))
  | .insn (.ldrex _) | .insn .clrex | .beginSlice _ | .enterCb _ | .leave => isTrue trivial

end ExclusiveRun

end Lunaria
