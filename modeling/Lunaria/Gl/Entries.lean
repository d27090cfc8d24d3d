/-
# Draw calls and vertex attributes

A guest call of a GL function traps into a handler that calls the host's function of the same
name. The handlers were written for the A32 convention: they take their arguments from `r0` to
`r3` and from the words at `[sp]`, on A64 too. This module has the handlers with an argument that
is a byte offset while a buffer is bound, and a pointer otherwise. The host is taken to have the
functions.
-/

import Lunaria.Lib.ByteMemory

namespace Lunaria.Gl

open Lib

/-- The buffer bindings under which a pointer is a byte offset instead. -/
inductive BufferTarget
  | array
  | elementArray
  deriving DecidableEq

/-- The types of parameters: integers and enumerations, `GLboolean`, and pointers into a bound
buffer. -/
inductive ParamType
  | word
  | byte
  | indexed (target : BufferTarget)
  deriving DecidableEq

/-- Where a handler finds an argument: in `regs[i]`, or in the word at `regs[13] + offset`. -/
inductive Slot
  | r (i : Nat)
  | sp (offset : Nat)
  deriving DecidableEq

/-- One argument of the host call. -/
structure Param where
  type : ParamType
  slot : Slot
  deriving DecidableEq

/-- The slots of the A32 convention: four core registers, then the stack, a word each. -/
def a32Slot (i : Nat) : Slot := if i < 4 then .r i else .sp (4 * (i - 4))

/-- A handler that takes its arguments as the A32 convention passes them. -/
def a32 (types : List ParamType) : List Param := types.mapIdx fun i type => ⟨type, a32Slot i⟩

inductive Entry
  | vertexAttribPointer
  | drawElements
  | drawElementsBaseVertex
  | drawElementsInstancedBaseVertex
  | drawArraysInstanced
  | drawElementsInstanced
  deriving DecidableEq

open ParamType

/-- The arguments of the handler's host call. -/
def Entry.params : Entry → List Param
  | .vertexAttribPointer => a32 [word, word, word, byte, word, indexed .array]
  | .drawElements => a32 [word, word, word, indexed .elementArray]
  | .drawElementsBaseVertex => a32 [word, word, word, indexed .elementArray, word]
  | .drawElementsInstancedBaseVertex => a32 [word, word, word, indexed .elementArray, word, word]
  -- one handler for both
  | .drawArraysInstanced | .drawElementsInstanced => a32 [word, word, word, word]

/-- The parameter types the guest's compiler sees. -/
def Entry.prototype : Entry → List ParamType
  | .drawElementsInstanced => [word, word, word, indexed .elementArray, word]
  | e => e.params.map Param.type

/-- What a handler reads: the array of registers, guest memory, and `g_gl_bound_array_buf` and
`g_gl_bound_elem_buf`. -/
structure SvcCall where
  regs : Nat → Nat
  mem : ByteMemory
  bound : BufferTarget → Nat

/-- An argument as the host function receives it. -/
inductive HostArg
  | word (n : Nat)
  | byte (n : Nat)
  | offset (n : Nat)
  | null
  | address (va : Nat)

variable (c : SvcCall)

/-- The word a handler finds in a slot. -/
def Slot.value : Slot → Nat
  | .r i => c.regs i
  | .sp offset => c.mem.read32 (c.regs 13 + offset)

/-- `ARM_CPTR`. -/
def armCptr (va : Nat) : HostArg := if va = 0 then .null else .address va

/-- The argument a handler makes of a word. -/
def handlerArg : ParamType → Nat → HostArg
  | .word, w => .word w
  | .byte, w => .byte (w % 256)
  | .indexed target, w => if c.bound target ≠ 0 then .offset w else armCptr w

/-- `dispatch_svc` for an entry point: the host function it calls and the arguments. -/
def hostCall (e : Entry) : Entry × List HostArg :=
  (if e = .drawElementsInstanced then .drawArraysInstanced else e,
    e.params.map fun p => handlerArg c p.type (p.slot.value c))

end Lunaria.Gl
