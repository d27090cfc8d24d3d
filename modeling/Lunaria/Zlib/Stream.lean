/-
# The zlib passthrough and zlib itself

A guest calls the host's zlib through SVC handlers. The handlers keep a host
`z_stream` per guest structure, keyed by its address, copy the four fields that a
call reads out of guest memory and the seven that it sets back into it. Beside
them stands zlib as the guest would run it: the same library, working on the
guest's own structure where its ABI puts the fields.

zlib is not part of the repository. It appears as a library of stream functions
that read their input, their room and their own state and nothing else.
-/

import Lunaria.Layout
import Lunaria.Lib.ByteMemory
import Lunaria.Lib.Run

namespace Lunaria.ZStream

open Lib

/-! ## The library -/

/-- The two families of calls. -/
inductive Codec
  | inflate
  | deflate
  deriving DecidableEq, Repr

/-- Arguments of `deflateInit2`; `inflateInit2` has the window bits only. -/
structure InitArgs where
  level : Int
  method : Int
  wbits : Int
  memLevel : Int
  strategy : Int
  deriving DecidableEq, Repr

/-- What one `inflate` or `deflate` does. `adler` is absent when the call leaves
the checksum field as it is. -/
structure Outcome (S : Type) where
  rc : Int
  consumed : Nat
  output : List UInt8
  adler : Option Nat
  state : S

/-- zlib, as its manual has it. Opening or resetting clears the totals and may set the checksum
field. A call takes the flush mode, input and room, with a flag for either null pointer. -/
structure Library where
  State : Type
  init : Codec → InitArgs → Int × Option (State × Option Nat)
  /-- A failed initialisation leaves the structure without a stream. -/
  dropsOnFailure : Codec → Bool
  run : Codec → State → Int → Bool → List UInt8 → Bool → Nat → Outcome State
  reset : Codec → State → Int × State × Option Nat
  close : Codec → State → Int
  consumed_le : ∀ k st flush nullIn input nullOut room,
    (run k st flush nullIn input nullOut room).consumed ≤ input.length
  output_le : ∀ k st flush nullIn input nullOut room,
    (run k st flush nullIn input nullOut room).output.length ≤ room

/-- `Z_STREAM_ERROR`. -/
def streamError : Int := -2

/-- Set or clear one entry of a map. -/
def setAt {α : Type} (f : Nat → Option α) (z : Nat) (v : Option α) : Nat → Option α :=
  fun z' => if z' = z then v else f z'

/-! ## zlib on the guest's own structure -/

/-- Where an ABI puts the fields of a `z_stream`, how wide its pointers and longs
are, and which arena byte a pointer names. -/
structure Abi where
  word : Nat
  nextIn : Nat
  availIn : Nat
  totalIn : Nat
  nextOut : Nat
  availOut : Nat
  totalOut : Nat
  adler : Nat
  place : Nat → Nat

def a32 : Abi := ⟨4, 0, 4, 8, 12, 16, 20, 48, id⟩

def lp64 (place : Nat → Nat) : Abi := ⟨8, 0, 8, 16, 24, 32, 40, 96, place⟩

/-- The state of a guest that has zlib to itself; `log` collects return codes. -/
structure Direct (Z : Library) where
  mem : ByteMemory
  streams : Nat → Option (Codec × Z.State)
  log : List Int

namespace Direct

variable {Z : Library} (abi : Abi) (d : Direct Z)

variable (k : Codec) (m : ByteMemory) (z : Nat)

def setAdler : Option Nat → ByteMemory
  | none => m
  | some a => m.writeLE (z + abi.adler) abi.word a

/-- The fields of a stream that starts over. -/
def fresh (adler : Option Nat) : ByteMemory :=
  setAdler abi ((m.writeLE (z + abi.totalIn) abi.word 0).writeLE (z + abi.totalOut) abi.word 0) z
    adler

def answer (rc : Int) : Direct Z := { d with log := d.log ++ [rc] }

/-- The check in front of every call on a stream: the structure has one, and it is
of the call's family. -/
def onStream (f : Z.State → Direct Z) : Direct Z :=
  match d.streams z with
  | some (k', st) => if k' = k then f st else d.answer streamError
  | none => d.answer streamError

/-- `inflateInit2`, `deflateInit2`. -/
def init (args : InitArgs) : Direct Z :=
  match Z.init k args with
  | (rc, some (st, adler)) =>
    ⟨fresh abi d.mem z adler, setAt d.streams z (some (k, st)), d.log ++ [rc]⟩
  | (rc, none) =>
    { d with
      streams := if Z.dropsOnFailure k then setAt d.streams z none else d.streams
      log := d.log ++ [rc] }

/-- The fields and the output of one call, in memory. -/
def progress (r : Outcome Z.State) : ByteMemory :=
  let nextIn := m.readLE (z + abi.nextIn) abi.word
  let availIn := m.readLE (z + abi.availIn) 4
  let totalIn := m.readLE (z + abi.totalIn) abi.word
  let nextOut := m.readLE (z + abi.nextOut) abi.word
  let availOut := m.readLE (z + abi.availOut) 4
  let totalOut := m.readLE (z + abi.totalOut) abi.word
  let m := m.writeBytes (abi.place nextOut) r.output
  let m := m.writeLE (z + abi.nextIn) abi.word (nextIn + r.consumed)
  let m := m.writeLE (z + abi.availIn) 4 (availIn - r.consumed)
  let m := m.writeLE (z + abi.totalIn) abi.word (totalIn + r.consumed)
  let m := m.writeLE (z + abi.nextOut) abi.word (nextOut + r.output.length)
  let m := m.writeLE (z + abi.availOut) 4 (availOut - r.output.length)
  let m := m.writeLE (z + abi.totalOut) abi.word (totalOut + r.output.length)
  setAdler abi m z r.adler

/-- What the library makes of the fields. -/
def outcome (k : Codec) (z : Nat) (st : Z.State) (flush : Int) : Outcome Z.State :=
  let nextIn := m.readLE (z + abi.nextIn) abi.word
  let availIn := m.readLE (z + abi.availIn) 4
  let nextOut := m.readLE (z + abi.nextOut) abi.word
  let availOut := m.readLE (z + abi.availOut) 4
  Z.run k st flush (nextIn == 0)
    (if nextIn = 0 then [] else m.bytesAt (abi.place nextIn) availIn) (nextOut == 0) availOut

/-- `inflate`, `deflate`. -/
def run (flush : Int) : Direct Z :=
  d.onStream k z fun st =>
    let r := outcome abi d.mem k z st flush
    ⟨progress abi d.mem z r, setAt d.streams z (some (k, r.state)), d.log ++ [r.rc]⟩

/-- `inflateReset`, `deflateReset`. -/
def reset : Direct Z :=
  d.onStream k z fun st =>
    let (rc, st, adler) := Z.reset k st
    ⟨fresh abi d.mem z adler, setAt d.streams z (some (k, st)), d.log ++ [rc]⟩

/-- `inflateEnd`, `deflateEnd`. -/
def close : Direct Z :=
  d.onStream k z fun st =>
    { d with streams := setAt d.streams z none, log := d.log ++ [Z.close k st] }

end Direct

/-! ## The handlers -/

/-- A host `z_stream` of `g_zstreams` or `g_dstreams`. -/
structure HostStream (S : Type) where
  state : S
  totalIn : Nat
  totalOut : Nat
  adler : Nat

/-- The state of the handlers: guest memory and the two maps. -/
structure Mirror (Z : Library) where
  mem : ByteMemory
  streams : Codec → Nat → Option (HostStream Z.State)
  log : List Int

namespace Mirror

variable {Z : Library} (m : Mirror Z)

/-- Set or clear the entry of one map. -/
def setStream (k : Codec) (z : Nat) (v : Option (HostStream Z.State)) :
    Codec → Nat → Option (HostStream Z.State) :=
  fun k' => if k' = k then setAt (m.streams k') z v else m.streams k'

def answer (rc : Int) : Mirror Z := { m with log := m.log ++ [rc] }

/-- The arguments of `SVC_Z_DEFLATEINIT2`: the last two are read from the stack, where an A64 caller
does not put them. -/
def seenArgs (arm64 : Bool) (k : Codec) (args : InitArgs) (stack : Int × Int) : InitArgs :=
  if arm64 ∧ k = .deflate then { args with memLevel := stack.1, strategy := stack.2 } else args

/-- `SVC_Z_INFLATEINIT2`, `SVC_Z_DEFLATEINIT2`. -/
def init (arm64 : Bool) (k : Codec) (z : Nat) (args : InitArgs) (stack : Int × Int) : Mirror Z :=
  match Z.init k (seenArgs arm64 k args stack) with
  | (rc, some (st, adler)) =>
    { m with
      streams := m.setStream k z (some ⟨st, 0, 0, adler.getD 0⟩)
      log := m.log ++ [rc] }
  | (rc, none) => m.answer rc

/-- The host stream after a call; its longs have 64 bits. -/
def advance (zs : HostStream Z.State) (r : Outcome Z.State) : HostStream Z.State :=
  ⟨r.state, (zs.totalIn + r.consumed) % 2 ^ 64, (zs.totalOut + r.output.length) % 2 ^ 64,
    r.adler.getD zs.adler⟩

/-- Guest memory after a call that left the host stream at `zs`: the output, and
seven fields at the A32 offsets. -/
def progress (mem : ByteMemory) (z : Nat) (zs : HostStream Z.State) (r : Outcome Z.State) :
    ByteMemory :=
  let nextIn := mem.read32 (u32 (z + 0))
  let availIn := mem.read32 (u32 (z + 4))
  let nextOut := mem.read32 (u32 (z + 12))
  let availOut := mem.read32 (u32 (z + 16))
  let mem := mem.writeBytes nextOut r.output
  let mem := mem.write32 (u32 (z + 0)) (u32 (nextIn + r.consumed))
  let mem := mem.write32 (u32 (z + 4)) (availIn - r.consumed)
  let mem := mem.write32 (u32 (z + 8)) (u32 zs.totalIn)
  let mem := mem.write32 (u32 (z + 12)) (u32 (nextOut + r.output.length))
  let mem := mem.write32 (u32 (z + 16)) (availOut - r.output.length)
  let mem := mem.write32 (u32 (z + 20)) (u32 zs.totalOut)
  mem.write32 (u32 (z + 48)) (u32 zs.adler)

/-- What the library makes of the fields the handler copied. -/
def outcome (mem : ByteMemory) (k : Codec) (z : Nat) (st : Z.State) (flush : Int) :
    Outcome Z.State :=
  let nextIn := mem.read32 (u32 (z + 0))
  let availIn := mem.read32 (u32 (z + 4))
  let nextOut := mem.read32 (u32 (z + 12))
  let availOut := mem.read32 (u32 (z + 16))
  Z.run k st flush (nextIn == 0) (if nextIn = 0 then [] else mem.bytesAt nextIn availIn)
    (nextOut == 0) availOut

/-- `SVC_Z_INFLATE`, `SVC_Z_DEFLATE`. -/
def run (k : Codec) (z : Nat) (flush : Int) : Mirror Z :=
  match m.streams k z with
  | none => m.answer streamError
  | some zs =>
    let r := outcome m.mem k z zs.state flush
    ⟨progress m.mem z (advance zs r) r, m.setStream k z (some (advance zs r)), m.log ++ [r.rc]⟩

/-- `SVC_Z_INFLATERESET`, `SVC_Z_DEFLATERESET`. -/
def reset (k : Codec) (z : Nat) : Mirror Z :=
  match m.streams k z with
  | none => m.answer streamError
  | some zs =>
    let (rc, st, adler) := Z.reset k zs.state
    { m with
      streams := m.setStream k z (some ⟨st, 0, 0, adler.getD zs.adler⟩)
      log := m.log ++ [rc] }

/-- `SVC_Z_INFLATEEND`, `SVC_Z_DEFLATEEND`. -/
def close (k : Codec) (z : Nat) : Mirror Z :=
  match m.streams k z with
  | none => m.answer streamError
  | some zs => { m with streams := m.setStream k z none, log := m.log ++ [Z.close k zs.state] }

end Mirror

end Lunaria.ZStream
