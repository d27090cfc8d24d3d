/-
# When the passthrough is zlib

The handlers and zlib on the guest's own structure are run side by side, over any
sequence of calls and of stores the guest makes in between. They agree on every
byte of guest memory and on every return code as long as no call depends on what
the handlers do not carry over: a field at its LP64 offset, or totals and a
checksum that a call other than `inflate` and `deflate` sets.
-/

import Lunaria.Zlib.Stream

namespace Lunaria.ZStream

open Lib Option ByteMemory

/-! ## Both at once -/

/-- What the guest does. `stack` is what an A64 caller happens to have in the two
words at its stack pointer. -/
inductive Event
  | init (k : Codec) (z : Nat) (args : InitArgs) (stack : Int × Int)
  | run (k : Codec) (z : Nat) (flush : Int)
  | reset (k : Codec) (z : Nat)
  | close (k : Codec) (z : Nat)
  | store (addr : Nat) (bytes : List UInt8)

/-- The handlers beside zlib. -/
structure Both (Z : Library) where
  mirror : Mirror Z
  direct : Direct Z

def abiOf (arm64 : Bool) (place : Nat → Nat) : Abi := if arm64 then lp64 place else a32

def step {Z : Library} (arm64 : Bool) (place : Nat → Nat) (b : Both Z) : Event → Both Z
  | .init k z args stack =>
    ⟨b.mirror.init arm64 k z args stack, b.direct.init (abiOf arm64 place) k z args⟩
  | .run k z flush => ⟨b.mirror.run k z flush, b.direct.run (abiOf arm64 place) k z flush⟩
  | .reset k z => ⟨b.mirror.reset k z, b.direct.reset (abiOf arm64 place) k z⟩
  | .close k z => ⟨b.mirror.close k z, b.direct.close k z⟩
  | .store addr bytes =>
    ⟨{ b.mirror with mem := b.mirror.mem.writeBytes addr bytes },
      { b.direct with mem := b.direct.mem.writeBytes addr bytes }⟩

/-- Both sides with the same memory and no stream. -/
def start (Z : Library) (mem : ByteMemory) : Both Z :=
  ⟨⟨mem, fun _ _ => none, []⟩, ⟨mem, fun _ => none, []⟩⟩

/-- **The guest cannot tell them apart**: every byte of memory, and with it every
field and all output, and every return code so far. -/
def Both.Same {Z : Library} (b : Both Z) : Prop :=
  b.mirror.mem = b.direct.mem ∧ b.mirror.log = b.direct.log

/-! ## The condition -/

/-- A range of bytes is clear of the totals and the checksum of the structure. -/
def Spares (z addr len : Nat) : Prop :=
  (z + 12 ≤ addr ∨ addr + len ≤ z + 8) ∧ (z + 24 ≤ addr ∨ addr + len ≤ z + 20) ∧
    (z + 52 ≤ addr ∨ addr + len ≤ z + 48)

def Clear (z z' : Nat) : Prop := z + 56 ≤ z' ∨ z' + 56 ≤ z

/-- Starting over would not change the fields: the totals are zero, and the
checksum is what it would be set to. -/
def Silent (abi : Abi) (mem : ByteMemory) (z : Nat) (adler : Option Nat) : Prop :=
  mem.readLE (z + abi.totalIn) abi.word = 0 ∧ mem.readLE (z + abi.totalOut) abi.word = 0 ∧
    ∀ a, adler = some a → mem.readLE (z + abi.adler) abi.word = a

def Mirror.Live {Z : Library} (m : Mirror Z) (z : Nat) : Prop := ∃ k, (m.streams k z).isSome

/-- What an event must not rely on, in the state before it. -/
def Carried {Z : Library} (arm64 : Bool) (place : Nat → Nat) (b : Both Z) : Event → Prop
  | .init k z args stack =>
    (arm64 = true → k = .deflate → stack = (args.memLevel, args.strategy)) ∧
    (∀ k', k' ≠ k → b.mirror.streams k' z = none) ∧
    match (Z.init k args).2 with
    | some (_, adler) =>
      Silent (abiOf arm64 place) b.mirror.mem z (some (adler.getD 0)) ∧ z + 56 ≤ 2 ^ 32 ∧
        ∀ z', b.mirror.Live z' → z' ≠ z → Clear z z'
    | none => Z.dropsOnFailure k = true → b.mirror.streams k z = none
  | .run k z _ =>
    (b.mirror.streams k z).isSome → arm64 = false ∧
      ∀ z', b.mirror.Live z' →
        Spares z' (b.mirror.mem.readLE (z + 12) 4) (b.mirror.mem.readLE (z + 16) 4)
  | .reset k z =>
    ∀ zs, b.mirror.streams k z = some zs →
      Silent (abiOf arm64 place) b.mirror.mem z (Z.reset k zs.state).2.2
  | .close _ _ => True
  | .store addr bytes => arm64 = false → ∀ z', b.mirror.Live z' → Spares z' addr bytes.length

/-! ## The invariant -/

/-- The guest's fields say what the host stream says. -/
structure Synced {S : Type} (mem : ByteMemory) (z : Nat) (zs : HostStream S) : Prop where
  totalIn : mem.readLE (z + 8) 4 = u32 zs.totalIn
  totalOut : mem.readLE (z + 20) 4 = u32 zs.totalOut
  adler : mem.readLE (z + 48) 4 = u32 zs.adler

/-- Both sides have the same streams and the same memory; on A32 every structure
is in step with its host stream, and no two overlap. -/
structure InStep {Z : Library} (arm64 : Bool) (b : Both Z) : Prop where
  mem : b.mirror.mem = b.direct.mem
  log : b.mirror.log = b.direct.log
  streams : ∀ k z st, b.direct.streams z = some (k, st) ↔
    ∃ zs, b.mirror.streams k z = some zs ∧ zs.state = st
  fits : ∀ z, b.mirror.Live z → z + 56 ≤ 2 ^ 32
  synced : arm64 = false → ∀ k z zs, b.mirror.streams k z = some zs → Synced b.mirror.mem z zs
  clear : ∀ z z', b.mirror.Live z → b.mirror.Live z' → z' ≠ z → Clear z z'

/-! ## Memory -/

section Memory

variable {mem : ByteMemory} {z : Nat}

variable {addr z' : Nat}

theorem Synced.writeBytes {S : Type} {zs : HostStream S} (h : Synced mem z zs)
    {bytes : List UInt8} (hspares : Spares z addr bytes.length) :
    Synced (mem.writeBytes addr bytes) z zs := by
  obtain ⟨hin, hout, hadler⟩ := hspares
  refine ⟨?_, ?_, ?_⟩
  · rw [readLE_writeBytes_of_disjoint _ (by omega), h.totalIn]
  · rw [readLE_writeBytes_of_disjoint _ (by omega), h.totalOut]
  · rw [readLE_writeBytes_of_disjoint _ (by omega), h.adler]

theorem writeLE_of_readLE {width v : Nat} (h : mem.readLE addr width = v) :
    mem.writeLE addr width v = mem := by
  rw [← h, writeLE_readLE]

theorem fresh_of_silent {abi : Abi} {adler : Option Nat} (h : Silent abi mem z adler) :
    Direct.fresh abi mem z adler = mem := by
  rw [Direct.fresh, writeLE_of_readLE h.1, writeLE_of_readLE h.2.1]
  cases adler with
  | none => rfl
  | some a => exact writeLE_of_readLE (h.2.2 a rfl)

theorem Silent.of_getD {abi : Abi} {adler : Option Nat}
    (h : Silent abi mem z (some (adler.getD 0))) : Silent abi mem z adler := by
  refine ⟨h.1, h.2.1, fun a ha => ?_⟩
  rw [ha] at h
  exact h.2.2 a rfl

variable {Z : Library}

variable (zs : HostStream Z.State) (r : Outcome Z.State)

section

variable (hfit : z + 56 ≤ 2 ^ 32)
include hfit

theorem progress_of_fits : Mirror.progress mem z zs r =
      (mem.writeBytes (mem.readLE (z + 12) 4) r.output
        |>.writeLE (z + 0) 4 (u32 (mem.readLE (z + 0) 4 + r.consumed))
        |>.writeLE (z + 4) 4 (mem.readLE (z + 4) 4 - r.consumed)
        |>.writeLE (z + 8) 4 (u32 zs.totalIn)
        |>.writeLE (z + 12) 4 (u32 (mem.readLE (z + 12) 4 + r.output.length))
        |>.writeLE (z + 16) 4 (mem.readLE (z + 16) 4 - r.output.length)
        |>.writeLE (z + 20) 4 (u32 zs.totalOut)
        |>.writeLE (z + 48) 4 (u32 zs.adler)) := by
  have haddr (off : Nat) (hoff : off < 56) : u32 (z + off) = z + off := u32_of_lt (by omega)
  rw [Mirror.progress, haddr 0 (by decide), haddr 4 (by decide), haddr 8 (by decide),
    haddr 12 (by decide), haddr 16 (by decide), haddr 20 (by decide), haddr 48 (by decide)]
  rfl

/-- The A32 offsets of both sides are the same, and so are the values: what the
host counts is what the guest's field counts. -/
theorem progress_eq {zs : HostStream Z.State} {r : Outcome Z.State} (h : Synced mem z zs)
    (hspares : Spares z (mem.readLE (z + 12) 4) r.output.length) :
    Mirror.progress mem z (Mirror.advance zs r) r = Direct.progress a32 mem z r := by
  have hmod (v : Nat) : u32 v % 256 ^ 4 = v % 256 ^ 4 := Nat.mod_mod ..
  have htotalIn : u32 (Mirror.advance zs r).totalIn % 256 ^ 4 =
      (mem.readLE (z + 8) 4 + r.consumed) % 256 ^ 4 := by
    rw [h.totalIn]
    simp only [Mirror.advance, u32]
    omega
  have htotalOut : u32 (Mirror.advance zs r).totalOut % 256 ^ 4 =
      (mem.readLE (z + 20) 4 + r.output.length) % 256 ^ 4 := by
    rw [h.totalOut]
    simp only [Mirror.advance, u32]
    omega
  rw [progress_of_fits _ _ hfit]
  simp only [Direct.progress]
  rw [writeLE_congr _ _ (hmod (mem.readLE _ 4 + r.consumed)), writeLE_congr _ _ htotalIn,
    writeLE_congr _ _ (hmod (mem.readLE _ 4 + r.output.length)),
    writeLE_congr _ _ htotalOut]
  cases hadler : r.adler with
  | some a =>
    simp only [Mirror.advance, hadler]
    exact writeLE_congr _ _ (hmod a)
  | none =>
    -- The handler writes the checksum that is there already.
    simp only [Mirror.advance, hadler, getD_none]
    apply writeLE_of_readLE
    obtain ⟨-, -, hspare⟩ := hspares
    simp (disch := omega) only [readLE_writeLE_of_disjoint, readLE_writeBytes_of_disjoint, h.adler]

theorem outcome_eq {k : Codec} {st : Z.State} {flush : Int} :
    Mirror.outcome mem k z st flush = Direct.outcome a32 mem k z st flush := by
  have haddr (off : Nat) (hoff : off < 56) : u32 (z + off) = z + off := u32_of_lt (by omega)
  rw [Mirror.outcome, haddr 0 (by decide), haddr 4 (by decide), haddr 12 (by decide),
    haddr 16 (by decide)]
  rfl

theorem progress_synced : Synced (Mirror.progress mem z zs r) z zs := by
  have hmod (v : Nat) : u32 v % 256 ^ 4 = u32 v := Nat.mod_eq_of_lt (u32_lt v)
  rw [progress_of_fits zs r hfit]
  refine ⟨?_, ?_, ?_⟩
  all_goals simp (disch := omega) only [readLE_writeLE, readLE_writeLE_of_disjoint, hmod]

theorem progress_elsewhere {q : Nat} (hq : q + 4 ≤ z ∨ z + 56 ≤ q)
    (hout : q + 4 ≤ mem.readLE (z + 12) 4 ∨ mem.readLE (z + 12) 4 + r.output.length ≤ q) :
    (Mirror.progress mem z zs r).readLE q 4 = mem.readLE q 4 := by
  rw [progress_of_fits zs r hfit]
  simp (disch := omega) only [readLE_writeLE_of_disjoint, readLE_writeBytes_of_disjoint]

end

theorem Synced.progress {S : Type} {zs' : HostStream S}
    (h : Synced mem z' zs') (zs : HostStream Z.State) (r : Outcome Z.State)
    (hfit : z + 56 ≤ 2 ^ 32) (hclear : Clear z z')
    (hspares : Spares z' (mem.readLE (z + 12) 4) r.output.length) :
    Synced (Mirror.progress mem z zs r) z' zs' := by
  obtain ⟨hin, hout, hadler⟩ := hspares
  rw [Clear] at hclear
  refine ⟨?_, ?_, ?_⟩
  · rw [progress_elsewhere zs r hfit (by omega) (by omega), h.totalIn]
  · rw [progress_elsewhere zs r hfit (by omega) (by omega), h.totalOut]
  · rw [progress_elsewhere zs r hfit (by omega) (by omega), h.adler]

end Memory

/-! ## Streams -/

section Streams

variable {Z : Library} {b : Both Z} {arm64 : Bool} {k : Codec} {z : Nat}

variable (m : Mirror Z) (v : Option (HostStream Z.State))

@[simp]
theorem setStream_self : m.setStream k z v k z = v := by
  simp [Mirror.setStream, setAt]

theorem setStream_of_ne {k' : Codec}
    (h : z' ≠ z ∨ k' ≠ k) : m.setStream k z v k' z' = m.streams k' z' := by
  rw [Mirror.setStream]
  split
  · rename_i hk
    rw [setAt, if_neg (h.resolve_right fun hne => hne hk)]
  · rfl

variable {zs : HostStream Z.State}

section

variable (h : InStep arm64 b)
include h

theorem InStep.others_none (hlive : b.mirror.streams k z = some zs) (k' : Codec) (hk : k' ≠ k) :
    b.mirror.streams k' z = none := by
  cases hother : b.mirror.streams k' z with
  | none => rfl
  | some zs' =>
    have hfirst := (h.streams k z zs.state).mpr ⟨zs, hlive, rfl⟩
    have hsecond := (h.streams k' z zs'.state).mpr ⟨zs', hother, rfl⟩
    rw [hfirst] at hsecond
    exact absurd (congrArg Prod.fst (some.inj hsecond)).symm hk

theorem InStep.streams_set (hothers : ∀ k', k' ≠ k → b.mirror.streams k' z = none)
    (v : Option (HostStream Z.State)) (k' : Codec) (z' : Nat) (st : Z.State) :
    setAt b.direct.streams z (v.map fun zs => (k, zs.state)) z' = some (k', st) ↔
      ∃ zs', b.mirror.setStream k z v k' z' = some zs' ∧ zs'.state = st := by
  by_cases hz : z' = z
  · subst hz
    rw [setAt]
    by_cases hk : k' = k
    · subst hk
      simp
    · rw [setStream_of_ne _ _ (.inr hk), hothers k' hk]
      simp [Ne.symm hk]
  · rw [setAt, if_neg hz, setStream_of_ne _ _ (.inl hz), h.streams]

theorem InStep.onStream_some (hlive : b.mirror.streams k z = some zs) (f : Z.State → Direct Z) :
    b.direct.onStream k z f = f zs.state := by
  rw [Direct.onStream, (h.streams k z zs.state).mpr ⟨zs, hlive, rfl⟩]
  exact if_pos rfl

theorem InStep.onStream_none (hdead : b.mirror.streams k z = none)
    (f : Z.State → Direct Z) : b.direct.onStream k z f = b.direct.answer streamError := by
  rw [Direct.onStream]
  cases hdirect : b.direct.streams z with
  | none => rfl
  | some found =>
    refine if_neg ?_
    rintro rfl
    obtain ⟨zs, hlive, -⟩ := (h.streams found.1 z found.2).mp hdirect
    rw [hdead] at hlive
    cases hlive

end

theorem live_set {v : Option (HostStream Z.State)} {mem : ByteMemory}
    {log : List Int} (h : Mirror.Live ⟨mem, m.setStream k z v, log⟩ z') : z' = z ∨ m.Live z' := by
  by_cases hz : z' = z
  · exact .inl hz
  · obtain ⟨k', hk'⟩ := h
    simp only [setStream_of_ne m v (.inl hz)] at hk'
    exact .inr ⟨k', hk'⟩

theorem InStep.answer (h : InStep arm64 b) (rc : Int) :
    InStep arm64 ⟨b.mirror.answer rc, b.direct.answer rc⟩ :=
  { h with log := congrArg (· ++ [rc]) h.log }

theorem InStep.replace (h : InStep arm64 b)
    (hothers : ∀ k', k' ≠ k → b.mirror.streams k' z = none) (zs : HostStream Z.State)
    {mem : ByteMemory} (rc : Int) (hfit : z + 56 ≤ 2 ^ 32)
    (hclear : ∀ z', b.mirror.Live z' → z' ≠ z → Clear z z')
    (hself : arm64 = false → Synced mem z zs)
    (hrest : arm64 = false → ∀ k' z' zs', z' ≠ z → b.mirror.streams k' z' = some zs' →
      Synced mem z' zs') :
    InStep arm64 ⟨⟨mem, b.mirror.setStream k z (some zs), b.mirror.log ++ [rc]⟩,
      ⟨mem, setAt b.direct.streams z (some (k, zs.state)), b.direct.log ++ [rc]⟩⟩ where
  mem := rfl
  log := congrArg (· ++ [rc]) h.log
  streams := h.streams_set hothers (some zs)
  fits z' hlive := by
    rcases live_set _ hlive with rfl | hold
    · exact hfit
    · exact h.fits z' hold
  synced harm k' z' zs' hlive := by
    by_cases hz : z' = z
    · subst hz
      by_cases hk : k' = k
      · subst hk
        have heq : some zs = some zs' := (setStream_self b.mirror _).symm.trans hlive
        exact some.inj heq ▸ hself harm
      · simp only [setStream_of_ne _ _ (.inr hk), hothers k' hk] at hlive
        cases hlive
    · simp only [setStream_of_ne _ _ (.inl hz)] at hlive
      exact hrest harm k' z' zs' hz hlive
  clear z₁ z₂ h₁ h₂ hne := by
    rcases live_set _ h₁ with rfl | hold₁ <;> rcases live_set _ h₂ with rfl | hold₂
    · exact absurd rfl hne
    · exact hclear z₂ hold₂ hne
    · exact (hclear z₁ hold₁ hne.symm).symm
    · exact h.clear z₁ z₂ hold₁ hold₂ hne

/-! ## One event -/

theorem live_of_some {m : Mirror Z} (h : m.streams k z = some zs) : m.Live z := ⟨k, by rw [h]; rfl⟩

variable {place : Nat → Nat}

section

variable (h : InStep arm64 b)
include h

theorem InStep.run {flush : Int} (hcond : Carried arm64 place b (.run k z flush)) :
    InStep arm64 (step arm64 place b (.run k z flush)) := by
  simp only [step, Mirror.run]
  cases hlive : b.mirror.streams k z with
  | none =>
    rw [Direct.run, h.onStream_none hlive]
    exact h.answer streamError
  | some zs =>
    obtain ⟨rfl, hspares⟩ := hcond (by rw [hlive]; rfl)
    have hfit := h.fits z (live_of_some hlive)
    have hsynced := h.synced rfl
    simp only [Direct.run, h.onStream_some hlive, abiOf, Bool.false_eq_true, if_false, ← h.mem,
      ← outcome_eq hfit]
    generalize hr : Mirror.outcome b.mirror.mem k z zs.state flush = r
    have hroom : r.output.length ≤ b.mirror.mem.readLE (z + 16) 4 := by
      rw [← hr, outcome_eq hfit]
      exact Z.output_le ..
    have hspare (z' : Nat) (hz' : b.mirror.Live z') :
        Spares z' (b.mirror.mem.readLE (z + 12) 4) r.output.length := by
      have hall := hspares z' hz'
      simp only [Spares] at hall ⊢
      omega
    have hmem := progress_eq hfit (hsynced k z zs hlive) (hspare z (live_of_some hlive))
    rw [← hmem]
    refine h.replace (h.others_none hlive) _ r.rc hfit ?_ ?_ ?_
    · exact fun z' hz' hne => h.clear z z' (live_of_some hlive) hz' hne
    · exact fun _ => progress_synced _ r hfit
    · intro _ k' z' zs' hne hz'
      exact (hsynced k' z' zs' hz').progress _ r hfit
        (h.clear z z' (live_of_some hlive) (live_of_some hz') hne)
        (hspare z' (live_of_some hz'))

theorem InStep.init {args : InitArgs}
    {stack : Int × Int} (hcond : Carried arm64 place b (.init k z args stack)) :
    InStep arm64 (step arm64 place b (.init k z args stack)) := by
  obtain ⟨hstack, hothers, hopened⟩ := hcond
  have hargs : Mirror.seenArgs arm64 k args stack = args := by
    rw [Mirror.seenArgs]
    split
    · rename_i hboth
      rw [hstack hboth.1 hboth.2]
    · rfl
  simp only [step, Mirror.init, Direct.init, hargs]
  cases hinit : Z.init k args with
  | mk rc opened =>
    rw [hinit] at hopened
    cases opened with
    | none =>
      refine { h with log := congrArg (· ++ [rc]) h.log, streams := ?_ }
      intro k' z' st
      simp only
      split
      · rename_i hdrops
        have hdead := hopened hdrops
        have hclear := h.streams_set hothers none k' z' st
        have hsame : b.mirror.setStream k z none k' z' = b.mirror.streams k' z' := by
          by_cases hhere : z' = z ∧ k' = k
          · obtain ⟨rfl, rfl⟩ := hhere
            rw [setStream_self, hdead]
          · exact setStream_of_ne _ _ (by tauto)
        rwa [hsame] at hclear
      · exact h.streams k' z' st
    | some found =>
      obtain ⟨st, adler⟩ := found
      obtain ⟨hsilent, hfit, hclear⟩ := hopened
      simp only [← h.mem, fresh_of_silent hsilent.of_getD]
      refine h.replace hothers ⟨st, 0, 0, adler.getD 0⟩ rc hfit hclear ?_ ?_
      · rintro rfl
        have hlt := b.mirror.mem.readLE_lt (z + 48) 4
        have hadler : b.mirror.mem.readLE (z + 48) 4 = adler.getD 0 := hsilent.2.2 _ rfl
        refine ⟨hsilent.1, hsilent.2.1, ?_⟩
        rw [hadler] at hlt ⊢
        exact (u32_of_lt hlt).symm
      · exact fun harm k' z' zs' _ hz' => h.synced harm k' z' zs' hz'

theorem InStep.reset (hcond : Carried arm64 place b (.reset k z)) :
    InStep arm64 (step arm64 place b (.reset k z)) := by
  simp only [step, Mirror.reset]
  cases hlive : b.mirror.streams k z with
  | none =>
    rw [Direct.reset, h.onStream_none hlive]
    exact h.answer streamError
  | some zs =>
    have hsilent := hcond zs hlive
    have hfit := h.fits z (live_of_some hlive)
    simp only [Direct.reset, h.onStream_some hlive, ← h.mem, fresh_of_silent hsilent]
    refine h.replace (h.others_none hlive)
      ⟨(Z.reset k zs.state).2.1, 0, 0, (Z.reset k zs.state).2.2.getD zs.adler⟩ _ hfit ?_ ?_ ?_
    · exact fun z' hz' hne => h.clear z z' (live_of_some hlive) hz' hne
    · rintro rfl
      refine ⟨hsilent.1, hsilent.2.1, ?_⟩
      cases hadler : (Z.reset k zs.state).2.2 with
      | none => exact (h.synced rfl k z zs hlive).adler
      | some a =>
        have hlt := b.mirror.mem.readLE_lt (z + 48) 4
        have hfield : b.mirror.mem.readLE (z + 48) 4 = a := hsilent.2.2 a hadler
        rw [hfield] at hlt ⊢
        exact (u32_of_lt hlt).symm
    · exact fun harm k' z' zs' _ hz' => h.synced harm k' z' zs' hz'

theorem InStep.close (place : Nat → Nat) : InStep arm64 (step arm64 place b (.close k z)) := by
  simp only [step, Mirror.close]
  cases hlive : b.mirror.streams k z with
  | none =>
    rw [Direct.close, h.onStream_none hlive]
    exact h.answer streamError
  | some zs =>
    have hold {k' : Codec} {z' : Nat} {zs' : HostStream Z.State}
        (hz' : b.mirror.setStream k z none k' z' = some zs') :
        b.mirror.streams k' z' = some zs' := by
      by_cases hhere : z' = z ∧ k' = k
      · obtain ⟨rfl, rfl⟩ := hhere
        rw [setStream_self] at hz'
        cases hz'
      · rwa [setStream_of_ne _ _ (by tauto)] at hz'
    have hlives {z' : Nat} (hz' : Mirror.Live ⟨b.mirror.mem, b.mirror.setStream k z none,
        b.mirror.log ++ [Z.close k zs.state]⟩ z') : b.mirror.Live z' := by
      obtain ⟨k', hk'⟩ := hz'
      obtain ⟨zs', hzs'⟩ := isSome_iff_exists.mp hk'
      exact live_of_some (hold hzs')
    simp only [Direct.close, h.onStream_some hlive]
    exact ⟨h.mem, congrArg (· ++ [Z.close k zs.state]) h.log,
      h.streams_set (h.others_none hlive) none, fun z' hz' => h.fits z' (hlives hz'),
      fun harm k' z' zs' hz' => h.synced harm k' z' zs' (hold hz'),
      fun z₁ z₂ h₁ h₂ hne => h.clear z₁ z₂ (hlives h₁) (hlives h₂) hne⟩

theorem InStep.store {bytes : List UInt8} (hcond : Carried arm64 place b (.store addr bytes)) :
    InStep arm64 (step arm64 place b (.store addr bytes)) :=
  { h with
    mem := congrArg (·.writeBytes addr bytes) h.mem
    synced := fun harm k' z' zs' hz' =>
      (h.synced harm k' z' zs' hz').writeBytes (hcond harm z' (live_of_some hz')) }

theorem InStep.step {e : Event}
    (hcond : Carried arm64 place b e) : InStep arm64 (step arm64 place b e) := by
  cases e with
  | init k z args stack => exact h.init hcond
  | run k z flush => exact h.run hcond
  | reset k z => exact h.reset hcond
  | close k z => exact h.close place
  | store addr bytes => exact h.store hcond

end

end Streams

theorem inStep_start (Z : Library) (arm64 : Bool) (mem : ByteMemory) :
    InStep arm64 (start Z mem) where
  mem := rfl
  log := rfl
  streams k z st := by simp [start]
  fits z hlive := by simp [start, Mirror.Live] at hlive
  synced _ k z zs hlive := by simp [start] at hlive
  clear z z' hlive := by simp [start, Mirror.Live] at hlive

/-- What raw `inflate` makes of a last stored block that is handed over whole, with room for its
bytes. -/
def inflateStored (ended : Bool) (input : List UInt8) (room : Nat) : Outcome Bool :=
  match ended, input with
  | false, 1 :: low :: high :: _ :: _ :: data =>
    if low.toNat + 256 * high.toNat ≤ min data.length room then
      ⟨1, 5 + (low.toNat + 256 * high.toNat), data.take (low.toNat + 256 * high.toNat), none, true⟩
    else ⟨-5, 0, [], none, false⟩
  | false, _ => ⟨-5, 0, [], none, false⟩
  | true, _ => ⟨1, 0, [], none, true⟩

theorem inflateStored_le (ended : Bool) (input : List UInt8) (room : Nat) :
    (inflateStored ended input room).consumed ≤ input.length ∧
      (inflateStored ended input room).output.length ≤ room := by
  unfold inflateStored
  split
  · split
    · simp only [List.length_cons, List.length_take]
      omega
    · simp
  · simp
  · simp

/-- zlib on raw streams of one stored block. Without a header `inflate` keeps no checksum. -/
def rawStored : Library where
  State := Bool
  init k args := (0, some (false, if k = .inflate ∧ args.wbits < 0 then none else some 1))
  dropsOnFailure _ := true
  run _ ended _ _ input _ room := inflateStored ended input room
  reset k _ := (0, false, if k = .inflate then none else some 1)
  close _ _ := 0
  consumed_le _ ended _ _ input _ room := (inflateStored_le ended input room).1
  output_le _ ended _ _ input _ room := (inflateStored_le ended input room).2

/-- A structure at 0x1000 with a stored block of one byte for input and room for that byte. -/
def oneByte : ByteMemory :=
  (((((ByteMemory.writeLE (fun _ => 0) 0x1000 4 0x2000).writeLE 0x1004 4 6).writeLE
    0x100c 4 0x3000).writeLE 0x1010 4 1).writeBytes 0x2000 [1, 1, 0, 0xfe, 0xff, 0x61])

/-- No header: the window bits are negative. -/
def rawArgs : InitArgs := ⟨0, 8, -15, 8, 0⟩

end Lunaria.ZStream
