/-
# Dispositions of signals

`sigaction` and `bsd_signal` write one table of handlers, which `pthread_kill` reads. Only
handlers enter it: `SIG_DFL` and `SIG_IGN` leave the entry of the signal as it is. What was there
before is told by `bsd_signal` alone, as a 32-bit address.
-/

import Lunaria.Guest.Adapter
import Lunaria.Threads.CurrentTid

namespace Lunaria

open Lib

/-- A call that sets a disposition: zero is `SIG_DFL`, one `SIG_IGN`, and handlers have the
guest's width. The structures of `sigaction` are given by their handler fields, if at all. -/
inductive SigCall
  | sigaction (sig : Nat) (act oldAct : Option Nat)
  | bsdSignal (sig handler : Nat)

/-- `g_sighandlers`, and what the guest asked for last. -/
structure Signals where
  handlers : List (Nat × Nat)
  disposition : Nat → Nat

namespace Signals

variable (L : Layout) (s : AddressSpace)

def initial : Signals := ⟨[], fun _ => 0⟩

/-- The address a handler has in the table. -/
def canonVa (va : Nat) : Nat := if L.isArm64 then a64CanonVa L s va else va

/-- `handler` as the program reads it is recorded, `asked` is what the guest asks for. -/
def install (g : Signals) (sig handler asked : Nat) : Signals where
  handlers := if 1 < handler then (sig, handler) :: g.handlers else g.handlers
  disposition := Function.update g.disposition sig asked

def step (g : Signals) : SigCall → Signals
  | .sigaction _ none _ => g
  | .sigaction sig (some va) _ => g.install sig (canonVa L s va) va
  | .bsdSignal sig va => g.install sig (svcArg L s va) va

/-- The old handler, where the call tells it: the signal and the value the guest finds. Nothing is
written to `old_act`. -/
def told (g : Signals) : SigCall → Option (Nat × Nat)
  | .sigaction sig _ oldAct => oldAct.map fun word => (sig, word)
  | .bsdSignal sig _ =>
    let old := (g.handlers.lookup sig).getD 0
    some (sig, if L.isArm64 then (SvcRet.ret32 old).x0 else old)

/-- The call tells the disposition the one before left. -/
def Tells (g : Signals) (call : SigCall) : Prop :=
  ∀ sig v, g.told L call = some (sig, v) → v = g.disposition sig

/-- Wherever a callback can be made, `pthread_kill` makes one exactly if there is a handler, and
it is the handler asked for. -/
def Delivers (g : Signals) : Prop :=
  ∀ (t : TidState) (sig : Nat), t.sighandlers = g.handlers → t.executing = true →
    t.cbDepth < cbMaxDepth →
      (t.callsBack (t.handlerOf sig) = true ↔ 1 < g.disposition sig) ∧
        (1 < g.disposition sig → t.handlerOf sig = canonVa L s (g.disposition sig))

/-- What `handler` records is the handler asked for; `SIG_DFL` is asked for only where it is in
force, `SIG_IGN` never. -/
def Keeps (g : Signals) (sig handler asked : Nat) : Prop :=
  (1 < asked ∧ 1 < handler ∧ handler = canonVa L s asked) ∨
    (asked = 0 ∧ handler = 0 ∧ g.disposition sig = 0)

/-- No old structure is passed, and on A64 a handler that is told has a 32-bit address. -/
def Plain (g : Signals) : SigCall → Prop
  | .sigaction sig act oldAct => oldAct = none ∧ ∀ va ∈ act, g.Keeps L s sig (canonVa L s va) va
  | .bsdSignal sig va => (L.isArm64 = true → g.disposition sig < 2 ^ 32 - 1) ∧
      g.Keeps L s sig (svcArg L s va) va

/-- The table has the handlers in force and nothing else. -/
def Tracks (g : Signals) : Prop :=
  ∀ sig, g.handlers.lookup sig = none ∧ g.disposition sig = 0 ∨
    1 < g.disposition sig ∧ 1 < canonVa L s (g.disposition sig) ∧
      g.handlers.lookup sig = some (canonVa L s (g.disposition sig))

variable {L s} {g : Signals}

theorem Tracks.install (h : g.Tracks L s) {sig handler asked : Nat}
    (hkeeps : g.Keeps L s sig handler asked) : (g.install sig handler asked).Tracks L s := by
  intro sig'
  rw [Signals.install]
  by_cases hsig : sig' = sig
  · subst hsig
    rcases hkeeps with ⟨hasked, hhandler, rfl⟩ | ⟨rfl, rfl, hdefault⟩
    · exact .inr (by simp [hasked, hhandler])
    · exact .inl (by simpa [hdefault] using h sig')
  · have hlookup : (sig' == sig) = false := by simpa using hsig
    split <;> simpa [hsig, List.lookup_cons, hlookup] using h sig'

theorem Tracks.step (h : g.Tracks L s) (call : SigCall) (hplain : g.Plain L s call) :
    (g.step L s call).Tracks L s := by
  cases call with
  | sigaction sig act oldAct =>
    cases act with
    | none => exact h
    | some va => exact h.install (hplain.2 va rfl)
  | bsdSignal sig va => exact h.install hplain.2

theorem Tracks.delivers (h : g.Tracks L s) : g.Delivers L s := by
  intro t sig htable hexecuting hdepth
  rw [TidState.callsBack, TidState.handlerOf, htable]
  rcases h sig with ⟨hnone, hdefault⟩ | ⟨hdisposition, hhandler, hsome⟩
  · simp [hnone, hdefault]
  · have hne : canonVa L s (g.disposition sig) ≠ 0 := by omega
    simp [hsome, hhandler, hdisposition, hexecuting, hdepth, hne]

theorem canonVa_of_lt {va : Nat} (h : L.isArm64 → va < 2 ^ 32 - 1) : canonVa L s va = va := by
  rw [canonVa]
  split
  · rename_i harm
    have hlt := h harm
    have hhi : hiWord va = 0 := by rw [hiWord, u32]; omega
    have hguest : ¬ a64IsGuestVa va := by rw [a64IsGuestVa_iff, a64GuestBase]; omega
    simp only [a64CanonVa, hguest, hhi]
    exact u32_of_lt (by omega)
  · rfl

theorem Tracks.tells (h : g.Tracks L s) {call : SigCall} (hplain : g.Plain L s call) :
    g.Tells L call := by
  intro sig v htold
  cases call with
  | sigaction sig' act oldAct => cases hplain.1; cases htold
  | bsdSignal sig' va =>
    cases htold
    have hold : (g.handlers.lookup sig).getD 0 = g.disposition sig := by
      rcases h sig with ⟨hnone, hdefault⟩ | ⟨-, -, hsome⟩
      · rw [hnone, hdefault]; rfl
      · rw [hsome, Option.getD_some, canonVa_of_lt hplain.1]
    rw [hold]
    split
    · exact if_neg (by have := hplain.1 ‹_›; omega)
    · rfl

variable (L s) in
/-- **In every run of plain calls the signals are delivered as the guest asked, and every plain
call tells the disposition before it.** -/
theorem dispositions_of_run {calls : List SigCall}
    (hplain : StepsMeet (Plain L s) (step L s) initial calls) :
    (run (step L s) initial calls).Delivers L s ∧
      ∀ call, (run (step L s) initial calls).Plain L s call →
        (run (step L s) initial calls).Tells L call := by
  have htracks : (run (step L s) initial calls).Tracks L s :=
    run_invariant (fun _ call h => h.step call) (fun _ => .inl ⟨rfl, rfl⟩) hplain
  exact ⟨htracks.delivers, fun call => htracks.tells⟩

/-- A handler is installed and replaced. -/
def replaced : List SigCall := [.sigaction 10 (some 0x40001000) none, .bsdSignal 10 0x40002000]

theorem replaced_delivers :
    (run (step (defaultLayout false) (.initial (defaultLayout false))) initial replaced).Delivers
      (defaultLayout false) (.initial (defaultLayout false)) := by
  refine (dispositions_of_run _ _ ?_).1
  have harm : (defaultLayout false).isArm64 = false := rfl
  simp [replaced, Plain, Keeps, canonVa, svcArg, harm]

/-- The signal is set to `SIG_DFL` again, and its handler is called. -/
theorem default_signal_delivered :
    ¬ (run (step (defaultLayout false) (.initial (defaultLayout false))) initial
      [.sigaction 10 (some 0x40001000) none, .sigaction 10 (some 0) none]).Delivers
        (defaultLayout false) (.initial (defaultLayout false)) := by
  intro h
  have hkill := h { TidState.initial false with sighandlers := [(10, 0x40001000)] } 10
  exact absurd ((hkill rfl rfl (by decide)).1.mp (by decide)) (by decide)

end Signals

end Lunaria
