/-
# Guards of static initialisers

A compiler guards a static initialiser with one byte: if it is zero the thread calls
`__cxa_guard_acquire`, and if that returns one it runs the initialiser and calls
`__cxa_guard_release`, or `__cxa_guard_abort` if the initialiser threw. The handlers follow
a single-threaded model. Acquire deliberately leaves no pending mark, because the inline
test reads the same byte, so a second acquire during the initialiser returns one as well.

The guard therefore admits one run at a time, and one release, exactly as far as nobody
calls acquire while an initialiser is running.
-/

import Lunaria.Lib.Run

namespace Lunaria

open Lib List

/-! ## The machine -/

/-- `__cxa_guard_acquire`: whether the caller is to run the initialiser. -/
def svcCxaGuardAcquire (guard : Nat) : Nat := if guard ≠ 0 then 0 else 1

/-- The byte after `__cxa_guard_release`. -/
def svcCxaGuardRelease : Nat := 1

/-- The byte after `__cxa_guard_abort`. -/
def svcCxaGuardAbort : Nat := 0

/-- The guard byte, the threads that have seen it zero, those running the initialiser (one entry for
each run), and the runs released. -/
structure GuardRun where
  guard : Nat
  calling : List Nat
  inside : List Nat
  released : Nat

/-- A step of the sequence by one thread. -/
inductive GuardOp where
  | test (tid : Nat)
  | acquire (tid : Nat)
  | release (tid : Nat)
  | abort (tid : Nat)

namespace GuardRun

def initial : GuardRun := ⟨0, [], [], 0⟩

/-- One event. A thread only makes the step its place in the sequence allows. -/
def step (s : GuardRun) : GuardOp → GuardRun
  | .test tid => if s.guard = 0 then { s with calling := tid :: s.calling } else s
  | .acquire tid =>
    if tid ∈ s.calling then
      { s with
          calling := s.calling.erase tid
          inside := if svcCxaGuardAcquire s.guard = 1 then tid :: s.inside else s.inside }
    else s
  | .release tid =>
    if tid ∈ s.inside then
      { s with
          guard := svcCxaGuardRelease
          inside := s.inside.erase tid
          released := s.released + 1 }
    else s
  | .abort tid =>
    if tid ∈ s.inside then
      { s with guard := svcCxaGuardAbort, inside := s.inside.erase tid }
    else s

/-- At most one thread is inside the initialiser, and at most one run has ended with a
release. -/
structure Guarded (s : GuardRun) : Prop where
  alone : ∀ t ∈ s.inside, ∀ u ∈ s.inside, t = u
  released : s.released ≤ 1

/-- Acquire is not called while the initialiser is running. -/
def Undisturbed (s : GuardRun) : GuardOp → Prop
  | .acquire _ => s.inside = []
  | _ => True

instance undisturbedDecidable (s : GuardRun) : ∀ op, Decidable (s.Undisturbed op)
  | .acquire _ => decidable_of_iff (s.inside.isEmpty = true) List.isEmpty_iff
  | .test _ | .release _ | .abort _ => isTrue trivial

/-- Before the release the byte is zero and at most one run is under way; after it nobody is
inside any more. -/
inductive Sound (s : GuardRun) : Prop
  | pending (guard : s.guard = 0) (released : s.released = 0) (inside : s.inside.length ≤ 1)
  | complete (guard : s.guard = 1) (released : s.released = 1) (inside : s.inside = [])

variable {s : GuardRun} {op : GuardOp}

theorem Sound.guarded (h : s.Sound) : s.Guarded := by
  cases h with
  | pending _ hreleased hinside =>
    refine ⟨fun t ht u hu => ?_, hreleased ▸ Nat.zero_le 1⟩
    obtain ⟨v, hv⟩ := length_eq_one_iff.mp (Nat.le_antisymm hinside (length_pos_of_mem ht))
    rw [hv] at ht hu
    rw [mem_singleton.mp ht, mem_singleton.mp hu]
  | complete _ hreleased hinside =>
    exact ⟨fun t ht => absurd ht (hinside ▸ not_mem_nil), Nat.le_of_eq hreleased⟩

theorem erase_eq_nil {tid : Nat} {inside : List Nat} (hlen : inside.length ≤ 1)
    (hmem : tid ∈ inside) : inside.erase tid = [] := by
  apply length_eq_zero_iff.mp
  rw [length_erase_of_mem hmem]
  exact Nat.sub_eq_zero_of_le hlen

theorem Sound.acquire (h : s.Sound) (hinside : s.inside = []) (tid : Nat) :
    (s.step (.acquire tid)).Sound := by
  simp only [GuardRun.step]
  split
  case isFalse => exact h
  case isTrue =>
    cases h with
    | pending hguard hreleased =>
      refine .pending hguard hreleased ?_
      simp [hguard, svcCxaGuardAcquire, hinside]
    | complete hguard hreleased =>
      refine .complete hguard hreleased ?_
      simp [hguard, svcCxaGuardAcquire, hinside]

theorem Sound.release (h : s.Sound) (tid : Nat) : (s.step (.release tid)).Sound := by
  simp only [GuardRun.step]
  split
  case isFalse => exact h
  case isTrue hmem =>
    cases h with
    | pending _ hreleased hinside =>
      exact .complete rfl (congrArg _ hreleased) (erase_eq_nil hinside hmem)
    | complete _ _ hinside => exact absurd hmem (hinside ▸ not_mem_nil)

theorem Sound.abort (h : s.Sound) (tid : Nat) : (s.step (.abort tid)).Sound := by
  simp only [GuardRun.step]
  split
  case isFalse => exact h
  case isTrue hmem =>
    cases h with
    | pending _ hreleased hinside =>
      refine .pending rfl hreleased ?_
      simp [erase_eq_nil hinside hmem]
    | complete _ _ hinside => exact absurd hmem (hinside ▸ not_mem_nil)

theorem Sound.step (h : s.Sound) (hop : s.Undisturbed op) : (s.step op).Sound := by
  cases op with
  | test tid =>
    simp only [GuardRun.step]
    split
    · cases h with
      | pending hguard hreleased hinside => exact .pending hguard hreleased hinside
      | complete hguard hreleased hinside => exact .complete hguard hreleased hinside
    · exact h
  | acquire tid => exact h.acquire hop tid
  | release tid => exact h.release tid
  | abort tid => exact h.abort tid

/-- **In every run in which acquire is not called during the initialiser, at most one thread
is inside it and at most one run ends with a release.** -/
theorem guarded_of_run (ops : List GuardOp) (hops : StepsMeet Undisturbed step initial ops) :
    (run step initial ops).Guarded := by
  have hstart : initial.Sound := .pending rfl rfl (Nat.zero_le 1)
  exact (run_invariant (fun _ _ h hop => h.step hop) hstart hops).guarded

/-- Two threads see the guard zero; the initialiser of the first one throws, the second one
runs it again and releases. -/
def retriedAfterThrow : List GuardOp :=
  [.test 0, .test 2, .acquire 0, .abort 0, .acquire 2, .release 2, .test 0]

theorem guarded_retriedAfterThrow : (run step initial retriedAfterThrow).released = 1 ∧
      (run step initial retriedAfterThrow).Guarded :=
  ⟨by decide, guarded_of_run retriedAfterThrow (by decide)⟩

/-- Thread 2 calls acquire while the main thread is inside the initialiser. -/
theorem not_guarded_secondAcquire :
    ¬ (run step initial [.test 0, .acquire 0, .test 2, .acquire 2]).Guarded := by
  intro h
  exact absurd (h.alone 0 (by decide) 2 (by decide)) (by decide)

end GuardRun

end Lunaria
