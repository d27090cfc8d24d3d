/-
# Runs of a deterministic machine

A machine is a total step function. A run folds the step over a list of events,
and a guarded run additionally demands that every event met a condition in the
state it was applied to. Nothing here knows what a state or an event is: the
invariant rule below is what the concrete developments instantiate, so that each
safety result reduces to one initial goal and one step goal.
-/

import Mathlib.Data.List.Basic

namespace Lunaria.Lib

universe u v

variable {σ : Type u} {ε : Type v}

/-- Apply the events of a finite run in order. -/
def run (step : σ → ε → σ) (start : σ) (events : List ε) : σ :=
  events.foldl step start

@[simp]
theorem run_nil (step : σ → ε → σ) (start : σ) : run step start [] = start := rfl

@[simp]
theorem run_cons (step : σ → ε → σ) (start : σ) (event : ε) (events : List ε) :
    run step start (event :: events) = run step (step start event) events := rfl

/-- Every event of the run meets `allowed` in the state it is applied to. -/
def StepsMeet (allowed : σ → ε → Prop) (step : σ → ε → σ) : σ → List ε → Prop
  | _, [] => True
  | state, event :: events => allowed state event ∧ StepsMeet allowed step (step state event) events

variable (allowed : σ → ε → Prop)

@[simp]
theorem stepsMeet_nil (step : σ → ε → σ) (state : σ) : StepsMeet allowed step state [] := trivial

@[simp]
theorem stepsMeet_cons (step : σ → ε → σ) (state : σ) (event : ε) (events : List ε) :
    StepsMeet allowed step state (event :: events) ↔
      allowed state event ∧ StepsMeet allowed step (step state event) events := Iff.rfl

instance stepsMeetDecidable (allowed : σ → ε → Prop) (step : σ → ε → σ)
    [∀ state event, Decidable (allowed state event)] :
    ∀ (state : σ) (events : List ε), Decidable (StepsMeet allowed step state events)
  | _, [] => isTrue trivial
  | state, event :: events =>
    have := stepsMeetDecidable allowed step (step state event) events
    inferInstanceAs (Decidable (allowed state event ∧ _))

theorem stepsMeet_append (step : σ → ε → σ) (state : σ) (first second : List ε) :
    StepsMeet allowed step state (first ++ second) ↔ StepsMeet allowed step state first ∧
        StepsMeet allowed step (run step state first) second := by
  induction first generalizing state with
  | nil => simp
  | cons event first ih => simp [ih, and_assoc]

variable {step : σ → ε → σ} {state : σ}

/-- Events that meet two conditions meet both. -/
theorem StepsMeet.and {allowed allowed' : σ → ε → Prop}
    {events : List ε} (h : StepsMeet allowed step state events)
    (h' : StepsMeet allowed' step state events) :
    StepsMeet (fun s e => allowed s e ∧ allowed' s e) step state events := by
  induction events generalizing state with
  | nil => trivial
  | cons event events ih => exact ⟨⟨h.1, h'.1⟩, ih h.2 h'.2⟩

/-- What every step preserves holds after every run. -/
theorem run_always {inv : σ → Prop}
    (preserved : ∀ state event, inv state → inv (step state event)) (hstart : inv state)
    (events : List ε) : inv (run step state events) := by
  induction events generalizing state with
  | nil => exact hstart
  | cons event events ih => exact ih (preserved state event hstart)

/-- A measure that a step raises by one at most is raised by the length of the run at most. -/
theorem run_measure_le (measure : σ → Nat)
    (hstep : ∀ state event, measure (step state event) ≤ measure state + 1) (state : σ)
    (events : List ε) : measure (run step state events) ≤ measure state + events.length := by
  induction events generalizing state with
  | nil => exact Nat.le_refl _
  | cons event events ih =>
    calc measure (run step (step state event) events)
        ≤ measure _ + events.length := ih _
      _ ≤ measure state + 1 + events.length := Nat.add_le_add_right (hstep state event) _
      _ = measure state + (event :: events).length := by
          rw [List.length_cons, Nat.add_assoc, Nat.add_comm 1]

/-- **The invariant rule.** What every allowed step preserves holds after every
allowed run. -/
theorem run_invariant {allowed : σ → ε → Prop} {inv : σ → Prop}
    (preserved : ∀ state event, inv state → allowed state event → inv (step state event))
    (hstart : inv state) {events : List ε}
    (hmeet : StepsMeet allowed step state events) : inv (run step state events) := by
  induction events generalizing state with
  | nil => exact hstart
  | cons event events ih => exact ih (preserved state event hstart hmeet.1) hmeet.2

end Lunaria.Lib
