/-
# Runs of a machine that may stop

A step that has no outcome ends the run: from then on there is no state. A property is checked
along such a run after every prefix that has a state, and under one condition on single steps it
holds after every prefix exactly when every step meets the condition.
-/

import Lunaria.Lib.Run

namespace Lunaria.Lib

open List

universe u v

variable {σ : Type u} {ε : Type v}

/-- The step on the state there is, if any. -/
def tryStep (step : σ → ε → Option σ) (state : Option σ) (event : ε) : Option σ :=
  state.bind fun s => step s event

/-- A condition on steps, asked as long as there is a state. -/
def whileThere (allowed : σ → ε → Prop) : Option σ → ε → Prop
  | none, _ => True
  | some s, event => allowed s event

instance whileThereDecidable (allowed : σ → ε → Prop) [∀ s event, Decidable (allowed s event)] :
    ∀ (state : Option σ) (event : ε), Decidable (whileThere allowed state event)
  | none, _ => isTrue trivial
  | some s, event => inferInstanceAs (Decidable (allowed s event))

section Runs

variable {step : σ → ε → Option σ}

theorem run_tryStep_none (step : σ → ε → Option σ) (events : List ε) :
    run (tryStep step) none events = none := by
  induction events with
  | nil => rfl
  | cons event events ih => exact ih

variable {events : List ε} {s : σ}

/-- A run that comes to its end has made its first step. -/
theorem exists_step_of_run {s' : σ} {event : ε}
    (h : run (tryStep step) (some s) (event :: events) = some s') :
    ∃ s₁, step s event = some s₁ ∧ run (tryStep step) (some s₁) events = some s' := by
  cases hstep : step s event with
  | none =>
    rw [run_cons, show tryStep step (some s) event = none from hstep, run_tryStep_none] at h
    cases h
  | some s₁ =>
    rw [run_cons, show tryStep step (some s) event = some s₁ from hstep] at h
    exact ⟨s₁, rfl, h⟩

/-- What every step preserves holds at the end. -/
theorem run_tryStep_invariant {inv : σ → Prop}
    (preserved : ∀ s event s', inv s → step s event = some s' → inv s') {s' : σ} (hs : inv s)
      (h : run (tryStep step) (some s) events = some s') : inv s' := by
  induction events generalizing s with
  | nil =>
    cases h
    exact hs
  | cons event events ih =>
    obtain ⟨s₁, hstep, hrest⟩ := exists_step_of_run h
    exact ih (preserved s event s₁ hs hstep) hrest

/-- **Prefixes and steps.** If after a step from a sound state all is well, and sound again, exactly
when the step was allowed, all is well along the run exactly when every step was allowed. -/
theorem prefixes_iff_stepsMeet {sound good : σ → Prop} {allowed : σ → ε → Prop}
    (hgood : ∀ s, sound s → good s) (hstep : ∀ s event s', sound s → step s event = some s' →
      (good s' ↔ allowed s event) ∧ (good s' → sound s')) (hs : sound s)
        (hreturn : run (tryStep step) (some s) events ≠ none) :
    (∀ n s', run (tryStep step) (some s) (events.take n) = some s' → good s') ↔
      StepsMeet (whileThere allowed) (tryStep step) (some s) events := by
  induction events generalizing s with
  | nil =>
    refine ⟨fun _ => trivial, fun _ n s' hrun => ?_⟩
    rw [take_nil] at hrun
    cases hrun
    exact hgood s hs
  | cons event events ih =>
    obtain ⟨final, hfinal⟩ := Option.ne_none_iff_exists'.mp hreturn
    obtain ⟨s₁, hfirst, hrest⟩ := exists_step_of_run hfinal
    have htry : tryStep step (some s) event = some s₁ := hfirst
    have hrest' : run (tryStep step) (some s₁) events ≠ none := by
      rw [hrest]
      exact Option.some_ne_none final
    obtain ⟨hallowed, hsound⟩ := hstep s event s₁ hs hfirst
    rw [stepsMeet_cons, htry]
    constructor
    · intro hall
      have hgood₁ : good s₁ := hall 1 s₁ hfirst
      refine ⟨hallowed.mp hgood₁, (ih (hsound hgood₁) hrest').mp fun n s' hrun => ?_⟩
      apply hall _ s'
      rw [take_succ_cons, run_cons, htry]
      exact hrun
    · rintro ⟨hmeets, hmeet⟩ n s' hrun
      have hgood₁ : good s₁ := hallowed.mpr hmeets
      cases n with
      | zero =>
        cases hrun
        exact hgood s hs
      | succ n =>
        rw [take_succ_cons, run_cons, htry] at hrun
        exact (ih (hsound hgood₁) hrest').mpr hmeet n s' hrun

end Runs

end Lunaria.Lib
