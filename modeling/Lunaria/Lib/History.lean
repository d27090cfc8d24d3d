/-
# Properties of a history

A history is the list of what has happened, newest event first. Safety properties of
protocols often speak about it with two operators of past-time temporal logic: something
has held *since* a certain event, and every event found an acceptable past when it
happened. Both are defined by recursion on the history, so that appending an event
unfolds them by one step, and both can be decided.
-/

import Mathlib.Data.List.Basic

namespace Lunaria.Lib

universe u

variable {α : Type u}

/-- An event with `stop` has happened, and every later event has `hold`. -/
def Since (hold stop : α → Prop) : List α → Prop
  | [] => False
  | event :: past => stop event ∨ (hold event ∧ Since hold stop past)

/-- Every event, when it happened, had a past that `fits` it. -/
def Fitting (fits : α → List α → Prop) : List α → Prop
  | [] => True
  | event :: past => fits event past ∧ Fitting fits past

instance sinceDecidable (hold stop : α → Prop) [DecidablePred hold] [DecidablePred stop] :
    DecidablePred (Since hold stop)
  | [] => isFalse id
  | event :: past =>
    have := sinceDecidable hold stop past
    inferInstanceAs (Decidable (stop event ∨ (hold event ∧ _)))

instance fittingDecidable (fits : α → List α → Prop)
    [∀ event past, Decidable (fits event past)] : DecidablePred (Fitting fits)
  | [] => isTrue trivial
  | event :: past =>
    have := fittingDecidable fits past
    inferInstanceAs (Decidable (fits event past ∧ _))

theorem Since.cons {hold stop : α → Prop} {past : List α} (h : Since hold stop past)
    {event : α} (hevent : hold event) : Since hold stop (event :: past) :=
  .inr ⟨hevent, h⟩

end Lunaria.Lib
