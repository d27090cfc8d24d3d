/-
# Ownership of a resource

A pool of things, some of them owned and the rest not handed out yet. No thing has
two owners, and what is owned is not handed out again. A system that only ever gives
unowned things to one owner at a time keeps both, whatever the owners are and however
they describe what they own.
-/

import Mathlib.Data.Set.Lattice
import Mathlib.Order.CompletePartialOrder

namespace Lunaria.Lib

universe u v

/-- No thing has two owners or is both owned and unclaimed. -/
structure Owned {ι : Type u} {β : Type v} (own : ι → Set β) (unclaimed : Set β) : Prop where
  apart : ∀ i j, i ≠ j → Disjoint (own i) (own j)
  claimed : ∀ i, Disjoint (own i) unclaimed

namespace Owned

variable {ι : Type u} {β : Type v} {own own' : ι → Set β} {unclaimed unclaimed' : Set β}

section

variable (h : Owned own unclaimed)
include h

/-- The owner of a thing is unique. -/
theorem owner_unique {i j : ι} {x : β} (hi : x ∈ own i) (hj : x ∈ own j) : i = j := by
  by_contra hne
  exact Set.disjoint_left.mp (h.apart i j hne) hi hj

theorem not_unclaimed {i : ι} {x : β} (hi : x ∈ own i) : x ∉ unclaimed :=
  Set.disjoint_left.mp (h.claimed i) hi

/-- Giving up claims keeps the discipline. -/
theorem anti (hown : ∀ i, own' i ⊆ own i)
    (hfree : unclaimed' ⊆ unclaimed) : Owned own' unclaimed' where
  apart := fun i j hne => (h.apart i j hne).mono (hown i) (hown j)
  claimed := fun i => (h.claimed i).mono (hown i) hfree

/-- One owner takes unclaimed things, which are then no longer unclaimed. -/
theorem claim (i : ι) {new : Set β} (hnew : new ⊆ unclaimed)
    (hself : own' i ⊆ own i ∪ new) (hother : ∀ j, j ≠ i → own' j ⊆ own j)
    (hfree : unclaimed' ⊆ unclaimed) (htaken : Disjoint new unclaimed') :
    Owned own' unclaimed' := by
  have hgrown : ∀ j, j ≠ i → Disjoint (own' i) (own' j) := by
    intro j hj
    apply Disjoint.mono hself (hother j hj)
    apply Set.disjoint_union_left.mpr
    exact ⟨h.apart i j hj.symm, (h.claimed j).symm.mono_left hnew⟩
  constructor
  · intro j k hne
    by_cases hj : j = i
    · subst hj
      exact hgrown k hne.symm
    · by_cases hk : k = i
      · subst hk
        exact (hgrown j hj).symm
      · exact (h.apart j k hne).mono (hother j hj) (hother k hk)
  · intro j
    by_cases hj : j = i
    · subst hj
      apply Disjoint.mono_left hself
      exact Set.disjoint_union_left.mpr ⟨(h.claimed j).mono_right hfree, htaken⟩
    · exact (h.claimed j).mono (hother j hj) hfree

end

end Owned

end Lunaria.Lib
