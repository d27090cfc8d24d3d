/-
# Half-open address intervals and power-of-two rounding

Allocators talk about ranges `[lo, hi)` of addresses. Two ranges are apart when
one ends before the other begins; for nonempty ranges this is disjointness of
the address sets, and for an empty range it is what the bookkeeping of an
allocator still guarantees. The rounding functions are stated by division, so
that at a literal granule linear arithmetic decides them.
-/

import Mathlib.Order.Interval.Set.Basic
import Mathlib.Data.Set.Lattice
import Mathlib.Order.CompletePartialOrder
import Mathlib.Tactic.Common

namespace Lunaria.Lib

open List

/-- A half-open range of addresses. -/
structure Interval where
  lo : Nat
  hi : Nat
  deriving DecidableEq, Repr

namespace Interval

def addresses (i : Interval) : Set Nat := Set.Ico i.lo i.hi

theorem mem_addresses {i : Interval} {x : Nat} : x ∈ i.addresses ↔ i.lo ≤ x ∧ x < i.hi := Iff.rfl

/-- What holds at no offset holds at no address. -/
theorem not_of_offsets {p : Nat → Prop} {a n : Nat} (h : ∀ i < n, ¬ p (a + i)) {x : Nat}
    (hlo : a ≤ x) (hhi : x < a + n) : ¬ p x := by
  have hx := h (x - a) (Nat.sub_lt_left_of_lt_add hlo hhi)
  rwa [Nat.add_sub_cancel' hlo] at hx

def Apart (i j : Interval) : Prop := i.hi ≤ j.lo ∨ j.hi ≤ i.lo
  deriving Decidable

variable {i j : Interval}

theorem Apart.symm (h : i.Apart j) : j.Apart i := Or.symm h

/-- Ranges that are apart share no address. -/
theorem Apart.disjoint (h : i.Apart j) : Disjoint i.addresses j.addresses := by
  rw [Set.disjoint_left]
  intro x hi hj
  rw [mem_addresses] at hi hj
  rcases h with h | h <;> omega

def Within (i j : Interval) : Prop := j.lo ≤ i.lo ∧ i.hi ≤ j.hi
  deriving Decidable

variable {k piece : Interval}

/-- Shrinking a range keeps it apart from what it was apart from. -/
theorem Apart.of_within (h : j.Apart k) (hin : i.Within j) : i.Apart k := by
  rcases h with h | h
  · exact .inl (hin.2.trans h)
  · exact .inr (h.trans hin.1)

/-- The ranges share no address. Unlike `Apart` this is also true of an empty or
inverted range inside another one. -/
def Misses (i j : Interval) : Prop := Disjoint i.addresses j.addresses

theorem misses_iff_forall :
    i.Misses j ↔ ∀ x, i.lo ≤ x → x < i.hi → j.lo ≤ x → x < j.hi → False := by
  rw [Misses, Set.disjoint_left]
  constructor
  · intro h x hilo hihi hjlo hjhi
    exact h ⟨hilo, hihi⟩ ⟨hjlo, hjhi⟩
  · intro h x hi hj
    exact h x hi.1 hi.2 hj.1 hj.2

theorem misses_iff : i.Misses j ↔ i.hi ≤ j.lo ∨ j.hi ≤ i.lo ∨ i.hi ≤ i.lo ∨ j.hi ≤ j.lo := by
  rw [misses_iff_forall]
  constructor
  · intro h
    by_contra hnot
    exact h (max i.lo j.lo) (by omega) (by omega) (by omega) (by omega)
  · omega

instance (i j : Interval) : Decidable (i.Misses j) :=
  decidable_of_iff _ misses_iff.symm

theorem Misses.symm (h : i.Misses j) : j.Misses i := Disjoint.symm h

theorem Apart.misses (h : i.Apart j) : i.Misses j := h.disjoint

theorem Misses.of_within (h : j.Misses k) (hin : i.Within j) : i.Misses k := by
  rw [misses_iff_forall] at h ⊢
  intro x hlo hhi
  exact h x (hin.1.trans hlo) (lt_of_lt_of_le hhi hin.2)

/-- The parts of a range that another one leaves of it. -/
def cut (i j : Interval) : List Interval :=
  [⟨i.lo, min i.hi j.lo⟩, ⟨max i.lo j.hi, i.hi⟩].filter fun piece => piece.lo < piece.hi

/-- What is left of a range lies inside it and outside what was cut away. -/
theorem mem_of_mem_cut (hpiece : piece ∈ i.cut j) {x : Nat}
    (hlo : piece.lo ≤ x) (hhi : x < piece.hi) : (i.lo ≤ x ∧ x < i.hi) ∧ (x < j.lo ∨ j.hi ≤ x) := by
  simp only [cut, mem_filter, mem_cons, not_mem_nil, or_false] at hpiece
  rcases hpiece.1 with rfl | rfl <;> simp only at hlo hhi <;> omega

/-- A piece of a range misses what the range misses. -/
theorem Misses.of_mem_cut (h : i.Misses k) (hpiece : piece ∈ i.cut j) : piece.Misses k := by
  rw [misses_iff_forall] at h ⊢
  intro x hlo hhi
  obtain ⟨hx, -⟩ := mem_of_mem_cut hpiece hlo hhi
  exact h x hx.1 hx.2

/-- What is left misses what was cut away. -/
theorem misses_of_mem_cut (hpiece : piece ∈ i.cut j) : piece.Misses j := by
  rw [misses_iff_forall]
  intro x hlo hhi hjlo hjhi
  obtain ⟨-, hx⟩ := mem_of_mem_cut hpiece hlo hhi
  omega

theorem cut_pairwise_misses (i : Interval) (hj : j.lo ≤ j.hi) : (i.cut j).Pairwise Misses := by
  refine List.Pairwise.filter _ ?_
  simp only [pairwise_cons, mem_cons, not_mem_nil, or_false, forall_eq]
  refine ⟨misses_iff.mpr ?_, by simp⟩
  simp only
  omega

end Interval

/-- Largest multiple of the granule at or below `n`; for a power of two this is
the mask `n & ~(granule - 1)`. -/
def roundDown (n granule : Nat) : Nat := n / granule * granule

/-- Smallest multiple of the granule at or above `n`. -/
def roundUp (n granule : Nat) : Nat := roundDown (n + (granule - 1)) granule

theorem roundDown_le (n granule : Nat) : roundDown n granule ≤ n := Nat.div_mul_le_self n granule

section

variable {granule : Nat} (hpos : 0 < granule) (n : Nat)
include hpos

theorem lt_roundDown_add : n < roundDown n granule + granule := by
  have h := Nat.lt_div_mul_add (a := n) hpos
  exact h

theorem le_roundUp : n ≤ roundUp n granule := by
  have h := lt_roundDown_add hpos (n + (granule - 1))
  rw [roundUp]
  omega

theorem roundUp_lt_add : roundUp n granule < n + granule := by
  have h := roundDown_le (n + (granule - 1)) granule
  rw [roundUp]
  omega

end

end Lunaria.Lib
