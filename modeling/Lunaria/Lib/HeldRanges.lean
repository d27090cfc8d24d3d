/-
# Counting the addresses of ranges

A holder of address ranges gives parts of them back. What is counted is the sum of
the sizes: cutting a range out of all of them lowers the sum by what they had inside
that range. The lists need not be disjoint; an address that two ranges hold counts
twice, before and after.
-/

import Lunaria.Lib.Interval
import Mathlib.Algebra.GroupWithZero.Nat

namespace Lunaria.Lib

open List

namespace Interval

def size (i : Interval) : Nat := i.hi - i.lo

def meet (i j : Interval) : Interval := ⟨max i.lo j.lo, min i.hi j.hi⟩

/-- What a cut leaves and what it takes make up the range. -/
theorem size_cut (i : Interval) {j : Interval} (hj : j.lo ≤ j.hi) :
    ((i.cut j).map size).sum + (i.meet j).size = i.size := by
  have hpieces : ((i.cut j).map size).sum =
      (min i.hi j.lo - i.lo) + (i.hi - max i.lo j.hi) := by
    rw [cut, filter_cons, filter_cons, filter_nil]
    split_ifs with hleft hright hright
    all_goals
      simp only [decide_eq_true_eq] at hleft hright
      simp only [map_cons, map_nil, sum_cons, sum_nil, size]
      omega
  simp only [meet, size]
  omega

end Interval

variable (ranges : List Interval)

def held : Nat := (ranges.map Interval.size).sum

/-- The number of addresses held inside a range. -/
def heldIn (j : Interval) : Nat :=
  (ranges.map fun i => (i.meet j).size).sum

def giveBack (j : Interval) : List Interval :=
  ranges.flatMap fun i => i.cut j

@[simp]
theorem held_cons (i : Interval) (ranges : List Interval) :
    held (i :: ranges) = i.size + held ranges := by
  rw [held, held, map_cons, sum_cons]

/-- Giving a range back lowers the count by what was held inside it. -/
theorem held_giveBack {j : Interval} (hj : j.lo ≤ j.hi) :
    held (giveBack ranges j) + heldIn ranges j = held ranges := by
  induction ranges with
  | nil => rfl
  | cons i ranges ih =>
    have hone := i.size_cut hj
    simp only [held, heldIn, giveBack, flatMap_cons, map_append, sum_append,
      map_cons, sum_cons] at ih ⊢
    omega

end Lunaria.Lib
