/-
# Interning tables

A table that is searched before it grows: an entry that is already there, in the sense of a
comparison given by its owner, is answered by the place of the old one, and any other is put
behind the last. Entries are never removed, so places stay valid. The comparison need not be an
equivalence, and the entries may change later; the outcome of one search is all that is said
here.
-/

import Mathlib.Tactic.Common

namespace Lunaria.Lib

open List

variable {α : Type*}

/-- Search the table, and add the entry if there is room for it. -/
def intern (same : α → α → Bool) (limit : Nat) (table : List α) (needle : α) :
    Option (Nat × List α) :=
  match table.findIdx? (same needle) with
  | some i => some (i, table)
  | none => if table.length < limit then some (table.length, table ++ [needle]) else none

/-- What a search can end in. -/
inductive Interned (same : α → α → Bool) (table : List α) (needle : α) : Nat → List α → Prop
  | found {i : Nat} {entry : α} (hget : table[i]? = some entry) (hsame : same needle entry = true) :
      Interned same table needle i table
  | added (habsent : ∀ entry ∈ table, same needle entry = false) :
      Interned same table needle table.length (table ++ [needle])

theorem intern_spec {same : α → α → Bool} {limit i : Nat} {table table' : List α} {needle : α}
    (h : intern same limit table needle = some (i, table')) :
    Interned same table needle i table' := by
  rw [intern] at h
  cases hfind : table.findIdx? (same needle) with
  | some j =>
    rw [hfind] at h
    cases h
    obtain ⟨hlt, hsame, -⟩ := findIdx?_eq_some_iff_getElem.mp hfind
    exact .found (getElem?_eq_getElem hlt) hsame
  | none =>
    rw [hfind] at h
    simp only at h
    split at h
    · cases h
      exact .added (by simpa using findIdx?_eq_none_iff.mp hfind)
    · cases h

end Lunaria.Lib
