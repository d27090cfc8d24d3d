/-
# Association lists with a capacity

A store of pairs that is searched from its beginning. Storing under a key that is there overwrites
the value in place; any other key is put behind the last as long as there is room, and dropped
silently when there is none. What a lookup finds afterwards depends on that alone.
-/

import Mathlib.Tactic.Common

namespace Lunaria.Lib.BoundedMap

open List

variable {κ : Type*} {α : Type*} [BEq κ]

def overwrite (key : κ) (value : α) : List (κ × α) → List (κ × α)
  | [] => []
  | entry :: entries =>
    if entry.1 == key then (entry.1, value) :: entries else entry :: overwrite key value entries

/-- Overwrite, or add while there is room. -/
def store (capacity : Nat) (key : κ) (value : α) (entries : List (κ × α)) : List (κ × α) :=
  if (entries.lookup key).isSome then overwrite key value entries
  else if entries.length < capacity then entries ++ [(key, value)]
  else entries

/-- There is room for the key: it is there, or there is a free place. -/
def Fits (capacity : Nat) (key : κ) (entries : List (κ × α)) : Prop :=
  (entries.lookup key).isSome = true ∨ entries.length < capacity

instance fitsDecidable (capacity : Nat) (key : κ) (entries : List (κ × α)) :
    Decidable (Fits capacity key entries) :=
  inferInstanceAs (Decidable (_ ∨ _))

variable {key : κ} {value : α} {entries : List (κ × α)}

theorem store_of_not_fits {capacity : Nat} (h : ¬ Fits capacity key entries) :
    store capacity key value entries = entries := by
  rw [Fits, not_or] at h
  rw [store, if_neg h.1, if_neg h.2]

section Lookup

variable [LawfulBEq κ]

theorem lookup_overwrite_self (h : (entries.lookup key).isSome) :
    (overwrite key value entries).lookup key = some value := by
  induction entries with
  | nil => cases h
  | cons entry entries ih =>
    obtain ⟨k, v⟩ := entry
    by_cases hk : k = key
    · simp [overwrite, hk]
    have hne : (key == k) = false := by simpa using Ne.symm hk
    have hne' : ¬ (k == key) := by simpa using hk
    rw [lookup_cons, hne] at h
    rw [overwrite, if_neg hne', lookup_cons, hne]
    exact ih h

theorem lookup_overwrite_of_ne {other : κ} (h : other ≠ key) :
    (overwrite key value entries).lookup other = entries.lookup other := by
  induction entries with
  | nil => rfl
  | cons entry entries ih =>
    obtain ⟨k, v⟩ := entry
    by_cases hk : (k == key)
    · have hne : (other == k) = false := by simpa [beq_iff_eq.mp hk] using h
      rw [overwrite, if_pos hk, lookup_cons, lookup_cons, hne]
    · rw [overwrite, if_neg hk, lookup_cons, lookup_cons, ih]

theorem lookup_store_self {capacity : Nat} (h : Fits capacity key entries) :
    (store capacity key value entries).lookup key = some value := by
  rw [store]
  by_cases hthere : (entries.lookup key).isSome
  · rw [if_pos hthere]
    exact lookup_overwrite_self hthere
  · have hroom := h.resolve_left hthere
    have hnone : entries.lookup key = none := Option.not_isSome_iff_eq_none.mp hthere
    rw [if_neg hthere, if_pos hroom, lookup_append, hnone]
    simp

theorem lookup_store_of_ne (capacity : Nat) {other : κ} (h : other ≠ key) :
    (store capacity key value entries).lookup other = entries.lookup other := by
  rw [store]
  split
  · exact lookup_overwrite_of_ne h
  split
  · have hne : (other == key) = false := by simpa using h
    rw [lookup_append, lookup_cons, hne]
    simp
  · rfl

end Lookup

end Lunaria.Lib.BoundedMap
