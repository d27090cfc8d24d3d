/-
# Ordered multimaps

The C++ `std::multimap`: entries in ascending key order, equal keys in insertion
order. The order is part of the type, so every traversal from a lower bound sees
keys in the order the library guarantees. `reapFrom` is the erase-while-walking
loop: from the lower bound of a key on, erase entries that fail validation, and
stop by erasing and returning the first one that passes.
-/

import Mathlib.Order.Lattice
import Mathlib.Data.List.Basic
import Mathlib.Data.List.Perm.Basic
import Mathlib.Tactic.Common

namespace Lunaria.Lib

open List

universe u v

/-- Key-value entries in ascending key order. -/
structure Multimap (κ : Type u) (α : Type v) [LinearOrder κ] where
  entries : List (κ × α)
  sorted : entries.Pairwise fun first second => first.1 ≤ second.1

namespace Multimap

variable {κ : Type u} {α : Type v} [LinearOrder κ]

@[ext]
theorem ext {first second : Multimap κ α} (h : first.entries = second.entries) :
    first = second := by
  cases first
  cases second
  simpa using h

def empty : Multimap κ α := ⟨[], List.Pairwise.nil⟩

instance : EmptyCollection (Multimap κ α) := ⟨empty⟩

@[simp]
theorem entries_empty : (∅ : Multimap κ α).entries = [] := rfl

/-- Insert behind every entry whose key is not larger. -/
def insertEntry (key : κ) (value : α) : List (κ × α) → List (κ × α)
  | [] => [(key, value)]
  | entry :: rest =>
    if entry.1 ≤ key then entry :: insertEntry key value rest
    else (key, value) :: entry :: rest

variable (key : κ) (stale : κ × α → Bool) (value : α) (table : Multimap κ α)

theorem insertEntry_perm (entries : List (κ × α)) :
    (insertEntry key value entries).Perm ((key, value) :: entries) := by
  induction entries with
  | nil => exact List.Perm.refl _
  | cons entry rest ih =>
    rw [insertEntry]
    split
    · exact (ih.cons entry).trans (List.Perm.swap ..)
    · exact List.Perm.refl _

theorem insertEntry_sorted {entries : List (κ × α)}
    (h : entries.Pairwise fun first second => first.1 ≤ second.1) :
    (insertEntry key value entries).Pairwise fun first second => first.1 ≤ second.1 := by
  induction entries with
  | nil => simp [insertEntry]
  | cons entry rest ih =>
    obtain ⟨hhead, htail⟩ := pairwise_cons.mp h
    rw [insertEntry]
    split
    · rename_i hle
      refine pairwise_cons.mpr ⟨fun other hother => ?_, ih htail⟩
      rcases mem_cons.mp ((insertEntry_perm key value rest).mem_iff.mp hother) with
        rfl | hrest
      · exact hle
      · exact hhead other hrest
    · rename_i hlt
      refine pairwise_cons.mpr ⟨fun other hother => ?_, h⟩
      have hkey : key ≤ entry.1 := le_of_lt (not_le.mp hlt)
      rcases mem_cons.mp hother with rfl | hrest
      · exact hkey
      · exact le_trans hkey (hhead other hrest)

def insert : Multimap κ α :=
  ⟨insertEntry key value table.entries, insertEntry_sorted key value table.sorted⟩

theorem insert_perm : (table.insert key value).entries.Perm ((key, value) :: table.entries) :=
  insertEntry_perm key value table.entries

/-- Walk from `lower_bound(key)`, erasing stale entries; the first other one is erased and returned,
with what remains behind it. -/
def reapEntries (key : κ) (stale : κ × α → Bool) : List (κ × α) → Option (κ × α) × List (κ × α)
  | [] => (none, [])
  | entry :: rest =>
    if entry.1 < key then
      let found := reapEntries key stale rest
      (found.1, entry :: found.2)
    else if stale entry then reapEntries key stale rest
    else (some entry, rest)

theorem reapEntries_sublist (entries : List (κ × α)) :
    (reapEntries key stale entries).2.Sublist entries := by
  induction entries with
  | nil => exact List.Sublist.refl _
  | cons entry rest ih =>
    rw [reapEntries]
    split
    · exact ih.cons_cons entry
    · split
      · exact ih.cons entry
      · exact sublist_cons_self entry rest

/-- The erase-while-walking loop on the multimap itself. -/
def reapFrom :
    Option (κ × α) × Multimap κ α :=
  ((reapEntries key stale table.entries).1, ⟨(reapEntries key stale table.entries).2,
      table.sorted.sublist (reapEntries_sublist key stale table.entries)⟩)

variable {key : κ} {stale : κ × α → Bool} {table left : Multimap κ α} {entry : κ × α}

/-- What the loop keeps was there before. -/
theorem reapFrom_sublist {found : Option (κ × α)} (h : table.reapFrom key stale = (found, left)) :
    left.entries.Sublist table.entries := by
  obtain rfl := congrArg Prod.snd h
  exact reapEntries_sublist key stale table.entries

/-- A returned entry was present, is large enough, and passed validation. -/
theorem reapFrom_some (h : table.reapFrom key stale = (some entry, left)) :
    entry ∈ table.entries ∧ key ≤ entry.1 ∧ stale entry = false := by
  replace h : (reapEntries key stale table.entries).1 = some entry := congrArg Prod.fst h
  generalize table.entries = entries at h
  induction entries with
  | nil => simp [reapEntries] at h
  | cons head rest ih =>
    rw [reapEntries] at h
    split at h
    · obtain ⟨hmem, hrest⟩ := ih h
      exact ⟨mem_cons_of_mem _ hmem, hrest⟩
    rename_i hkey
    split at h
    · obtain ⟨hmem, hrest⟩ := ih h
      exact ⟨mem_cons_of_mem _ hmem, hrest⟩
    · rename_i hstale
      cases h
      exact ⟨mem_cons_self, not_lt.mp hkey, by simpa using hstale⟩

/-- When validation rejects nothing, a returned entry is the only one removed. -/
theorem reapFrom_perm (hvalid : ∀ e ∈ table.entries, stale e = false)
    (h : table.reapFrom key stale = (some entry, left)) :
    table.entries.Perm (entry :: left.entries) := by
  obtain rfl := congrArg Prod.snd h
  replace h : (reapEntries key stale table.entries).1 = some entry := congrArg Prod.fst h
  simp only [reapFrom]
  generalize table.entries = entries at h hvalid
  induction entries with
  | nil => simp [reapEntries] at h
  | cons head rest ih =>
    have hrest : ∀ e ∈ rest, stale e = false := (forall_mem_cons.mp hvalid).2
    rw [reapEntries] at h ⊢
    split
    · rename_i hkey
      rw [if_pos hkey] at h
      exact ((ih h hrest).cons head).trans (List.Perm.swap ..)
    rename_i hkey
    rw [if_neg hkey, if_neg (by simp [hvalid head mem_cons_self])] at h
    rw [if_neg (by simp [hvalid head mem_cons_self])]
    cases h
    exact List.Perm.refl _

/-- Entries below the key are walked over: nothing is returned and nothing changes. -/
theorem reapFrom_of_lt
    (h : ∀ e ∈ table.entries, e.1 < key) : table.reapFrom key stale = (none, table) := by
  rcases table with ⟨entries, sorted⟩
  have hwalk : reapEntries key stale entries = (none, entries) := by
    simp only at h
    clear sorted
    induction entries with
    | nil => rfl
    | cons head rest ih =>
      rw [reapEntries, if_pos (h head mem_cons_self), ih (forall_mem_cons.mp h).2]
  apply Prod.ext
  · show (reapEntries key stale entries).1 = none
    rw [hwalk]
  · apply ext
    show (reapEntries key stale entries).2 = entries
    rw [hwalk]

section

variable (hvalid : ∀ e ∈ table.entries, stale e = false)
  (h : table.reapFrom key stale = (none, left))
include hvalid h

/-- When validation rejects nothing and nothing is returned, every entry is below the key. -/
theorem lt_of_reapFrom_none : ∀ e ∈ table.entries, e.1 < key := by
  replace h : (reapEntries key stale table.entries).1 = none := congrArg Prod.fst h
  generalize table.entries = entries at h hvalid
  induction entries with
  | nil => simp
  | cons head rest ih =>
    have hrest : ∀ e ∈ rest, stale e = false := (forall_mem_cons.mp hvalid).2
    rw [reapEntries] at h
    split at h
    · rename_i hkey
      exact forall_mem_cons.mpr ⟨hkey, ih h hrest⟩
    · rw [if_neg (by simp [hvalid head mem_cons_self])] at h
      simp at h

/-- When validation rejects nothing and nothing is returned, nothing changed. -/
theorem reapFrom_none : left = table := by
  rw [reapFrom_of_lt (lt_of_reapFrom_none hvalid h)] at h
  exact (congrArg Prod.snd h).symm

end

end Multimap

end Lunaria.Lib
