/-
# Growable vectors and references into them

A vector owns one block of storage at a time. Appending to a full vector moves every
item to new storage; erasing keeps the storage and moves the later items down. A
reference is a place in one block of storage, so it survives neither move. What is
written through it reaches the item that now occupies the place, or no item at all
when the block has been given up. The lemmas say when a place still holds the item
it was taken for.
-/

import Mathlib.Data.List.Basic

namespace Lunaria.Lib

open List Option

universe u

/-- A vector with its capacity and the identity of the storage it occupies. -/
structure CppVector (α : Type u) where
  items : List α
  capacity : Nat
  storage : Nat
  fits : items.length ≤ capacity

namespace CppVector

variable {α : Type u}

def empty : CppVector α := ⟨[], 0, 0, Nat.le_refl 0⟩

/-- There is room for one more item in the current storage. -/
def HasRoom (v : CppVector α) : Prop := v.items.length < v.capacity

instance hasRoomDecidable (v : CppVector α) : Decidable v.HasRoom :=
  inferInstanceAs (Decidable (_ < _))

/-- `push_back`. A full vector doubles, which gives up the old storage. -/
def pushBack (v : CppVector α) (item : α) : CppVector α :=
  if h : v.HasRoom then
    ⟨v.items ++ [item], v.capacity, v.storage, by
      rw [List.length_append]
      exact h⟩
  else
    ⟨v.items ++ [item], v.items.length + max v.items.length 1, v.storage + 1, by
      simp only [List.length_append, List.length_singleton]
      omega⟩

/-- `erase(remove_if(…), end())`. -/
def removeIf (v : CppVector α) (erased : α → Bool) : CppVector α :=
  ⟨v.items.filter fun item => !erased item, v.capacity, v.storage,
    Nat.le_trans (List.length_filter_le _ _) v.fits⟩

/-- Write to the item at a position of the vector, if there is one. -/
def modify (v : CppVector α) (i : Nat) (write : α → α) : CppVector α :=
  ⟨v.items.modify i write, v.capacity, v.storage, by simpa using v.fits⟩

/-- A loop over the vector that writes to the first match and breaks. -/
def modifyFirst (v : CppVector α) (p : α → Bool) (write : α → α) : CppVector α :=
  v.modify (v.items.findIdx p) write

/-- A reference: a place in a block of storage. -/
structure Ref where
  storage : Nat
  index : Nat
  deriving DecidableEq

/-- `&v[i]`. -/
def ref (v : CppVector α) (i : Nat) : Ref := ⟨v.storage, i⟩

/-- Write through a reference. A reference into storage the vector has given up
reaches none of its items. -/
def modifyRef (v : CppVector α) (r : Ref) (write : α → α) : CppVector α :=
  if r.storage = v.storage then v.modify r.index write else v

@[simp]
theorem items_pushBack (v : CppVector α) (item : α) :
    (v.pushBack item).items = v.items ++ [item] := by
  unfold pushBack
  split <;> rfl

variable {v : CppVector α}

theorem storage_pushBack (h : v.HasRoom) (item : α) : (v.pushBack item).storage = v.storage := by
  rw [pushBack, dif_pos h]

theorem storage_pushBack_of_full (h : ¬ v.HasRoom) (item : α) :
    (v.pushBack item).storage = v.storage + 1 := by
  rw [pushBack, dif_neg h]

theorem storage_le_pushBack (v : CppVector α) (item : α) :
    v.storage ≤ (v.pushBack item).storage := by
  by_cases h : v.HasRoom
  · exact Nat.le_of_eq (storage_pushBack h item).symm
  · rw [storage_pushBack_of_full h]
    exact Nat.le_succ _

@[simp]
theorem items_removeIf (v : CppVector α) (erased : α → Bool) :
    (v.removeIf erased).items = v.items.filter fun item => !erased item := rfl

@[simp]
theorem items_modify (v : CppVector α) (i : Nat) (write : α → α) :
    (v.modify i write).items = v.items.modify i write := rfl

theorem modifyRef_of_current {r : Ref} (h : r.storage = v.storage)
    (write : α → α) : v.modifyRef r write = v.modify r.index write :=
  if_pos h

theorem modifyRef_of_stale {r : Ref} (h : r.storage ≠ v.storage)
    (write : α → α) : v.modifyRef r write = v :=
  if_neg h

/-- A write through a reference changes at most one item. -/
theorem items_modifyRef (v : CppVector α) (r : Ref) (write : α → α) :
    (v.modifyRef r write).items = v.items ∨
      (v.modifyRef r write).items = v.items.modify r.index write := by
  by_cases h : r.storage = v.storage
  · rw [modifyRef_of_current h]
    exact .inr rfl
  · rw [modifyRef_of_stale h]
    exact .inl rfl

/-! ## Items and what identifies them -/

theorem map_modify_of_fixed {β : Type*} {key : α → β} {write : α → α}
    (hkey : ∀ item, key (write item) = key item) (items : List α) (i : Nat) :
    (items.modify i write).map key = items.map key := by
  induction items generalizing i with
  | nil => simp
  | cons item items ih =>
    cases i with
    | zero => simp [hkey]
    | succ i => simp [ih i]

/-- An item of the modified list is an old one, or the one at the place as it was written. -/
theorem mem_modify {items : List α} {i : Nat} {write : α → α} {item : α}
    (h : item ∈ items.modify i write) :
    item ∈ items ∨ ∃ old, items[i]? = some old ∧ item = write old := by
  obtain ⟨k, hk⟩ := mem_iff_getElem?.mp h
  rw [getElem?_modify, Option.map_eq_map, map_eq_some_iff] at hk
  obtain ⟨old, hold, hitem⟩ := hk
  by_cases hik : i = k
  · rw [if_pos hik] at hitem
    exact .inr ⟨old, hik ▸ hold, hitem.symm⟩
  · rw [if_neg hik] at hitem
    exact .inl (hitem ▸ mem_of_getElem? hold)

/-! ## Where an item goes when others are erased -/

/-- Where an item stands once the erased ones are gone, if it is not one of them. -/
def survivor (v : CppVector α) (erased : α → Bool) (i : Nat) : Option Nat :=
  match v.items[i]? with
  | some item =>
    if erased item then none
    else some ((v.items.take i).countP fun other => !erased other)
  | none => none

variable {erased : α → Bool} {i k : Nat}

theorem survivor_eq_some (h : v.survivor erased i = some k) : ∃ item, v.items[i]? = some item ∧
      erased item = false ∧ (v.items.take i).countP (fun other => !erased other) = k := by
  unfold survivor at h
  cases hi : v.items[i]? with
  | none => simp [hi] at h
  | some item =>
    simp only [hi] at h
    split at h
    · cases h
    · rename_i hkeep
      exact ⟨item, rfl, by simpa using hkeep, some.inj h⟩

/-- The item found at the survivor's place is the one that stood at `i`. -/
theorem getElem?_survivor
    (h : v.survivor erased i = some k) : (v.removeIf erased).items[k]? = v.items[i]? := by
  obtain ⟨item, hi, hkeep, rfl⟩ := survivor_eq_some h
  obtain ⟨hlt, hitem⟩ := List.getElem?_eq_some_iff.mp hi
  have hsplit : v.items.filter (fun other => !erased other) =
      (v.items.take i).filter (fun other => !erased other) ++
        item :: (v.items.drop (i + 1)).filter fun other => !erased other := by
    conv_lhs => rw [← take_append_drop i v.items]
    rw [filter_append, drop_eq_getElem_cons hlt, hitem, filter_cons_of_pos (by simpa using hkeep)]
  rw [hi, items_removeIf, hsplit, countP_eq_length_filter]
  simp

/-- Erasing moves items down only. -/
theorem survivor_le (h : v.survivor erased i = some k) : k ≤ i := by
  obtain ⟨item, -, -, rfl⟩ := survivor_eq_some h
  exact Nat.le_trans countP_le_length (length_take_le ..)

/-- An item that keeps its place has nothing erased up to and including it. -/
theorem kept_of_survivor (h : v.survivor erased i = some i) :
    ∀ item ∈ v.items.take (i + 1), erased item = false := by
  obtain ⟨item, hi, hkeep, hcount⟩ := survivor_eq_some h
  obtain ⟨hlt, hitem⟩ := List.getElem?_eq_some_iff.mp hi
  have hall : (v.items.take i).countP (fun other => !erased other) = (v.items.take i).length := by
    rw [hcount, length_take_of_le (Nat.le_of_lt hlt)]
  intro other hother
  rw [take_succ_eq_append_getElem hlt, mem_append, mem_singleton] at hother
  rcases hother with hbefore | rfl
  · simpa using countP_eq_length.mp hall other hbefore
  · rw [hitem]
    exact hkeep

/-- An item with nothing erased up to and including it keeps its place. -/
theorem survivor_of_kept
    (hlt : i < v.items.length) (h : ∀ item ∈ v.items.take (i + 1), erased item = false) :
    v.survivor erased i = some i := by
  have hself : erased v.items[i] = false := h _ (mem_take_iff_getElem.mpr ⟨i, by omega, rfl⟩)
  have hbefore : (v.items.take i).countP (fun other => !erased other) = i := by
    rw [countP_eq_length.mpr]
    · simp only [length_take]
      omega
    · intro other hother
      have := h other (take_subset_take_left _ (Nat.le_succ i) hother)
      simp [this]
  simp [survivor, getElem?_eq_getElem hlt, hself, hbefore]

end CppVector

end Lunaria.Lib
