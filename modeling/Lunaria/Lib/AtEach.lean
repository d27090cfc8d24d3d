/-
# Properties of every entry of a table

A table is a list addressed by index, and a property may mention the index. The rules
say what has to be shown when one entry is replaced or changed, when an entry is
appended, and when all entries are changed at once.
-/

import Mathlib.Data.List.Basic

namespace Lunaria.Lib

open List Option

universe u

variable {α : Type u} {p : Nat → α → Prop} {l : List α}

def AtEach (p : Nat → α → Prop) (l : List α) : Prop := ∀ i a, l[i]? = some a → p i a

namespace AtEach

theorem set (h : AtEach p l) {i : Nat} {a : α} (ha : p i a) : AtEach p (l.set i a) := by
  intro j b hb
  rw [getElem?_set] at hb
  split at hb
  case isTrue hij =>
    split at hb
    case isTrue => exact hij ▸ some.inj hb ▸ ha
    case isFalse => exact absurd hb (by simp)
  case isFalse => exact h j b hb

theorem modify (h : AtEach p l) {i : Nat} {f : α → α}
    (hf : ∀ a, l[i]? = some a → p i (f a)) : AtEach p (l.modify i f) := by
  intro j b hb
  rw [getElem?_modify] at hb
  obtain ⟨a, ha, rfl⟩ := map_eq_some_iff.mp hb
  by_cases hij : i = j
  · subst hij
    rw [if_pos rfl]
    exact hf a ha
  · rw [if_neg hij]
    exact h j a ha

theorem concat (h : AtEach p l) {a : α} (ha : p l.length a) : AtEach p (l ++ [a]) := by
  intro j b hb
  rw [getElem?_append] at hb
  split at hb
  case isTrue => exact h j b hb
  case isFalse hlen =>
    obtain ⟨hj, hab⟩ := List.getElem?_eq_some_iff.mp hb
    have hj' : j = l.length := by
      simp only [length_singleton] at hj
      omega
    subst hj'
    simp only [Nat.sub_self] at hab
    exact hab ▸ ha

theorem mapIdx (h : AtEach p l) {f : Nat → α → α} (hf : ∀ i a, p i a → p i (f i a)) :
    AtEach p (l.mapIdx f) := by
  intro j b hb
  rw [getElem?_mapIdx] at hb
  obtain ⟨a, ha, rfl⟩ := map_eq_some_iff.mp hb
  exact hf j a (h j a ha)

end AtEach

end Lunaria.Lib
