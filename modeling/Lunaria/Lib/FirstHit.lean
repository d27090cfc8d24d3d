/-
# Searching for two forms

A thing may be in several places, and in each of them in one of two forms. One search asks a place
for both forms before it goes on; another may have something ahead of the places, asks all of them
for the first form and has something else last. This module has the exact condition for the two to
find the same.
-/

import Mathlib.Data.List.Basic

namespace Lunaria.Lib.FirstHit

open List Option

variable {α β : Type*}

def byPlace (f g : α → Option β) (l : List α) : Option β := l.findSome? fun a => (f a).or (g a)

/-- What stands in the second form before the first place with the first form is the same as what
the other search has ahead of it; the first form itself counts where there is nothing. -/
def Uncontested (f g : α → Option β) (ahead : Option β) (l : List α) : Prop :=
  ∀ pre a post w, l = pre ++ a :: post → (∀ x ∈ pre, f x = none) → f a = some w →
    (pre.findSome? g).getD w = ahead.getD w

variable {f g : α → Option β} {l : List α}

theorem byPlace_of_none (h : ∀ a ∈ l, f a = none) : byPlace f g l = l.findSome? g := by
  induction l with
  | nil => rfl
  | cons a l ih =>
    have ih := ih (forall_mem_cons.mp h).2
    rw [byPlace] at ih
    rw [byPlace, findSome?_cons, findSome?_cons, h a mem_cons_self, ih, none_or]

theorem byPlace_of_first {pre post : List α} {a : α} {w : β} (hpre : ∀ x ∈ pre, f x = none)
    (ha : f a = some w) : byPlace f g (pre ++ a :: post) = (pre.findSome? g).or (some w) := by
  have h : byPlace f g pre = pre.findSome? g := byPlace_of_none hpre
  rw [byPlace] at h
  rw [byPlace, findSome?_append, h, findSome?_cons, ha, some_or]

/-- **The two searches** find the same if and only if the first form is uncontested and, where it is
nowhere, the second form is what the other search has last. -/
theorem byPlace_eq_iff {ahead last : Option β}
    (hahead : l.findSome? f = none → ahead.or last = last) :
    byPlace f g l = ahead.or ((l.findSome? f).or last) ↔
      Uncontested f g ahead l ∧ (l.findSome? f = none → l.findSome? g = last) := by
  cases hf : l.findSome? f with
  | none =>
    have hnone := findSome?_eq_none_iff.mp hf
    have huncontested : Uncontested f g ahead l := by
      intro pre a post w hl _ ha
      rw [hnone a (hl ▸ mem_append_right _ mem_cons_self)] at ha
      cases ha
    rw [byPlace_of_none hnone, none_or, hahead hf]
    exact ⟨fun h => ⟨huncontested, fun _ => h⟩, fun h => h.2 rfl⟩
  | some w =>
    -- Whatever stands before the first hit comes first place by place.
    have hfound : ∀ pre a post w', l = pre ++ a :: post → (∀ x ∈ pre, f x = none) →
        f a = some w' → w' = w ∧ byPlace f g l = some ((pre.findSome? g).getD w) := by
      intro pre a post w' hl hpre ha
      have hw : l.findSome? f = some w' :=
        findSome?_eq_some_iff.mpr ⟨pre, a, post, hl, ha, hpre⟩
      cases some.inj (hw.symm.trans hf)
      refine ⟨rfl, ?_⟩
      rw [hl, byPlace_of_first hpre ha, or_some]
    rw [some_or, or_some]
    constructor
    · intro h
      refine ⟨fun pre a post w' hl hpre ha => ?_, nofun⟩
      obtain ⟨rfl, hplace⟩ := hfound pre a post w' hl hpre ha
      exact some.inj (hplace.symm.trans h)
    · rintro ⟨huncontested, -⟩
      obtain ⟨pre, a, post, hl, ha, hpre⟩ := findSome?_eq_some_iff.mp hf
      rw [(hfound pre a post w hl hpre ha).2, huncontested pre a post w hl hpre ha]

end Lunaria.Lib.FirstHit
