/-
# Handing things out for good

A state whose tables only grow hands out answers: an address for a name, a number for a key. An
operation is a handout if it keeps everything handed out before, gives the same answer in every
later state, and stores to an area of its own at most. Handouts compose: a fixed answer is one,
one after another is one, and so is a choice that no later state would make differently.
-/

import Mathlib.Logic.Basic

namespace Lunaria.Lib

/-- States in the order in which their tables grow, what is seen at an address, and an area for
stores, which grows too. -/
structure Growing (σ ω : Type) where
  le : σ → σ → Prop
  seen : σ → Nat → ω
  area : σ → Nat → Prop
  le_refl : ∀ s, le s s
  le_trans : ∀ s s' s'', le s s' → le s' s'' → le s s''
  area_mono : ∀ s s' x, le s s' → area s x → area s' x

variable {σ ω α β : Type} {G : Growing σ ω}

/-- An operation that hands out its answer for good. -/
structure Handout (G : Growing σ ω) (op : σ → α × σ) : Prop where
  grows : ∀ s, G.le s (op s).2
  stable : ∀ s s', G.le (op s).2 s' → (op s').1 = (op s).1
  frame : ∀ s x, ¬ G.area (op s).2 x → G.seen (op s).2 x = G.seen s x

namespace Handout

theorem pure (a : α) : Handout G fun s => (a, s) where
  grows := G.le_refl
  stable _ _ _ := rfl
  frame _ _ _ := rfl

theorem bind {op : σ → α × σ} (h : Handout G op) (next : α → σ → β × σ)
    (hnext : ∀ a, Handout G (next a)) : Handout G fun s => next (op s).1 (op s).2 where
  grows s := G.le_trans _ _ _ (h.grows s) ((hnext _).grows _)
  stable s s' hs := by
    have hmid : G.le (op s).2 s' := G.le_trans _ _ _ ((hnext _).grows _) hs
    simp only [h.stable s s' hmid]
    exact (hnext _).stable _ _ (G.le_trans _ _ _ hs (h.grows s'))
  frame s x hx := by
    have hmid : ¬ G.area (op s).2 x := fun hin => hx (G.area_mono _ _ x ((hnext _).grows _) hin)
    rw [(hnext _).frame _ x hx, h.frame s x hmid]

/-- A choice by something that does not change as the tables grow. -/
theorem select {op : σ → α × σ} (sel : σ → β) (hsel : ∀ s s', G.le s s' → sel s' = sel s)
    (h : ∀ b, ∃ op', Handout G op' ∧ ∀ s, sel s = b → op s = op' s) : Handout G op where
  grows s := by
    obtain ⟨op', hop, heq⟩ := h (sel s)
    rw [heq s rfl]
    exact hop.grows s
  stable s s' hs := by
    obtain ⟨op', hop, heq⟩ := h (sel s)
    rw [heq s rfl] at hs ⊢
    rw [heq s' (hsel s s' (G.le_trans _ _ _ (hop.grows s) hs))]
    exact hop.stable s s' hs
  frame s x hx := by
    obtain ⟨op', hop, heq⟩ := h (sel s)
    rw [heq s rfl] at hx ⊢
    exact hop.frame s x hx

/-- Something built on first use, whose address is kept in a field that is zero before. -/
theorem once (get : σ → Nat) (va : Nat) (build : σ → σ) (hva : va ≠ 0)
    (hkeep : ∀ s s', G.le s s' → get s ≠ 0 → get s' = get s) (hget : ∀ s, get (build s) = va)
    (hgrows : ∀ s, get s = 0 → G.le s (build s))
    (hframe : ∀ s x, ¬ G.area (build s) x → G.seen (build s) x = G.seen s x) :
    Handout G fun s => if get s ≠ 0 then (get s, s) else (va, build s) where
  grows s := by
    by_cases hs : get s ≠ 0
    · rw [if_pos hs]
      exact G.le_refl s
    · rw [if_neg hs]
      exact hgrows s (not_not.mp hs)
  stable s s' h := by
    by_cases hs : get s ≠ 0
    · simp only [if_pos hs] at h ⊢
      rw [hkeep s s' h hs, if_pos hs]
    · simp only [if_neg hs] at h ⊢
      have hbuilt : get (build s) ≠ 0 := (hget s).symm ▸ hva
      rw [hkeep _ s' h hbuilt, if_pos hbuilt, hget]
  frame s x hx := by
    by_cases hs : get s ≠ 0
    · rw [if_pos hs]
    · rw [if_neg hs] at hx ⊢
      exact hframe s x hx

end Handout

end Lunaria.Lib
