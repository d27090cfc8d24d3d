/-
# Patching cells one after another

A program goes through a list of patches. Each patch stores to its own range and may also store
to a scratch area that only grows. When the ranges are pairwise disjoint and clear of the scratch
area, a patch finds its range as it was in the beginning, what it leaves there stays until the
end, and nothing else changes.
-/

import Lunaria.Lib.ByteMemory
import Lunaria.Lib.Interval
import Lunaria.Lib.Run

namespace Lunaria.Lib

open List

variable {σ ρ ω : Type}

/-- Every step changes only the range of its patch and the scratch area behind the step, and no
step makes the scratch area smaller. -/
structure Patching (step : σ → ρ → σ) (seen : σ → Nat → ω) (target : ρ → Interval)
    (scratch : σ → Nat → Prop) : Prop where
  grows : ∀ s r x, scratch s x → scratch (step s r) x
  frame : ∀ s r x, x ∉ (target r).addresses → ¬ scratch (step s r) x →
    seen (step s r) x = seen s x

namespace Patching

variable {step : σ → ρ → σ} {seen : σ → Nat → ω} {target : ρ → Interval}
  {scratch : σ → Nat → Prop}

/-- Part of what is seen. -/
theorem map {ω' : Type} (h : Patching step seen target scratch) (f : ω → ω') :
    Patching step (fun s x => f (seen s x)) target scratch where
  grows := h.grows
  frame s r x hx hout := congrArg f (h.frame s r x hx hout)

section

variable (h : Patching step seen target scratch)
include h

theorem run_grows (patches : List ρ) {s : σ} {x : Nat}
    (hx : scratch s x) : scratch (run step s patches) x := by
  induction patches generalizing s with
  | nil => exact hx
  | cons r patches ih => exact ih (h.grows s r x hx)

/-- Bytes outside all ranges and outside the scratch area stay as they were. -/
theorem run_frame (patches : List ρ) {s : σ} {x : Nat}
    (hout : ∀ r ∈ patches, x ∉ (target r).addresses) (hx : ¬ scratch (run step s patches) x) :
    seen (run step s patches) x = seen s x := by
  induction patches generalizing s with
  | nil => rfl
  | cons r patches ih =>
    have hfirst : ¬ scratch (step s r) x := fun hin => hx (h.run_grows patches hin)
    rw [run_cons, ih (forall_mem_cons.mp hout).2 hx, h.frame s r x (hout r mem_cons_self) hfirst]

/-- The life of one range: untouched up to its patch, and untouched after it. -/
theorem run_cell {patches : List ρ} {s : σ} {r : ρ}
    (hapart : patches.Pairwise fun r r' => (target r).Misses (target r')) (hr : r ∈ patches)
    (hclear : ∀ x ∈ (target r).addresses, ¬ scratch (run step s patches) x) :
    ∃ before after, patches = before ++ r :: after ∧
      (∀ x ∈ (target r).addresses, seen (run step s before) x = seen s x) ∧
        ∀ x ∈ (target r).addresses,
          seen (run step s patches) x = seen (step (run step s before) r) x := by
  obtain ⟨before, after, rfl⟩ := append_of_mem hr
  rw [pairwise_append, pairwise_cons] at hapart
  obtain ⟨-, ⟨hafter, -⟩, hbefore⟩ := hapart
  have hrun : run step s (before ++ r :: after) =
      run step (step (run step s before) r) after := foldl_append
  refine ⟨before, after, rfl, ?_, ?_⟩
  · intro x hx
    apply h.run_frame before
    · intro r' hr' hin
      exact Set.disjoint_left.mp (hbefore r' hr' r mem_cons_self) hin hx
    · intro hin
      apply hclear x hx
      rw [hrun]
      exact h.run_grows after (h.grows _ r x hin)
  · intro x hx
    rw [hrun] at hclear ⊢
    apply h.run_frame after
    · intro r' hr' hin
      exact Set.disjoint_left.mp (hafter r' hr') hx hin
    · exact hclear x hx

end

/-- The same for a number that is the range, with the rest of the run. -/
theorem run_readLE {mem : σ → ByteMemory} (h : Patching step mem target scratch) {patches : List ρ}
    {s : σ} {r : ρ}
    (hapart : patches.Pairwise fun r r' => (target r).Misses (target r')) (hr : r ∈ patches)
    {a width : Nat} (hrange : target r = ⟨a, a + width⟩)
    (hclear : ∀ i < width, ¬ scratch (run step s patches) (a + i)) :
    ∃ before after, run step s patches = run step (step (run step s before) r) after ∧
      (mem (run step s before)).readLE a width = (mem s).readLE a width ∧
        (mem (run step s patches)).readLE a width =
          (mem (step (run step s before) r)).readLE a width := by
  have hcell : ∀ x ∈ (target r).addresses, ¬ scratch (run step s patches) x := by
    rw [hrange]
    exact fun x hx => Interval.not_of_offsets hclear hx.1 hx.2
  obtain ⟨before, after, rfl, hbefore, hafter⟩ := h.run_cell hapart hr hcell
  refine ⟨before, after, foldl_append, ?_, ?_⟩
  · exact ByteMemory.readLE_congr fun x hlo hhi => hbefore x (hrange ▸ ⟨hlo, hhi⟩)
  · exact ByteMemory.readLE_congr fun x hlo hhi => hafter x (hrange ▸ ⟨hlo, hhi⟩)

end Patching

end Lunaria.Lib
