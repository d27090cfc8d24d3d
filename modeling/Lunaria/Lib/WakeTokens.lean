/-
# Anonymous wake tokens

Waiters are parked at places. A wake leaves tokens at a place instead of naming a waiter,
and whoever comes past consumes one. The question is when the waiters a wake was meant for
can rely on finding theirs. `Owing` is the answer: a list of debts, each to a parked
waiter, such that every place has a token for each of its debts, and debts of a place are
to all of its waiters or to none. The rules say how parking, unparking, a wake and a
passer-by change the accounts.
-/

import Mathlib.Data.List.Basic
import Mathlib.Logic.Function.Basic

namespace Lunaria.Lib

open List

universe u v w

variable {ι : Type u} {κ : Type v} {δ : Type w} [DecidableEq κ]

def debtsOn (on : δ → κ) (owed : List δ) (a : κ) : List δ := owed.filter fun d => decide (on d = a)

/-- Every debt is to a parked waiter, there is a token for each of them, and a place with a
debt owes all of its waiters. -/
structure Owing (who : δ → ι) (on : δ → κ) (place : ι → Option κ) (tokens : κ → Nat)
    (owed : List δ) : Prop where
  parked : ∀ d ∈ owed, place (who d) = some (on d)
  covered : ∀ a, (debtsOn on owed a).length ≤ tokens a
  all : ∀ d ∈ owed, ∀ i, place i = some (on d) → ∃ d' ∈ owed, who d' = i

namespace Owing

variable {who : δ → ι} {on : δ → κ} {place : ι → Option κ} {tokens : κ → Nat} {owed : List δ}
variable {i : ι} {a : κ}

section

variable (h : Owing who on place tokens owed)
include h

/-- A place with a debt has a token. -/
theorem token_pos {d : δ} (hd : d ∈ owed) : 0 < tokens (on d) := by
  have hmem : d ∈ debtsOn on owed (on d) := mem_filter.mpr ⟨hd, by simp⟩
  exact Nat.lt_of_lt_of_le (length_pos_of_mem hmem) (h.covered (on d))

theorem ne_of_unparked (hi : place i = none) {d : δ} (hd : d ∈ owed) : who d ≠ i := by
  intro heq
  exact absurd (hi.symm.trans (heq ▸ h.parked d hd)) (by simp)

theorem ne_of_no_token (hi : place i = some a)
    (ha : tokens a = 0) {d : δ} (hd : d ∈ owed) : who d ≠ i := by
  intro heq
  have hon : a = on d := Option.some.inj (hi.symm.trans (heq ▸ h.parked d hd))
  exact Nat.ne_of_gt (h.token_pos hd) (hon ▸ ha)

/-- A passer-by takes a token that no debt needs. -/
theorem take (hspare : (debtsOn on owed a).length < tokens a) :
    Owing who on place (Function.update tokens a (tokens a - 1)) owed where
  parked := h.parked
  covered := by
    intro b
    by_cases hb : b = a
    · subst hb
      rw [Function.update_self]
      exact Nat.le_sub_one_of_lt hspare
    · rw [Function.update_of_ne hb]
      exact h.covered b
  all := h.all

/-- A wake for all waiters of a place leaves at least as many tokens as there are new
debts. -/
theorem wake {new : List δ} {n : Nat}
    (hnew : ∀ d ∈ new, place (who d) = some a ∧ on d = a) (hlen : new.length ≤ n)
    (hall : new ≠ [] → ∀ i, place i = some a → ∃ d ∈ owed ++ new, who d = i) :
    Owing who on place (Function.update tokens a (tokens a + n)) (owed ++ new) where
  parked := by
    intro d hd
    rcases mem_append.mp hd with hd | hd
    · exact h.parked d hd
    · obtain ⟨hplace, hon⟩ := hnew d hd
      rw [hplace, hon]
  covered := by
    intro b
    have happend : (debtsOn on (owed ++ new) b).length =
        (debtsOn on owed b).length + (debtsOn on new b).length := by
      rw [debtsOn, filter_append, length_append]
      rfl
    rw [happend]
    by_cases hb : b = a
    · subst hb
      rw [Function.update_self]
      exact Nat.add_le_add (h.covered b) (Nat.le_trans (length_filter_le ..) hlen)
    have hnone : debtsOn on new b = [] := by
      refine filter_eq_nil_iff.mpr fun d hd => ?_
      simpa [(hnew d hd).2] using Ne.symm hb
    rw [Function.update_of_ne hb, hnone]
    exact h.covered b
  all := by
    intro d hd j hj
    rcases mem_append.mp hd with hd | hd
    · obtain ⟨d', hd', hwho⟩ := h.all d hd j hj
      exact ⟨d', mem_append_left _ hd', hwho⟩
    · exact hall (ne_nil_of_mem hd) j (by rw [hj, (hnew d hd).2])

end

end Owing

variable [DecidableEq ι]

/-- The debts without those to waiter `i`. -/
def settle (who : δ → ι) (owed : List δ) (i : ι) : List δ := owed.filter fun d => decide (who d ≠ i)

namespace Owing

variable {who : δ → ι} {on : δ → κ} {place : ι → Option κ} {tokens : κ → Nat} {owed : List δ}
variable {i : ι} {a : κ}

/-- A waiter parks where no token is left. -/
theorem park (h : Owing who on place tokens owed) (hi : place i = none) (ha : tokens a = 0) :
    Owing who on (Function.update place i (some a)) tokens owed where
  parked := by
    intro d hd
    rw [Function.update_of_ne (h.ne_of_unparked hi hd)]
    exact h.parked d hd
  covered := h.covered
  all := by
    intro d hd j hj
    by_cases hji : j = i
    · subst hji
      rw [Function.update_self] at hj
      have hon : a = on d := Option.some.inj hj
      exact absurd (h.token_pos hd) (by rw [← hon, ha]; exact Nat.lt_irrefl 0)
    · rw [Function.update_of_ne hji] at hj
      exact h.all d hd j hj

/-- Settling what is owed to one waiter when that waiter leaves, whatever happens to the
tokens, as long as they still cover the rest. -/
theorem unpark (h : Owing who on place tokens owed) (i : ι) {tokens' : κ → Nat}
    (hcovered : ∀ b, (debtsOn on (settle who owed i) b).length ≤ tokens' b) :
    Owing who on (Function.update place i none) tokens' (settle who owed i) where
  parked := by
    intro d hd
    obtain ⟨hd, hne⟩ := mem_filter.mp hd
    rw [Function.update_of_ne (by simpa using hne)]
    exact h.parked d hd
  covered := hcovered
  all := by
    intro d hd j hj
    have hji : j ≠ i := by
      rintro rfl
      simp at hj
    rw [Function.update_of_ne hji] at hj
    obtain ⟨d', hd', rfl⟩ := h.all d (mem_of_mem_filter hd) j hj
    exact ⟨d', mem_filter.mpr ⟨hd', by simpa using hji⟩, rfl⟩

theorem length_settle_le (who : δ → ι) (on : δ → κ) (owed : List δ) (i : ι) (b : κ) :
    (debtsOn on (settle who owed i) b).length ≤ (debtsOn on owed b).length :=
  (filter_sublist.filter _).length_le

/-- A waiter leaves with a token: if its place has debts, one of them was to it. -/
theorem unpark_token (h : Owing who on place tokens owed) (hi : place i = some a) :
    Owing who on (Function.update place i none) (Function.update tokens a (tokens a - 1))
      (settle who owed i) := by
  refine h.unpark i fun b => ?_
  by_cases hb : b = a
  · subst hb
    rw [Function.update_self]
    cases hdebts : debtsOn on owed b with
    | nil =>
      have hle := length_settle_le who on owed i b
      rw [hdebts] at hle
      exact Nat.le_trans hle (Nat.zero_le _)
    | cons d rest =>
      obtain ⟨hd, hon⟩ := mem_filter.mp (hdebts ▸ mem_cons_self : d ∈ debtsOn on owed b)
      have hon : on d = b := by simpa using hon
      obtain ⟨d', hd', hwho⟩ := h.all d hd i (hon ▸ hi)
      have hon' : b = on d' := Option.some.inj (hi.symm.trans (hwho ▸ h.parked d' hd'))
      have hlt : (debtsOn on (settle who owed i) b).length < (debtsOn on owed b).length := by
        rw [debtsOn, settle, filter_comm]
        refine length_filter_lt_length_iff_exists.mpr ⟨d', ?_, by simp [hwho]⟩
        exact mem_filter.mpr ⟨hd', by simp [hon']⟩
      exact Nat.le_sub_one_of_lt (Nat.lt_of_lt_of_le hlt (h.covered b))
  · rw [Function.update_of_ne hb]
    exact Nat.le_trans (length_settle_le who on owed i b) (h.covered b)

/-- A waiter leaves without a token. -/
theorem unpark_free (h : Owing who on place tokens owed) (i : ι) :
    Owing who on (Function.update place i none) tokens (settle who owed i) :=
  h.unpark i fun b => Nat.le_trans (length_settle_le who on owed i b) (h.covered b)

end Owing

end Lunaria.Lib
