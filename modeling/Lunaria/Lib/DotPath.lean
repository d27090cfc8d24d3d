/-
# Paths with dots

A path is a string of components between slashes, among them `.` and `..`. Walking it keeps the
names that lead from the root to where the path has come, at every slash and at the end. A path
that leaves a set of places does so with one of its components.
-/

import Mathlib.Data.List.Basic

namespace Lunaria.Lib.DotPath

open List Option

/-- What a component does: nothing or a dot stays, two dots go up, and a name goes down. -/
inductive Kind
  | here
  | up
  | down

def kind (c : List UInt8) : Kind :=
  if c = [] ∨ c = [46] then .here else if c = [46, 46] then .up else .down

variable (names : List (List UInt8))

def push (c : List UInt8) : List (List UInt8) :=
  match kind c with
  | .here => names
  | .up => names.dropLast
  | .down => names ++ [c]

/-- The names behind the rest of a path, from names and a component already begun. -/
def walk (names : List (List UInt8)) (c : List UInt8) : List UInt8 → List (List UInt8)
  | [] => push names c
  | x :: s => if x = 47 then walk (push names c) [] s else walk names (c ++ [x]) s

def join : List UInt8 := names.flatMap (47 :: ·)

/-- The names behind a path that begins at the root, or else at a directory. -/
def place (cwd : List (List UInt8)) (path : List UInt8) : List (List UInt8) :=
  walk (if path.head? = some 47 then [] else cwd) [] path

/-- The path without dots. -/
def canonical (path : List UInt8) : List UInt8 := join (walk [] [] path)

/-- The places a path comes to, at its slashes and at its end. -/
def stops (names : List (List UInt8)) (c : List UInt8) : List UInt8 → List (List (List UInt8))
  | [] => [push names c]
  | x :: s =>
    if x = 47 then push names c :: stops (push names c) [] s else stops names (c ++ [x]) s

variable {c : List UInt8}

/-! ## Paths -/

/-- A path is walked slash by slash. -/
theorem walk_slash (c u v : List UInt8) :
    walk names c (u ++ 47 :: v) = walk (walk names c u) [] v := by
  induction u generalizing names c with
  | nil => rfl
  | cons x u ih =>
    rw [cons_append, walk, walk]
    by_cases hx : x = 47
    · rw [if_pos hx, if_pos hx, ih]
    · rw [if_neg hx, if_neg hx, ih]

variable {s : List UInt8}

/-- Where a path ends, or ends one of its components. -/
def Stop (u s : List UInt8) : Prop := u = s ∨ ∃ v, s = u ++ 47 :: v

theorem Stop.cons (x : UInt8) {u : List UInt8} (h : Stop u s) : Stop (x :: u) (x :: s) := by
  rcases h with rfl | ⟨v, rfl⟩
  · exact .inl rfl
  · exact .inr ⟨v, rfl⟩

theorem walk_mem_stops {u : List UInt8} (h : Stop u s) : walk names c u ∈ stops names c s := by
  induction u generalizing names c s with
  | nil =>
    rcases h with rfl | ⟨v, rfl⟩
    · exact mem_singleton_self _
    · exact mem_cons_self
  | cons x u ih =>
    obtain ⟨s', rfl, hrest⟩ : ∃ s', s = x :: s' ∧ Stop u s' := by
      rcases h with rfl | ⟨v, rfl⟩
      · exact ⟨u, rfl, .inl rfl⟩
      · exact ⟨u ++ 47 :: v, rfl, .inr ⟨v, rfl⟩⟩
    rw [walk, stops]
    by_cases hx : x = 47
    · rw [if_pos hx, if_pos hx]
      exact mem_cons_of_mem _ (ih _ hrest)
    · rw [if_neg hx, if_neg hx]
      exact ih _ hrest

/-- A path that starts inside and comes to a place outside leaves with one of its components. -/
theorem exists_leaving {P : List (List UInt8) → Prop} {names : List (List UInt8)} (hin : P names)
    (hc : 47 ∉ c) (h : ¬ ∀ place ∈ stops names c s, P place) :
    ∃ u names' c', Stop u s ∧ walk names c u = push names' c' ∧ 47 ∉ c' ∧ P names' ∧
      ¬ P (push names' c') := by
  induction s generalizing names c with
  | nil => exact ⟨[], names, c, .inl rfl, rfl, hc, hin, by simpa [stops] using h⟩
  | cons x s ih =>
    rw [stops] at h
    by_cases hx : x = 47
    · rw [if_pos hx, forall_mem_cons] at h
      by_cases hpush : P (push names c)
      · obtain ⟨u, names', c', hu, hwalk, hout⟩ :=
          ih hpush not_mem_nil fun hall => h ⟨hpush, hall⟩
        exact ⟨x :: u, names', c', hu.cons x, by rw [walk, if_pos hx, hwalk], hout⟩
      · exact ⟨[], names, c, .inr ⟨s, by rw [hx, nil_append]⟩, rfl, hc, hin, hpush⟩
    · rw [if_neg hx] at h
      obtain ⟨u, names', c', hu, hwalk, hout⟩ :=
        ih hin (by simpa [hc] using Ne.symm hx) h
      exact ⟨x :: u, names', c', hu.cons x, by rw [walk, if_neg hx, hwalk], hout⟩

/-! ## Lengths -/

theorem join_append (names names' : List (List UInt8)) :
    join (names ++ names') = join names ++ join names' := flatMap_append

theorem join_push_length (c : List UInt8) :
    (join (push names c)).length ≤ (join names).length + c.length + 1 := by
  unfold push
  cases kind c with
  | here => exact Nat.le_add_right_of_le (Nat.le_add_right ..)
  | up =>
    have hsplit : (join names).length =
        (join names.dropLast).length + (join (names.drop (names.length - 1))).length := by
      rw [← length_append, ← join_append, dropLast_eq_take, take_append_drop]
    dsimp only
    omega
  | down =>
    have hlast : (join [c]).length = c.length + 1 := by simp [join]
    rw [join_append, length_append, hlast]
    exact Nat.le_of_eq (Nat.add_assoc ..).symm

/-- A path without dots is hardly longer than the path. -/
theorem join_walk_length (c s : List UInt8) :
    (join (walk names c s)).length ≤ (join names).length + c.length + s.length + 1 := by
  induction s generalizing names c with
  | nil => exact join_push_length names c
  | cons x s ih =>
    rw [walk, length_cons]
    by_cases hx : x = 47
    · have hpush := join_push_length names c
      have hrest := ih (push names c) []
      rw [if_pos hx]
      rw [length_nil] at hrest
      omega
    · have hrest := ih names (c ++ [x])
      rw [if_neg hx]
      rw [length_append, length_singleton] at hrest
      omega

/-- A last component. -/
theorem walk_of_no_slash (h : ∀ x ∈ s, x ≠ 47) : walk names c s = push names (c ++ s) := by
  induction s generalizing c with
  | nil => rw [walk, append_nil]
  | cons x s ih =>
    rw [walk, if_neg (h x mem_cons_self), ih (forall_mem_cons.mp h).2, append_assoc]
    rfl

/-! ## Endings -/

theorem push_of_long (h : 2 < c.length) : push names c = names ++ [c] := by
  have hhere : ¬ (c = [] ∨ c = [46]) := by rintro (rfl | rfl) <;> contradiction
  have hup : c ≠ [46, 46] := by
    rintro rfl
    contradiction
  rw [push, kind, if_neg hhere, if_neg hup]

/-- An ending that is longer than the first name does not decide about that name. -/
theorem head?_walk_append {names : List (List UInt8)} {first t t' : List UInt8}
    (ht : ∀ x ∈ t, x ≠ 47) (ht' : ∀ x ∈ t', x ≠ 47) (hlong : 2 < t.length) (hlong' : 2 < t'.length)
    (hfirst : first.length < t.length) (h : (walk names c (s ++ t)).head? = some first) :
    (walk names c (s ++ t')).head? = some first := by
  induction s generalizing names c with
  | nil =>
    have hlength : ∀ u : List UInt8, u.length ≤ (c ++ u).length := fun u => by
      rw [length_append]
      exact Nat.le_add_left ..
    rw [nil_append, walk_of_no_slash _ ht,
      push_of_long _ (Nat.lt_of_lt_of_le hlong (hlength t))] at h
    rw [nil_append, walk_of_no_slash _ ht', push_of_long _ (Nat.lt_of_lt_of_le hlong' (hlength t'))]
    cases names with
    | nil =>
      have hname : c ++ t = first := some.inj h
      rw [← hname] at hfirst
      exact absurd hfirst (Nat.not_lt.mpr (hlength t))
    | cons name names => exact h
  | cons x s ih =>
    rw [cons_append, walk] at h ⊢
    by_cases hx : x = 47
    · rw [if_pos hx] at h ⊢
      exact ih h
    · rw [if_neg hx] at h ⊢
      exact ih h

end Lunaria.Lib.DotPath
