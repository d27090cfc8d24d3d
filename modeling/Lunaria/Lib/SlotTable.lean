/-
# Tables that end at their first hole

A table of slots in which every loop stops at the first slot that is not in use. An entry is placed
in the first hole, a search sees the entries before it, and clearing entries makes holes that hide
what stands behind. As long as every entry has one of its key in sight, the hidden ones do not
matter to a search; clearing keeps it so exactly when what it hides is repeated before.
-/

import Mathlib.Data.List.TakeWhile
import Mathlib.Tactic.Common

namespace Lunaria.Lib.SlotTable

open List

variable {α : Type*} {κ : Type*} (used : α → Bool)

def visible (slots : List α) : List α := slots.takeWhile used

def entries (slots : List α) : List α := slots.filter used

/-- Place an entry in the first hole. -/
def place (entry : α) : List α → Option (List α)
  | [] => none
  | slot :: slots =>
    if used slot then (place entry slots).map (slot :: ·) else some (entry :: slots)

/-- Clear some of the entries in sight. -/
def clear (blank : α) (p : α → Bool) : List α → List α
  | [] => []
  | slot :: slots =>
    if used slot then (if p slot then blank else slot) :: clear blank p slots else slot :: slots

/-- Every entry has one of its key in sight. -/
def Shadowed (key : α → κ) (slots : List α) : Prop :=
  ∀ entry ∈ slots, used entry = true → ∃ first ∈ visible used slots, key first = key entry

/-- What is not to be cleared has one of its key before everything that is. -/
def Repeated (key : α → κ) (p : α → Bool) (slots : List α) : Prop :=
  ∀ entry ∈ visible used slots, p entry = false →
    ∃ first ∈ (visible used slots).takeWhile fun e => !p e, key first = key entry

instance repeatedDecidable [DecidableEq κ] (key : α → κ) (p : α → Bool) (slots : List α) :
    Decidable (Repeated used key p slots) :=
  inferInstanceAs (Decidable (∀ entry ∈ visible used slots, p entry = false →
    ∃ first ∈ (visible used slots).takeWhile fun e => !p e, key first = key entry))

variable {used} {key : α → κ} {entry : α} {slots slots' : List α}

theorem used_of_mem_visible (h : entry ∈ visible used slots) : used entry :=
  mem_takeWhile_imp h

theorem mem_of_mem_visible (h : entry ∈ visible used slots) : entry ∈ slots :=
  (List.takeWhile_prefix used).subset h

/-! ## Placing -/

/-- The entry stands where the hole was. -/
theorem place_eq_some (h : place used entry slots = some slots') :
    ∃ hole rest, used hole = false ∧ slots = visible used slots ++ hole :: rest ∧
      slots' = visible used slots ++ entry :: rest := by
  induction slots generalizing slots' with
  | nil => cases h
  | cons slot slots ih =>
    rw [place] at h
    cases hslot : used slot with
    | true =>
      rw [if_pos hslot] at h
      obtain ⟨placed, hplaced, rfl⟩ := Option.map_eq_some_iff.mp h
      obtain ⟨hole, rest, hhole, hslots, rfl⟩ := ih hplaced
      have hvisible : visible used (slot :: slots) = slot :: visible used slots :=
        takeWhile_cons_of_pos hslot
      refine ⟨hole, rest, hhole, ?_, ?_⟩
      · rw [hvisible, cons_append, ← hslots]
      · rw [hvisible, cons_append]
    | false =>
      have hnot : ¬ used slot := by rw [hslot]; exact Bool.false_ne_true
      rw [if_neg hnot] at h
      cases h
      rw [visible, takeWhile_cons_of_neg hnot]
      exact ⟨slot, slots, hslot, rfl, rfl⟩

theorem visible_place {rest : List α} (h : slots' = visible used slots ++ entry :: rest) :
    visible used slots' = visible used slots ++ visible used (entry :: rest) := by
  rw [h, visible, takeWhile_append_of_pos fun x hx => used_of_mem_visible hx]
  rfl

theorem Shadowed.place (hshadowed : Shadowed used key slots)
    (h : place used entry slots = some slots') : Shadowed used key slots' := by
  obtain ⟨hole, rest, -, hslots, hplaced⟩ := place_eq_some h
  intro x hx hused
  rw [visible_place hplaced]
  rw [hplaced, mem_append, mem_cons] at hx
  have hold (hmem : x ∈ slots) :
      ∃ first ∈ visible used slots ++ visible used (entry :: rest), key first = key x := by
    obtain ⟨first, hfirst, hkey⟩ := hshadowed x hmem hused
    exact ⟨first, mem_append_left _ hfirst, hkey⟩
  rcases hx with hx | rfl | hx
  · exact hold (mem_of_mem_visible hx)
  · refine ⟨x, mem_append_right _ ?_, rfl⟩
    rw [visible, takeWhile_cons_of_pos hused]
    exact mem_cons_self
  · apply hold
    rw [hslots]
    exact mem_append_right _ (mem_cons_of_mem hole hx)

/-- **A search after placing** finds what it found before, or else the new entry. -/
theorem find?_place [DecidableEq κ] (hshadowed : Shadowed used key slots)
    (h : place used entry slots = some slots') (k : κ) :
    (visible used slots').find? (fun e => key e = k) =
      ((visible used slots).find? fun e => key e = k).or
        (if used entry ∧ key entry = k then some entry else none) := by
  obtain ⟨hole, rest, -, hslots, hplaced⟩ := place_eq_some h
  rw [visible_place hplaced, find?_append]
  cases hfind : (visible used slots).find? fun e => key e = k with
  | some first => rfl
  | none =>
    -- nothing of this key is in sight, so nothing of it is in the table
    have hnone (x : α) (hx : x ∈ rest) (hused : used x) : key x ≠ k := by
      intro hkey
      have hmem : x ∈ slots := by
        rw [hslots]
        exact mem_append_right _ (mem_cons_of_mem hole hx)
      obtain ⟨first, hfirst, hsame⟩ := hshadowed x hmem hused
      exact find?_eq_none.mp hfind first hfirst (by simp [hsame, hkey])
    have hrest : (visible used rest).find? (fun e => key e = k) = none := by
      rw [find?_eq_none]
      intro x hx
      simpa using hnone x (mem_of_mem_visible hx) (used_of_mem_visible hx)
    cases hused : used entry with
    | true =>
      rw [visible, takeWhile_cons_of_pos hused]
      by_cases hkey : key entry = k
      · rw [find?_cons_of_pos (by simpa using hkey), if_pos ⟨rfl, hkey⟩]
      · rw [find?_cons_of_neg (by simpa using hkey), if_neg fun hand => hkey hand.2]
        exact hrest
    | false =>
      rw [visible, takeWhile_cons_of_neg (by simp [hused])]
      rfl

/-! ## Clearing -/

section Clear

variable {blank : α} {p : α → Bool}

theorem visible_clear (hblank : used blank = false) :
    visible used (clear used blank p slots) = (visible used slots).takeWhile fun e => !p e := by
  induction slots with
  | nil => rfl
  | cons slot slots ih =>
    rw [visible] at ih
    cases hslot : used slot with
    | false => simp [visible, clear, hslot]
    | true => cases hp : p slot <;> simp [visible, clear, hslot, hp, hblank, ih]

theorem entries_eq (slots : List α) :
    entries used slots = visible used slots ++ entries used (slots.dropWhile used) := by
  have hvisible : entries used (visible used slots) = visible used slots :=
    filter_eq_self.mpr fun e he => used_of_mem_visible he
  rw [entries, ← hvisible, entries, entries, ← filter_append]
  exact congrArg _ takeWhile_append_dropWhile.symm

section

variable (hblank : used blank = false)
include hblank

theorem entries_clear : entries used (clear used blank p slots) =
      (visible used slots).filter (fun e => !p e) ++ entries used (slots.dropWhile used) := by
  induction slots with
  | nil => rfl
  | cons slot slots ih =>
    rw [entries] at ih
    cases hslot : used slot with
    | false => simp [visible, clear, hslot]
    | true => cases hp : p slot <;> simp [visible, entries, clear, hslot, hp, hblank, ih]

/-- **Exactly the entries that were meant are cleared** if none of them is hidden. -/
theorem entries_clear_iff :
    entries used (clear used blank p slots) = (entries used slots).filter (fun e => !p e) ↔
      ∀ e ∈ slots.dropWhile used, used e → p e = false := by
  rw [entries_clear hblank, entries_eq slots, filter_append, append_cancel_left_eq, eq_comm,
    filter_eq_self]
  simp [entries]

theorem mem_clear (h : entry ∈ clear used blank p slots) (hused : used entry) :
    entry ∈ slots ∧ (p entry → entry ∈ slots.dropWhile used) := by
  induction slots with
  | nil => cases h
  | cons slot slots ih =>
    rw [clear] at h
    by_cases hslot : used slot
    · rw [if_pos hslot] at h
      rw [dropWhile_cons_of_pos hslot]
      rcases mem_cons.mp h with heq | hmem
      · cases hp : p slot with
        | true =>
          rw [if_pos hp] at heq
          rw [heq, hblank] at hused
          cases hused
        | false =>
          rw [hp] at heq
          subst heq
          refine ⟨mem_cons_self, fun htrue => ?_⟩
          rw [hp] at htrue
          cases htrue
      · exact ⟨mem_cons_of_mem slot (ih hmem).1, (ih hmem).2⟩
    · rw [if_neg hslot] at h
      rw [dropWhile_cons_of_neg hslot]
      exact ⟨h, fun _ => h⟩

theorem Shadowed.clear (hkey : ∀ a b, key a = key b → p a = p b)
    (hshadowed : Shadowed used key slots) (hrepeated : Repeated used key p slots)
    (hhidden : ∀ e ∈ slots.dropWhile used, used e → p e = false) :
    Shadowed used key (clear used blank p slots) := by
  intro e he hused
  obtain ⟨hmem, hbehind⟩ := mem_clear hblank he hused
  have hp : p e = false := by
    cases hp : p e with
    | false => rfl
    | true => rw [← hp, hhidden e (hbehind hp) hused]
  obtain ⟨first, hfirst, hsame⟩ := hshadowed e hmem hused
  obtain ⟨first', hfirst', hsame'⟩ := hrepeated first hfirst ((hkey first e hsame).trans hp)
  rw [visible_clear hblank]
  exact ⟨first', hfirst', hsame'.trans hsame⟩

end

variable [DecidableEq κ]

/-- A search for what was not meant finds what it found before. -/
theorem find?_clear (hblank : used blank = false) (hrepeated : Repeated used key p slots) {k : κ}
    (hk : ∀ e ∈ visible used slots, key e = k → p e = false) :
    (visible used (clear used blank p slots)).find? (fun e => key e = k) =
      (visible used slots).find? fun e => key e = k := by
  rw [visible_clear hblank]
  cases hfind : ((visible used slots).takeWhile fun e => !p e).find? fun e => key e = k with
  | some first => exact ((List.takeWhile_prefix _).find?_eq_some hfind).symm
  | none =>
    rw [eq_comm, find?_eq_none]
    intro e he hsame
    have hkey : key e = k := by simpa using hsame
    obtain ⟨first, hfirst, hsame'⟩ := hrepeated e he (hk e he hkey)
    exact find?_eq_none.mp hfind first hfirst (by simp [hsame', hkey])

/-- If such a search still finds something, what it finds was repeated. -/
theorem repeated_of_find? (hblank : used blank = false) (h : ∀ e ∈ visible used slots, p e = false →
      ((visible used (clear used blank p slots)).find? fun e' => key e' = key e).isSome) :
    Repeated used key p slots := by
  intro e he hp
  obtain ⟨first, hfirst⟩ := Option.isSome_iff_exists.mp (h e he hp)
  rw [visible_clear hblank] at hfirst
  have hkey := find?_some hfirst
  exact ⟨first, mem_of_find?_eq_some hfirst, by simpa using hkey⟩

end Clear

end Lunaria.Lib.SlotTable
