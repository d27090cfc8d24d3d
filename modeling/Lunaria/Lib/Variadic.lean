/-
# Where a variadic call puts its arguments

The two procedure call standards of the ARM architecture, for the arguments
behind the last named one. On the 32-bit standard they form one stream of words:
a doubleword starts at the next multiple of eight, and everything else at the
next free word. On the 64-bit standard integers take the general registers left,
floating values the vector registers left, and what finds no register takes one
doubleword of the stack, in order of arrival.

The list of classes is arbitrary and so are the numbers of registers left, so
the same functions describe a call and the state of a `va_list` in its middle.
-/

import Mathlib.Tactic.Common

namespace Lunaria.Lib.Variadic

open List

/-- How the standards class an argument after the default promotions. -/
inductive ArgClass
  | word
  | wide
  | floating
  deriving DecidableEq, Repr

namespace ArgClass

/-- Bytes of an argument in the 32-bit stream. -/
def size32 : ArgClass → Nat
  | word => 4
  | wide => 8
  | floating => 8

/-- Where an argument starts when the stream has been used up to `a`. -/
def start32 (a : Nat) : ArgClass → Nat
  | word => a
  | wide => (a + 7) / 8 * 8
  | floating => (a + 7) / 8 * 8

theorem le_start32 (a : Nat) (c : ArgClass) : a ≤ c.start32 a := by
  cases c with
  | word => exact Nat.le_refl a
  | wide | floating => simp only [start32]; omega

/-- In an aligned stream an argument starts at the next free word or behind it. -/
theorem start32_cases {a : Nat} (ha : a % 4 = 0) (c : ArgClass) :
    c.start32 a = a ∨ a + 4 ≤ c.start32 a := by
  cases c with
  | word => exact .inl rfl
  | wide | floating => simp only [start32]; omega

end ArgClass

open ArgClass

/-! ## The 32-bit stream -/

/-- The start of each argument of a stream that begins at `a`. -/
def places32 (a : Nat) : List ArgClass → List Nat
  | [] => []
  | c :: cs => c.start32 a :: places32 (c.start32 a + c.size32) cs

variable {cs : List ArgClass}

theorem le_of_mem_places32 {a p : Nat} (h : p ∈ places32 a cs) : a ≤ p := by
  induction cs generalizing a with
  | nil => cases h
  | cons c cs ih =>
    have hstart := le_start32 a c
    rcases mem_cons.mp h with rfl | hrest
    · exact hstart
    · have hle := ih hrest
      omega

variable {ws : List ArgClass} {c : ArgClass}

/-- Around an argument with only words in front of it: the words stand in a row, and everything
later behind it. -/
theorem places32_cases {a j p : Nat} (hws : ∀ w ∈ ws, w = .word)
    (h : (places32 a (ws ++ c :: cs))[j]? = some p) :
    j < ws.length ∧ p = a + 4 * j ∨ j = ws.length ∧ p = c.start32 (a + 4 * ws.length) ∨
      ws.length < j ∧ c.start32 (a + 4 * ws.length) + c.size32 ≤ p := by
  induction ws generalizing a j with
  | nil =>
    cases j with
    | zero => exact .inr (.inl ⟨rfl, (Option.some.inj h).symm⟩)
    | succ j => exact .inr (.inr ⟨Nat.succ_pos j, le_of_mem_places32 (mem_of_getElem? h)⟩)
  | cons w ws ih =>
    obtain rfl : w = .word := hws w mem_cons_self
    cases j with
    | zero => exact .inl ⟨Nat.succ_pos _, (Option.some.inj h).symm⟩
    | succ j =>
      have hrest := ih (a := a + 4) (forall_mem_cons.mp hws).2 h
      have hstart : a + 4 + 4 * ws.length = a + 4 * (ws.length + 1) := by omega
      rw [hstart] at hrest
      rw [length_cons]
      omega

/-- A stream of words is read word by word. -/
theorem places32_word_getElem? {a j : Nat} (hws : ∀ w ∈ ws, w = .word)
    (hj : j < ws.length) : (places32 a ws)[j]? = some (a + 4 * j) := by
  induction ws generalizing a j with
  | nil => cases hj
  | cons w ws ih =>
    obtain rfl : w = .word := hws w mem_cons_self
    cases j with
    | zero => rfl
    | succ j =>
      have hrest := ih (a := a + 4) (forall_mem_cons.mp hws).2 (Nat.lt_of_succ_lt_succ hj)
      simp only [places32, start32, size32, getElem?_cons_succ, hrest]
      congr 1
      omega

/-! ## Registers, then the stack -/

/-- A general register, a vector register or a doubleword of the stack, counted
from the first one left. -/
inductive Place
  | gr (i : Nat)
  | vr (i : Nat)
  | stack (i : Nat)
  deriving DecidableEq, Repr

/-- What has been handed out: general registers, vector registers, stack. -/
structure Used where
  gr : Nat
  vr : Nat
  stack : Nat

/-- The place of the next argument when `G` general and `V` vector registers are
there to hand out. -/
def place64 (G V : Nat) (u : Used) : ArgClass → Place
  | .floating => if u.vr < V then .vr u.vr else .stack u.stack
  | _ => if u.gr < G then .gr u.gr else .stack u.stack

def Used.take (u : Used) : Place → Used
  | .gr _ => { u with gr := u.gr + 1 }
  | .vr _ => { u with vr := u.vr + 1 }
  | .stack _ => { u with stack := u.stack + 1 }

/-- The place of each argument, from what has been handed out before. -/
def places64 (G V : Nat) (u : Used) : List ArgClass → List Place
  | [] => []
  | c :: cs => place64 G V u c :: places64 G V (u.take (place64 G V u c)) cs

/-- The place has not been handed out. -/
def Used.Free (u : Used) : Place → Prop
  | .gr i => u.gr ≤ i
  | .vr i => u.vr ≤ i
  | .stack i => u.stack ≤ i

theorem free_place64 (G V : Nat) (u : Used) (c : ArgClass) : u.Free (place64 G V u c) := by
  cases c <;> simp only [place64] <;> split <;> simp [Used.Free]

variable {u : Used}

theorem Used.Free.of_take {p q : Place} (h : (u.take p).Free q) : u.Free q := by
  cases p <;> cases q <;> simp_all [Used.take, Used.Free] <;> omega

/-- A place that was free is no longer free once it is taken. -/
theorem not_free_take {G V : Nat} : ¬ (u.take (place64 G V u c)).Free (place64 G V u c) := by
  cases c <;> simp only [place64] <;> split <;> simp [Used.take, Used.Free]

theorem free_of_mem_places64 {G V : Nat} {p : Place} (h : p ∈ places64 G V u cs) : u.Free p := by
  induction cs generalizing u with
  | nil => cases h
  | cons c cs ih =>
    rcases mem_cons.mp h with rfl | hrest
    · exact free_place64 G V u c
    · exact (ih hrest).of_take

/-- No two arguments share a place. -/
theorem nodup_places64 (G V : Nat) (u : Used) (cs : List ArgClass) : (places64 G V u cs).Nodup := by
  induction cs generalizing u with
  | nil => exact nodup_nil
  | cons c cs ih =>
    refine nodup_cons.mpr ⟨fun hmem => ?_, ih _⟩
    exact not_free_take (free_of_mem_places64 hmem)

/-- The place lies in a bank of `G` general registers, a bank of `V` vector
registers or the first `n` doublewords of the stack. -/
def Place.Within (G V n : Nat) : Place → Prop
  | .gr i => i < G
  | .vr i => i < V
  | .stack i => i < n

theorem within_of_mem_places64 {G V n : Nat} {p : Place}
    (hn : u.stack + cs.length ≤ n) (h : p ∈ places64 G V u cs) : p.Within G V n := by
  induction cs generalizing u with
  | nil => cases h
  | cons c cs ih =>
    rw [length_cons] at hn
    rcases mem_cons.mp h with rfl | hrest
    · cases c <;> simp only [place64] <;> split <;> simp only [Place.Within] <;> omega
    · refine ih ?_ hrest
      cases place64 G V u c <;> simp only [Used.take] <;> omega

/-! ## Integer arguments -/

/-- The place of the `i`-th argument when no argument in front of it is floating. -/
def integerPlace (G i : Nat) : Place := if i < G then .gr i else .stack (i - G)

/-- What `i` integer arguments use. -/
def usedBy (G i : Nat) : Used := ⟨if i < G then i else G, 0, i - G⟩

theorem place64_usedBy {G V i : Nat} (hc : c ≠ .floating) :
    place64 G V (usedBy G i) c = integerPlace G i := by
  cases c with
  | floating => exact absurd rfl hc
  | word | wide => by_cases hi : i < G <;> simp [place64, usedBy, integerPlace, hi]

theorem take_usedBy (G i : Nat) : (usedBy G i).take (integerPlace G i) = usedBy G (i + 1) := by
  by_cases hi : i < G
  · simp only [integerPlace, if_pos hi, Used.take, usedBy, Used.mk.injEq]
    refine ⟨?_, trivial, by omega⟩
    split <;> omega
  · simp only [integerPlace, if_neg hi, Used.take, usedBy, Used.mk.injEq]
    refine ⟨?_, trivial, by omega⟩
    rw [if_neg (by omega)]

/-- Behind nothing but integers the places are handed out in order. -/
theorem places64_of_integers {G V i : Nat} (hws : ∀ w ∈ ws, w ≠ .floating) (cs : List ArgClass) :
    places64 G V (usedBy G i) (ws ++ cs) = (range' i ws.length).map (integerPlace G) ++
        places64 G V (usedBy G (i + ws.length)) cs := by
  induction ws generalizing i with
  | nil => rfl
  | cons w ws ih =>
    have hplace := place64_usedBy (V := V) (i := i) (G := G) (hws w mem_cons_self)
    have hrest := ih (i := i + 1) (forall_mem_cons.mp hws).2
    rw [cons_append, places64, hplace, take_usedBy, hrest, length_cons,
      range'_succ, map_cons, cons_append, Nat.add_assoc i 1, Nat.add_comm 1]

theorem places64_integer_getElem? {G V j : Nat}
    (hws : ∀ w ∈ ws, w ≠ .floating) (hj : j < ws.length) :
    (places64 G V (usedBy G 0) ws)[j]? = some (integerPlace G j) := by
  have hall := places64_of_integers (G := G) (V := V) (i := 0) hws []
  rw [append_nil] at hall
  rw [hall, places64]
  simp [hj]

end Lunaria.Lib.Variadic
