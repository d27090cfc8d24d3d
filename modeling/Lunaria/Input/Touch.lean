/-
# The touch stream

GLFW mouse callbacks feed a queue of touch events, and the loader pops one event
per frame. The queue holds 64 events; a callback that finds it full is dropped,
but the button state it reports is kept. What reaches the guest is a sequence of
gestures as long as no press or release is dropped, and a single drop is enough
to spoil it.
-/

import Lunaria.Lib.Run
import Mathlib.Computability.Language

namespace Lunaria.Touch

open Lib Computability List Language

/-- `MotionEvent` actions: 0, 1 and 2. -/
inductive Action
  | down
  | up
  | move
  deriving DecidableEq, Repr

variable {P : Type}

/-- `TouchEvent`; `P` is the type of positions. -/
structure TouchEvent (P : Type) where
  action : Action
  pos : P

/-- The touch state. `delivered` is the actions popped so far. -/
structure TouchState (P : Type) where
  queue : List (TouchEvent P)
  cur : TouchEvent P
  down : Bool
  delivered : List Action

def TouchState.initial (origin : P) : TouchState P := ⟨[], ⟨.up, origin⟩, false, []⟩

/-- Room of `g_touch_queue`. -/
def capacity : Nat := 64

/-- Callbacks and polls. A button event is of the left button or another one. -/
inductive Event (P : Type)
  | button (left : Bool) (press : Bool) (pos : P)
  | cursor (pos : P)
  | next

namespace TouchState

variable (s : TouchState P)

def glfwMouseButtonCb (left press : Bool) (pos : P) : TouchState P :=
  if !left then s
  else
    let s := { s with down := press }
    if s.queue.length < capacity then
      { s with queue := s.queue ++ [⟨if press then .down else .up, pos⟩] }
    else s

/-- `glfw_cursor_pos_cb`: a pending move is replaced. -/
def glfwCursorPosCb (pos : P) : TouchState P :=
  if !s.down then s
  else if (s.queue.getLast?.map TouchEvent.action) = some .move then
    { s with queue := s.queue.dropLast ++ [⟨.move, pos⟩] }
  else if s.queue.length < capacity then { s with queue := s.queue ++ [⟨.move, pos⟩] }
  else s

def armExecTouchNext : TouchState P :=
  match s.queue with
  | [] => s
  | e :: queue => { s with queue := queue, cur := e, delivered := s.delivered ++ [e.action] }

def step : Event P → TouchState P
  | .button left press pos => s.glfwMouseButtonCb left press pos
  | .cursor pos => s.glfwCursorPosCb pos
  | .next => s.armExecTouchNext

end TouchState

/-! ## Gestures -/

def moves : Language Action := ({[.move]} : Language Action)∗

def gesture : Language Action := {[.down]} * (moves * {[.up]})

def gestures : Language Action := gesture∗

/-- **A prefix of a sequence of gestures.** -/
def WellFormed (w : List Action) : Prop := ∃ g ∈ gestures, w <+: g

/-- Follow a word: whether the finger is down after it, if it is well formed. -/
def scan : Bool → List Action → Option Bool
  | touching, [] => some touching
  | false, .down :: w => scan true w
  | true, .move :: w => scan true w
  | true, .up :: w => scan false w
  | _, _ => none

theorem scan_append (touching : Bool) (v w : List Action) :
    scan touching (v ++ w) = (scan touching v).bind fun t => scan t w := by
  induction v generalizing touching with
  | nil => rfl
  | cons a v ih => cases touching <;> cases a <;> first | rfl | exact ih _

/-- What may follow while the finger is down. -/
def rest : Language Action := moves * {[.up]} * gestures

variable {w : List Action}

theorem mem_gestures_down (h : w ∈ rest) : .down :: w ∈ gestures := by
  have hmul : .down :: w ∈ gesture * gestures := by
    rw [gesture, mul_assoc]
    exact mem_mul.mpr ⟨[.down], rfl, w, h, rfl⟩
  have hle : gesture * gestures ≤ gestures := mul_kstar_le_kstar
  exact hle hmul

theorem mem_rest_up (h : w ∈ gestures) : .up :: w ∈ rest := by
  have hup : [.up] ∈ moves * {[.up]} :=
    mem_mul.mpr ⟨[], nil_mem_kstar _, [.up], rfl, rfl⟩
  exact mem_mul.mpr ⟨[.up], hup, w, h, rfl⟩

theorem mem_rest_move (h : w ∈ rest) : .move :: w ∈ rest := by
  have hmul : .move :: w ∈ ({[.move]} : Language Action) * moves * ({[.up]} * gestures) := by
    rw [rest, mul_assoc] at h
    rw [mul_assoc]
    exact mem_mul.mpr ⟨[.move], rfl, w, h, rfl⟩
  have hle : ({[.move]} : Language Action) * moves * ({[.up]} * gestures) ≤
      moves * ({[.up]} * gestures) := mul_le_mul_left mul_kstar_le_kstar _
  rw [rest, mul_assoc]
  exact hle hmul

theorem exists_completion {touching : Bool} (h : scan touching w ≠ none) :
    ∃ v, w ++ v ∈ if touching then rest else gestures := by
  induction w generalizing touching with
  | nil =>
    cases touching with
    | false => exact ⟨[], nil_mem_kstar _⟩
    | true => exact ⟨[.up], mem_rest_up (nil_mem_kstar _)⟩
  | cons a w ih =>
    cases touching with
    | false =>
      cases a with
      | down =>
        have hw : scan true w ≠ none := h
        obtain ⟨v, hv⟩ := ih hw
        exact ⟨v, mem_gestures_down hv⟩
      | up | move => exact absurd rfl h
    | true =>
      cases a with
      | down => exact absurd rfl h
      | up =>
        have hw : scan false w ≠ none := h
        obtain ⟨v, hv⟩ := ih hw
        exact ⟨v, mem_rest_up hv⟩
      | move =>
        have hw : scan true w ≠ none := h
        obtain ⟨v, hv⟩ := ih hw
        exact ⟨v, mem_rest_move hv⟩

theorem scan_moves (h : w ∈ moves) : scan true w = some true := by
  obtain ⟨ws, rfl, hws⟩ := h
  induction ws with
  | nil => rfl
  | cons v ws ih =>
    obtain rfl : v = [.move] := hws v mem_cons_self
    exact ih (forall_mem_cons.mp hws).2

theorem scan_gesture (h : w ∈ gesture) : scan false w = some false := by
  obtain ⟨_, rfl, _, ⟨v, hv, _, rfl, rfl⟩, rfl⟩ := h
  show scan true (v ++ [.up]) = some false
  rw [scan_append, scan_moves hv]
  rfl

theorem scan_gestures (h : w ∈ gestures) : scan false w = some false := by
  obtain ⟨ws, rfl, hws⟩ := h
  induction ws with
  | nil => rfl
  | cons v ws ih =>
    rw [flatten_cons, scan_append, scan_gesture (hws v mem_cons_self)]
    exact ih (forall_mem_cons.mp hws).2

/-- **A word is well formed when it can be followed to its end.** -/
theorem wellFormed_iff : WellFormed w ↔ scan false w ≠ none := by
  constructor
  · rintro ⟨_, hg, v, rfl⟩ hnone
    have hall := scan_gestures hg
    rw [scan_append, hnone] at hall
    cases hall
  · intro h
    obtain ⟨v, hv⟩ := exists_completion h
    exact ⟨w ++ v, hv, v, rfl⟩

/-! ## Runs -/

/-- Presses and releases of the left button alternate, starting with a press. -/
def Alternates (s : TouchState P) : Event P → Prop
  | .button true press _ => press = !s.down
  | _ => True

instance decidableAlternates (s : TouchState P) : (e : Event P) → Decidable (Alternates s e)
  | .button true press _ => inferInstanceAs (Decidable (press = !s.down))
  | .button false _ _ => .isTrue trivial
  | .cursor _ => .isTrue trivial
  | .next => .isTrue trivial

/-- A press or release of the left button finds room in the queue. -/
def HasRoom (s : TouchState P) : Event P → Prop
  | .button true _ _ => s.queue.length < capacity
  | _ => True

namespace TouchState

def actions (s : TouchState P) : List Action := s.delivered ++ s.queue.map TouchEvent.action

/-- What was delivered and what is pending is well formed, and the button is where
it leaves the finger. -/
def InSync (s : TouchState P) : Prop := scan false s.actions = some s.down

variable {s : TouchState P}

theorem InSync.wellFormed (h : s.InSync) : WellFormed s.delivered := by
  rw [wellFormed_iff]
  intro hnone
  rw [InSync, actions, scan_append, hnone] at h
  cases h

theorem InSync.button (h : s.InSync) {press : Bool} (hpress : press = !s.down)
    (hroom : s.queue.length < capacity) (pos : P) :
    (s.glfwMouseButtonCb true press pos).InSync := by
  have hactions : (s.glfwMouseButtonCb true press pos).actions =
      s.actions ++ [if press then .down else .up] := by
    simp [glfwMouseButtonCb, hroom, actions]
  have hdown : (s.glfwMouseButtonCb true press pos).down = press := by
    simp [glfwMouseButtonCb, hroom]
  rw [InSync]
  rw [hactions, hdown, scan_append, h]
  cases hs : s.down <;> rw [hs] at hpress <;> subst hpress <;> rfl

theorem InSync.cursor (h : s.InSync) (pos : P) : (s.glfwCursorPosCb pos).InSync := by
  rw [glfwCursorPosCb]
  split
  · exact h
  rename_i hdown
  have htouching : s.down := by simpa using hdown
  split
  · rename_i hlast
    -- The pending move is replaced by another move.
    obtain ⟨e, hlast', haction⟩ := Option.map_eq_some_iff.mp hlast
    have hqueue : s.queue = s.queue.dropLast ++ [e] := by
      obtain ⟨front, hfront⟩ := getLast?_eq_some_iff.mp hlast'
      rw [hfront, dropLast_concat]
    have hsame : (s.queue.dropLast ++ [(⟨.move, pos⟩ : TouchEvent P)]).map TouchEvent.action =
        s.queue.map TouchEvent.action := by
      rw [hqueue]
      simp [haction]
    rw [InSync, actions]
    simp only [hsame]
    exact h
  · split
    · rw [InSync, actions] at h ⊢
      simp only [map_append]
      rw [← append_assoc, scan_append, h, htouching]
      rfl
    · exact h

theorem actions_next (s : TouchState P) : s.armExecTouchNext.actions = s.actions := by
  rw [armExecTouchNext]
  split
  · rfl
  · rename_i e queue hqueue
    simp [actions, hqueue]

theorem down_next (s : TouchState P) : s.armExecTouchNext.down = s.down := by
  rw [armExecTouchNext]
  split <;> rfl

theorem InSync.next (h : s.InSync) : s.armExecTouchNext.InSync := by
  rw [InSync, actions_next, down_next]
  exact h

theorem InSync.step (h : s.InSync) {e : Event P} (halt : Alternates s e) (hroom : HasRoom s e) :
    (s.step e).InSync := by
  cases e with
  | button left press pos =>
    cases left with
    | false => exact h
    | true => exact h.button halt hroom pos
  | cursor pos => exact h.cursor pos
  | next => exact h.next

theorem inSync_run {events : List (Event P)} (h : s.InSync)
    (hmeet : StepsMeet (fun s e => Alternates s e ∧ HasRoom s e) TouchState.step s events) :
    (run TouchState.step s events).InSync :=
  run_invariant (fun _ _ hs he => hs.step he.1 he.2) h hmeet

/-! ## A drop -/

theorem run_polls (s : TouchState P) : (run step s (replicate s.queue.length .next)).queue = [] ∧
      (run step s (replicate s.queue.length .next)).down = s.down ∧
      (run step s (replicate s.queue.length .next)).delivered = s.actions := by
  generalize hn : s.queue.length = n
  induction n generalizing s with
  | zero =>
    have hempty : s.queue = [] := length_eq_zero_iff.mp hn
    simp [hempty, actions]
  | succ n ih =>
    have hlen : s.armExecTouchNext.queue.length = n := by
      cases hqueue : s.queue with
      | nil => simp [hqueue] at hn
      | cons e queue => simpa [armExecTouchNext, hqueue] using hn
    have hrest := ih s.armExecTouchNext hlen
    rw [down_next, actions_next] at hrest
    exact hrest

theorem stepsMeet_polls (s : TouchState P) (n : Nat) :
    StepsMeet (fun s e => Alternates s e ∧ HasRoom s e) step s (replicate n .next) := by
  induction n generalizing s with
  | zero => trivial
  | succ n ih => exact ⟨⟨trivial, trivial⟩, ih _⟩

/-- A dropped press or release leaves the button where the stream does not: behind the drained queue
the next one is out of place. -/
theorem InSync.not_wellFormed_of_drop (h : s.InSync) {press : Bool} (hpress : press = !s.down)
    (hfull : ¬ s.queue.length < capacity) (pos : P) :
    ∃ more, StepsMeet (fun s e => Alternates s e ∧ HasRoom s e) TouchState.step
        (s.glfwMouseButtonCb true press pos) more ∧
      ¬ WellFormed (run TouchState.step (s.glfwMouseButtonCb true press pos) more).delivered := by
  have hdrop : s.glfwMouseButtonCb true press pos = { s with down := press } := by
    simp [glfwMouseButtonCb, hfull]
  rw [hdrop]
  obtain ⟨hqueue, hdown, hdelivered⟩ := run_polls { s with down := press }
  have hmeet := stepsMeet_polls { s with down := press } s.queue.length
  generalize hdrained : run TouchState.step { s with down := press }
    (replicate s.queue.length .next) = d at hqueue hdown hdelivered
  refine ⟨replicate s.queue.length .next ++ [.button true (!press) pos, .next], ?_, ?_⟩
  · rw [stepsMeet_append, hdrained]
    refine ⟨hmeet, ⟨?_, ?_⟩, ⟨trivial, trivial⟩, trivial⟩
    · rw [Alternates, hdown]
    · rw [HasRoom, hqueue]
      exact Nat.succ_pos 63
  have hactions : (run TouchState.step d [.button true (!press) pos, .next]).delivered =
      s.actions ++ [if !press then .down else .up] := by
    simp [TouchState.step, glfwMouseButtonCb, armExecTouchNext, hqueue, hdelivered, capacity,
      actions]
  rw [run, foldl_append]
  change ¬ WellFormed (run TouchState.step (run TouchState.step { s with down := press }
    (replicate s.queue.length .next)) _).delivered
  rw [hdrained, hactions, wellFormed_iff, not_not, scan_append, h]
  cases hs : s.down <;> rw [hs] at hpress <;> subst hpress <;> rfl

end TouchState

/-- **The touch stream.** In every alternating run in which each press and release finds room, the
delivered actions are a prefix of (DOWN MOVE* UP)*; and the next callback keeps it so for good
exactly when it finds room. -/
theorem wellFormed_iff_hasRoom {origin : P} {events : List (Event P)}
    (hmeet : StepsMeet (fun s e => Alternates s e ∧ HasRoom s e) TouchState.step
      (TouchState.initial origin) events) :
    WellFormed (run TouchState.step (TouchState.initial origin) events).delivered ∧
      ∀ e, Alternates (run TouchState.step (TouchState.initial origin) events) e →
        ((∀ more, StepsMeet (fun s e => Alternates s e ∧ HasRoom s e) TouchState.step
            ((run TouchState.step (TouchState.initial origin) events).step e) more →
          WellFormed (run TouchState.step
            ((run TouchState.step (TouchState.initial origin) events).step e) more).delivered) ↔
        HasRoom (run TouchState.step (TouchState.initial origin) events) e) := by
  have hsync := TouchState.inSync_run (s := TouchState.initial origin) rfl hmeet
  refine ⟨hsync.wellFormed, fun e halt => ⟨fun hall => ?_, fun hroom more hmore => ?_⟩⟩
  · cases e with
    | cursor _ | next => trivial
    | button left press pos =>
      cases left with
      | false => trivial
      | true =>
        by_contra hfull
        obtain ⟨more, hmore, hbad⟩ := hsync.not_wellFormed_of_drop halt hfull pos
        exact hbad (hall more hmore)
  · exact (TouchState.inSync_run (hsync.step halt hroom) hmore).wellFormed

/-- Thirty-two taps fill the queue; the next press is dropped, and its release is
delivered without it. -/
theorem full_queue_not_wellFormed : let taps : List (Event Unit) :=
      (replicate 32 [.button true true (), .button true false ()]).flatten
    let events := taps ++ [.button true true ()] ++ replicate 64 .next ++
      [.button true false (), .next]
    StepsMeet Alternates TouchState.step (TouchState.initial ()) events ∧
      ¬ WellFormed (run TouchState.step (TouchState.initial ()) events).delivered := by
  refine ⟨by decide +kernel, ?_⟩
  rw [wellFormed_iff]
  decide +kernel

/-- A tap with a move is delivered. -/
theorem tap_wellFormed :
    WellFormed (run TouchState.step (TouchState.initial ()) [.button true true (), .cursor (),
      .next, .button true false (), .next, .next]).delivered := by
  refine (wellFormed_iff_hasRoom ?_).1
  exact ⟨⟨rfl, Nat.succ_pos _⟩, ⟨trivial, trivial⟩, ⟨trivial, trivial⟩,
    ⟨rfl, Nat.lt_of_sub_eq_succ rfl⟩, ⟨trivial, trivial⟩, ⟨trivial, trivial⟩, trivial⟩

end Lunaria.Touch
