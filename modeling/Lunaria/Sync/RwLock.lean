/-
# Reader-writer locks

A lock is one counter in `g_rwlocks`: `-1` for a writer, otherwise the number of readers.
The table exists to answer `EBUSY`; the blocking functions do not wait under cooperative
scheduling, they return zero at once and overwrite what the counter said. So the counter
tells the truth as long as no blocking call is made that would have to wait, in particular
when only the try functions are used.

A call is one supervisor call, so a schedule is the order of the calls.
-/

import Lunaria.Sync.Mutex
import Lunaria.Sync.Scheduler

namespace Lunaria

open Lib List

/-! ## The functions -/

inductive RwFn where
  | rdlock
  | tryrdlock
  | wrlock
  | trywrlock
  | unlock
  deriving DecidableEq

/-- The counter with one more reader; a writer is overwritten. -/
def oneMoreReader (value : Int) : Int := incr32 (max 0 value)

/-- What a call makes of the counter and what it returns. -/
def svcRwlock (value : Int) : RwFn → Int × Nat
  | .rdlock => (oneMoreReader value, 0)
  | .tryrdlock => if value < 0 then (value, eBusy) else (oneMoreReader value, 0)
  | .wrlock => (-1, 0)
  | .trywrlock => if value ≠ 0 then (value, eBusy) else (-1, 0)
  | .unlock => (if value < 0 then 0 else if 0 < value then value - 1 else value, 0)

/-! ## Runs -/

/-- A lock that a thread holds. -/
structure RwHold where
  tid : Nat
  write : Bool
  deriving DecidableEq

/-- What a successful call does to the locks that are held. -/
def RwFn.effect (tid : Nat) (holds : List RwHold) : RwFn → List RwHold
  | .rdlock | .tryrdlock => ⟨tid, false⟩ :: holds
  | .wrlock | .trywrlock => ⟨tid, true⟩ :: holds
  | .unlock => holds.eraseP fun h => h.tid == tid

/-- The counter, with the locks that are held, the newest first. -/
structure RwRun where
  value : Int
  holds : List RwHold

structure RwOp where
  tid : Nat
  fn : RwFn

namespace RwRun

def initial : RwRun := ⟨0, []⟩

def step (s : RwRun) (op : RwOp) : RwRun :=
  { value := (svcRwlock s.value op.fn).1
    holds := if (svcRwlock s.value op.fn).2 = 0 then op.fn.effect op.tid s.holds else s.holds }

/-- No thread holds the lock together with a writer. -/
def Excludes (s : RwRun) : Prop :=
  ∀ h ∈ s.holds, h.write = true → ∀ h' ∈ s.holds, h'.tid = h.tid

/-- The try functions answer `EBUSY` exactly when a conflicting lock is held. -/
structure BusyExact (s : RwRun) : Prop where
  read : (svcRwlock s.value .tryrdlock).2 = eBusy ↔ ∃ h ∈ s.holds, h.write = true
  write : (svcRwlock s.value .trywrlock).2 = eBusy ↔ s.holds ≠ []

/-- Unlocks are made by holders, blocking calls only where they would not have to wait, and
the readers fit the counter. -/
def Admissible (s : RwRun) (op : RwOp) : Prop :=
  match op.fn with
  | .rdlock => (∀ h ∈ s.holds, h.write = false) ∧ s.holds.length < 0x7fffffff
  | .tryrdlock => s.holds.length < 0x7fffffff
  | .wrlock => s.holds = []
  | .trywrlock => True
  | .unlock => ∃ h ∈ s.holds, h.tid = op.tid

instance admissibleDecidable (s : RwRun) : ∀ op, Decidable (s.Admissible op)
  | ⟨_, .rdlock⟩ => inferInstanceAs (Decidable ((∀ h ∈ s.holds, _) ∧ _))
  | ⟨_, .tryrdlock⟩ => inferInstanceAs (Decidable (_ < _))
  | ⟨_, .wrlock⟩ => inferInstanceAs (Decidable (s.holds = _))
  | ⟨_, .trywrlock⟩ => .isTrue trivial
  | ⟨_, .unlock⟩ => inferInstanceAs (Decidable (∃ h ∈ s.holds, _))

/-- The counter counts the readers, or the one lock held is a writer's. -/
def Counted (s : RwRun) : Prop :=
  (s.value = -1 ∧ ∃ tid, s.holds = [⟨tid, true⟩]) ∨
    (s.value = s.holds.length ∧ ∀ h ∈ s.holds, h.write = false)

variable {s : RwRun} {op : RwOp}

theorem Counted.excludes (h : s.Counted) : s.Excludes := by
  intro a ha hwrite b hb
  rcases h with ⟨-, tid, hholds⟩ | ⟨-, hread⟩
  · rw [hholds] at ha hb
    rw [mem_singleton.mp ha, mem_singleton.mp hb]
  · exact absurd (hwrite.symm.trans (hread a ha)) (by simp)

theorem Counted.busyExact (h : s.Counted) : s.BusyExact := by
  rcases h with ⟨hvalue, tid, hholds⟩ | ⟨hvalue, hread⟩
  · exact ⟨by simp [svcRwlock, hvalue, hholds], by simp [svcRwlock, hvalue, hholds]⟩
  have hnonneg : ¬ s.value < 0 := by
    rw [hvalue]
    exact not_lt.mpr (Int.natCast_nonneg _)
  constructor
  · rw [svcRwlock, if_neg hnonneg]
    refine ⟨fun hbusy => absurd hbusy (by simp [eBusy]), fun ⟨a, ha, hwrite⟩ => ?_⟩
    exact absurd (hwrite.symm.trans (hread a ha)) (by simp)
  rw [svcRwlock, hvalue]
  cases s.holds with
  | nil => simp [eBusy]
  | cons a rest =>
    rw [if_pos (by simp only [length_cons]; omega)]
    simp

theorem Counted.read (hread : ∀ h ∈ s.holds, h.write = false) (hvalue : s.value = s.holds.length)
    (hmax : s.holds.length < 0x7fffffff) (tid : Nat) :
    Counted ⟨oneMoreReader s.value, ⟨tid, false⟩ :: s.holds⟩ := by
  refine .inr ⟨?_, ?_⟩
  · have hpos : max 0 s.value = s.holds.length := by
      rw [hvalue]
      exact max_eq_right (Int.natCast_nonneg _)
    rw [oneMoreReader, hpos, incr32, if_neg (by omega)]
    simp
  · intro a ha
    rcases mem_cons.mp ha with rfl | ha
    · rfl
    · exact hread a ha

theorem Counted.unlock (h : s.Counted) {tid : Nat} (hheld : ∃ a ∈ s.holds, a.tid = tid) :
    Counted ⟨(svcRwlock s.value .unlock).1, s.holds.eraseP fun a => a.tid == tid⟩ := by
  obtain ⟨a, ha, htid⟩ := hheld
  rcases h with ⟨hvalue, owner, hholds⟩ | ⟨hvalue, hread⟩
  · rw [hholds] at ha
    obtain rfl := mem_singleton.mp ha
    have hnil : (s.holds.eraseP fun a => a.tid == tid) = [] := by
      rw [hholds]
      exact eraseP_cons_of_pos (by simpa using htid)
    rw [hnil, hvalue]
    exact .inr ⟨rfl, fun b hb => absurd hb not_mem_nil⟩
  · have hlen : (s.holds.eraseP fun a => a.tid == tid).length = s.holds.length - 1 :=
      length_eraseP_of_mem ha (by simpa using htid)
    refine .inr ⟨?_, fun b hb => hread b (mem_of_mem_eraseP hb)⟩
    simp only [svcRwlock]
    omega

theorem Counted.step (h : s.Counted) (hop : s.Admissible op) : (s.step op).Counted := by
  obtain ⟨tid, fn⟩ := op
  cases fn with
  | rdlock =>
    obtain ⟨hread, hmax⟩ := hop
    rcases h with ⟨-, owner, hholds⟩ | ⟨hvalue, -⟩
    · exact absurd (hread ⟨owner, true⟩ (by simp [hholds])) (by simp)
    · exact Counted.read hread hvalue hmax tid
  | tryrdlock =>
    rcases h with ⟨hvalue, owner, hholds⟩ | ⟨hvalue, hread⟩
    · exact .inl ⟨by simp [RwRun.step, svcRwlock, hvalue],
        owner, by simp [RwRun.step, svcRwlock, hvalue, hholds, eBusy]⟩
    have hnonneg : ¬ s.value < 0 := by
      rw [hvalue]
      exact not_lt.mpr (Int.natCast_nonneg _)
    have hstep : s.step ⟨tid, .tryrdlock⟩ = ⟨oneMoreReader s.value, ⟨tid, false⟩ :: s.holds⟩ := by
      simp [RwRun.step, svcRwlock, hnonneg, RwFn.effect]
    rw [hstep]
    exact Counted.read hread hvalue hop tid
  | wrlock =>
    have hnone : s.holds = [] := hop
    exact .inl ⟨rfl, tid, by simp [RwRun.step, svcRwlock, RwFn.effect, hnone]⟩
  | trywrlock =>
    by_cases hfree : s.value = 0
    · rcases h with ⟨hvalue, -⟩ | ⟨hvalue, -⟩
      · exact absurd (hvalue.symm.trans hfree) (by decide)
      · have hnone : s.holds = [] := length_eq_zero_iff.mp (by omega)
        exact .inl ⟨by simp [RwRun.step, svcRwlock, hfree],
          tid, by simp [RwRun.step, svcRwlock, RwFn.effect, hfree, hnone]⟩
    · have hstep : s.step ⟨tid, .trywrlock⟩ = s := by
        simp [RwRun.step, svcRwlock, hfree, eBusy]
      rw [hstep]
      exact h
  | unlock => exact h.unlock hop

/-- **In every run without a blocking call that would have to wait, no thread shares the
lock with a writer and the try functions answer exactly.** -/
theorem rwlock_of_run (ops : List RwOp) (hops : StepsMeet Admissible step initial ops) :
    (run step initial ops).Excludes ∧ (run step initial ops).BusyExact := by
  have hstart : initial.Counted := .inr ⟨rfl, fun h hh => absurd hh not_mem_nil⟩
  have hend := run_invariant (fun _ _ h hop => h.step hop) hstart hops
  exact ⟨hend.excludes, hend.busyExact⟩

/-- Two readers come and go, a writer is refused while they are there and admitted then,
and a reader is refused in turn. -/
def takingTurns : List RwOp :=
  [⟨0, .rdlock⟩, ⟨2, .tryrdlock⟩, ⟨3, .trywrlock⟩, ⟨0, .unlock⟩, ⟨2, .unlock⟩, ⟨3, .wrlock⟩,
    ⟨2, .tryrdlock⟩]

theorem rwlock_takingTurns : (run step initial takingTurns).holds = [⟨3, true⟩] ∧
      (run step initial takingTurns).Excludes ∧ (run step initial takingTurns).BusyExact :=
  ⟨by decide, rwlock_of_run takingTurns (by decide)⟩

/-- A second writer is let in at once. -/
theorem not_excludes_twoWriters : ¬ (run step initial [⟨0, .wrlock⟩, ⟨2, .wrlock⟩]).Excludes := by
  intro h
  exact absurd (h ⟨0, true⟩ (by decide) rfl ⟨2, true⟩ (by decide)) (by decide)

end RwRun

end Lunaria
