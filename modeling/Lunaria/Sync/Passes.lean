/-
# What a pass does to the workers

The marks of a record are not independent: a worker parks only from its own slice, and
it has a slice only when no mark is set. `Tidy` is that invariant. Under it every visit
of the pass has one of seven outcomes (`Visited`), and parking changes the record of the
running worker and nothing else, although the handlers look the record up by id.

The second part is about time. A worker that is owed a wake is visited before the pass
after the current one ends; `OnTime` is the bookkeeping of that bound, kept by every way
the phase can change.
-/

import Lunaria.Lib.AtEach
import Lunaria.Sync.Scheduler

namespace Lunaria

open Lib List Option Worker

/-! ## Marks -/

/-- The worker waits for nothing and has not finished. -/
structure Worker.Free (t : Worker) : Prop where
  live : t.finished = false
  cond : t.waitingCond = 0
  sem : t.waitingSem = 0
  futex : t.waitingFutex = 0

/-- At most one mark, none on a finished worker, and a parked worker's result register holds the
call's zero. -/
structure Worker.Tidy (t : Worker) : Prop where
  cond : t.waitingCond ≠ 0 →
    t.finished = false ∧ t.waitingSem = 0 ∧ t.waitingFutex = 0 ∧ t.r0 = 0
  sem : t.waitingSem ≠ 0 → t.finished = false ∧ t.waitingFutex = 0 ∧ t.r0 = 0 ∧ t.x0 = 0
  futex : t.waitingFutex ≠ 0 → t.finished = false

variable {t : Worker}

theorem Worker.tidy_of_unmarked (hc : t.waitingCond = 0) (hs : t.waitingSem = 0)
    (hf : t.waitingFutex = 0) : t.Tidy :=
  ⟨absurd hc, absurd hs, absurd hf⟩

theorem Worker.Free.tidy (h : t.Free) : t.Tidy := tidy_of_unmarked h.cond h.sem h.futex

theorem Worker.Tidy.free_of_sem (h : t.Tidy) (hs : t.waitingSem ≠ 0) (r0 : Nat) :
    Worker.Free { t with r0, waitingSem := 0, semSkipPasses := 0 } where
  live := (h.sem hs).1
  cond := of_not_not fun hc => hs (h.cond hc).2.1
  sem := rfl
  futex := (h.sem hs).2.1

theorem Worker.Tidy.free_of_futex (h : t.Tidy) (hf : t.waitingFutex ≠ 0) :
    Worker.Free { t with waitingFutex := 0 } where
  live := h.futex hf
  cond := of_not_not fun hc => hf (h.cond hc).2.2.1
  sem := of_not_not fun hs => hf (h.sem hs).2.1
  futex := rfl

theorem Worker.Free.wake (h : t.Free) (p : Prop) [Decidable p] :
    (if p then { t with waitingCond := 0 } else t).Free := by
  split
  · exact ⟨h.live, rfl, h.sem, h.futex⟩
  · exact h

namespace Sched

/-- Ids follow the indices, every record is tidy, the running worker is free, and the
main thread only blocks when there are workers. -/
structure Tidy (s : Sched) : Prop where
  workers : AtEach (fun i t => t.id = i + 2 ∧ t.Tidy) s.workers
  running : ∀ i, s.phase = .slice i → ∃ t, s.workers[i]? = some t ∧ t.Free
  main : s.main ≠ none → s.workers ≠ []

variable {cfg : SchedConfig} {s s' : Sched} {i : Nat} {t : Worker}

theorem Tidy.congr (h : s.Tidy) (hw : s'.workers = s.workers) (hp : s'.phase = s.phase)
    (hm : s'.main ≠ none → s.main ≠ none) : s'.Tidy where
  workers := hw ▸ h.workers
  running := by
    rw [hw, hp]
    exact h.running
  main := fun hne => hw ▸ h.main (hm hne)

/-! ## The outcomes of a visit -/

/-- The outcomes of the visit of worker `i`, whose record is `t`. -/
inductive Visited (cfg : SchedConfig) (s : Sched) (i : Nat) (t : Worker) : Sched → Prop
  | blocked
      (why : t.finished = true ∨ t.waitingCond ≠ 0 ∨ t.waitingSem ≠ 0 ∨
        (t.waitingFutex ≠ 0 ∧ s.tokens t.waitingFutex = 0)) :
      Visited cfg s i t (s.leave i t)
  | counted (sem : t.waitingSem ≠ 0) :
      Visited cfg s i t (s.leave i { t with semSkipPasses := t.semSkipPasses + 1 })
  | free (free : t.Free) : Visited cfg s i t (s.resume cfg i t)
  | granted (sem : t.waitingSem ≠ 0) (positive : 0 < s.sems t.waitingSem) :
      Visited cfg s i t
        ({ s with
            sems := Function.update s.sems t.waitingSem (s.sems t.waitingSem - 1)
            log := .answered t.waitingSem t.semTimed
              ({ t with r0 := 0 }.result cfg) true :: s.log }.resume cfg i
          { t with r0 := 0, waitingSem := 0, semSkipPasses := 0 })
  | timedOut (sem : t.waitingSem ≠ 0) (empty : s.sems t.waitingSem ≤ 0)
      (timed : t.semTimed = true) (late : 2000 ≤ t.semSkipPasses + 1) :
      Visited cfg s i t
        ({ s with
            log := .answered t.waitingSem true
              ({ t with r0 := minusOne }.result cfg) false :: s.log }.resume cfg i
          { t with r0 := minusOne, waitingSem := 0, semSkipPasses := 0 })
  | token (futex : t.waitingFutex ≠ 0) (positive : 0 < s.tokens t.waitingFutex) :
      Visited cfg s i t
        ({ s with
            owed := s.owed.filter fun d => decide (d.worker ≠ i)
            tokens := Function.update s.tokens t.waitingFutex
              (s.tokens t.waitingFutex - 1) }.resume cfg i { t with waitingFutex := 0 })
  | changed (futex : t.waitingFutex ≠ 0) (none : s.tokens t.waitingFutex = 0) :
      Visited cfg s i t
        ({ s with owed := s.owed.filter fun d => decide (d.worker ≠ i) }.resume cfg i
          { t with waitingFutex := 0 })

theorem visitFutex_visited (ht : t.finished = false) (hc : t.waitingCond = 0)
    (hs : t.waitingSem = 0) : Visited cfg s i t (s.visitFutex cfg i t) := by
  unfold visitFutex
  by_cases hf : t.waitingFutex = 0
  · rw [if_pos hf]
    exact .free ⟨ht, hc, hs, hf⟩
  rw [if_neg hf]
  by_cases htok : 0 < s.tokens t.waitingFutex
  · rw [if_pos htok]
    exact .token hf htok
  have hzero : s.tokens t.waitingFutex = 0 := Nat.eq_zero_of_not_pos htok
  rw [if_neg htok]
  split
  · exact .blocked (.inr (.inr (.inr ⟨hf, hzero⟩)))
  · exact .changed hf hzero

/-- A worker that waited for a semaphore goes through the futex stage unhindered. -/
theorem visitFutex_of_unparked (hf : t.waitingFutex = 0) :
    s.visitFutex cfg i t = s.resume cfg i t := if_pos hf

theorem visitSem_visited (ht : t.Tidy) (hfin : t.finished = false) (hc : t.waitingCond = 0) :
    Visited cfg s i t (s.visitSem cfg i t) := by
  unfold visitSem
  by_cases hs : t.waitingSem = 0
  · rw [if_pos hs]
    exact visitFutex_visited hfin hc hs
  have hf : t.waitingFutex = 0 := (ht.sem hs).2.1
  rw [if_neg hs]
  by_cases hpos : 0 < s.sems t.waitingSem
  · rw [if_pos hpos, visitFutex_of_unparked (by exact hf)]
    exact .granted hs hpos
  rw [if_neg hpos]
  by_cases htimed : t.semTimed
  · rw [if_pos htimed]
    by_cases hlate : 2000 ≤ t.semSkipPasses + 1
    · rw [if_pos hlate, visitFutex_of_unparked (by exact hf)]
      exact .timedOut hs (not_lt.mp hpos) htimed hlate
    · rw [if_neg hlate]
      exact .counted hs
  · rw [if_neg htimed]
    exact .blocked (.inr (.inr (.inl hs)))

/-- **The visit of a worker has one of the seven outcomes.** -/
theorem visit_visited (h : s.Tidy) (hp : s.phase = .scan i) (ht : s.workers[i]? = some t) :
    Visited cfg s i t (s.visit cfg) := by
  simp only [visit, hp, ht]
  by_cases hskip : t.finished ∨ t.waitingCond ≠ 0
  · rw [if_pos hskip]
    exact .blocked (hskip.imp_right .inl)
  · rw [if_neg hskip]
    obtain ⟨hfin, hc⟩ := not_or.mp hskip
    exact visitSem_visited (h.workers i t ht).2 (by simpa using hfin) (by simpa using hc)

/-- The worker is given its slice, or it is a Swappy thread with a non-zero argument. -/
theorem resume_cases (cfg : SchedConfig) (s : Sched) (i : Nat) (t : Worker) :
    (∃ n, s.resume cfg i t = s.enter i { t with deferCount := n }) ∨
      t.r0 ≠ 0 ∧ ∃ n fin,
        s.resume cfg i t = s.leave i { t with deferCount := n, finished := fin } := by
  unfold resume deferStage
  by_cases hswappy : swappyEntry t.entryPc
  · rw [if_pos hswappy]
    split
    case isTrue harg => exact .inr ⟨harg.1, _, _, rfl⟩
    case isFalse => exact .inl ⟨0, rfl⟩
  · rw [if_neg hswappy]
    exact .inl ⟨t.deferCount, rfl⟩

/-- The pass has gone past worker `i` with the record `t` written back, up to what the
deferral of Swappy threads changes. -/
structure Passed (s : Sched) (i : Nat) (t : Worker) (s' : Sched) : Prop where
  record : ∃ n fin, s'.workers = s.workers.set i { t with deferCount := n, finished := fin }
  phase : s'.phase = .scan (i + 1) ∨ s'.phase = .slice i
  passes : s'.passes = s.passes
  mem : s'.mem = s.mem
  sems : s'.sems = s.sems
  tokens : s'.tokens = s.tokens
  main : s'.main = s.main
  owed : s'.owed = s.owed
  signalled : ∀ d ∈ s'.signalled, d ∈ s.signalled
  log : s'.log = s.log

theorem leave_passed (s : Sched) (i : Nat) (t : Worker) : Passed s i t (s.leave i t) :=
  ⟨⟨_, _, rfl⟩, .inl rfl, rfl, rfl, rfl, rfl, rfl, rfl, fun _ hd => hd, rfl⟩

theorem resume_passed (cfg : SchedConfig) (s : Sched) (i : Nat) (t : Worker) :
    Passed s i t (s.resume cfg i t) := by
  rcases resume_cases cfg s i t with ⟨n, heq⟩ | ⟨-, n, fin, heq⟩
  · rw [heq]
    exact ⟨⟨n, _, rfl⟩, .inr rfl, rfl, rfl, rfl, rfl, rfl, rfl,
      fun _ hd => mem_of_mem_filter hd, rfl⟩
  · rw [heq]
    exact ⟨⟨n, fin, rfl⟩, .inl rfl, rfl, rfl, rfl, rfl, rfl, rfl, fun _ hd => hd, rfl⟩

theorem mem_indicesWhere {p : Worker → Bool} :
    i ∈ s.indicesWhere p ↔ ∃ t, s.workers[i]? = some t ∧ p t := by
  simp only [indicesWhere, mem_filter, mem_range, Option.any_eq_true]
  constructor
  · rintro ⟨-, t, ht, hp⟩
    exact ⟨t, ht, hp⟩
  · rintro ⟨t, ht, hp⟩
    exact ⟨(List.getElem?_eq_some_iff.mp ht).1, t, ht, hp⟩

/-! ## Parking -/

theorem Tidy.findIdx (h : s.Tidy) (ht : s.workers[i]? = some t) :
    s.workers.findIdx (fun u => u.id == t.id) = i := by
  obtain ⟨hi, hget⟩ := List.getElem?_eq_some_iff.mp ht
  rw [findIdx_eq hi]
  refine ⟨by simp [hget], fun j hj => ?_⟩
  have hjid := (h.workers j _ (getElem?_eq_getElem (lt_trans hj hi))).1
  simp only [(h.workers i t ht).1, beq_eq_false_iff_ne]
  omega

/-- The state after the slice of worker `i` has ended with the record changed by `f`. -/
def ended (s : Sched) (i : Nat) (f : Worker → Worker) : Sched :=
  { s with workers := s.workers.modify i f, phase := .scan (i + 1) }

theorem endSlice_eq (hp : s.phase = .slice i) (r0 x0 : Nat) (finished : Bool) :
    s.endSlice r0 x0 finished =
      s.ended i fun t => { t with r0, x0, finished := t.finished || finished } := by
  simp [endSlice, hp, ended]

section

variable (h : s.Tidy)
include h

theorem park_eq (hp : s.phase = .slice i) (f : Worker → Worker) :
    s.park f = s.ended i fun t => { f t with r0 := 0, x0 := 0 } := by
  obtain ⟨t, ht, -⟩ := h.running i hp
  have hcur : s.curTid = t.id := by simp [curTid, hp, ht]
  have hphase : (s.modifyTid s.curTid f).phase = .slice i := hp
  rw [park, endSlice_eq hphase]
  simp only [ended, modifyTid, hcur, h.findIdx ht, Bool.or_false]
  congr 1
  exact modify_modify_eq ..

/-! ## Every event keeps the marks tidy -/

theorem Tidy.leave (hid : t.id = i + 2) (ht : t.Tidy) : (s.leave i t).Tidy where
  workers := h.workers.set ⟨hid, ht⟩
  running := fun j hj => absurd hj (by simp [Sched.leave])
  main := by simpa [Sched.leave] using h.main

theorem Tidy.enter (hi : i < s.workers.length) (hid : t.id = i + 2) (ht : t.Free) :
    (s.enter i t).Tidy where
  workers := h.workers.set ⟨hid, ht.tidy⟩
  running := by
    intro j hj
    obtain rfl : i = j := by simpa [Sched.enter] using hj
    exact ⟨t, getElem?_set_self hi, ht⟩
  main := by simpa [Sched.enter] using h.main

theorem Tidy.resume (hi : i < s.workers.length) (hid : t.id = i + 2) (ht : t.Free) :
    (s.resume cfg i t).Tidy := by
  rcases resume_cases cfg s i t with ⟨n, heq⟩ | ⟨-, n, fin, heq⟩
  · rw [heq]
    exact h.enter hi hid { ht with }
  · rw [heq]
    exact h.leave hid (tidy_of_unmarked ht.cond ht.sem ht.futex)

theorem Tidy.visited (ht : s.workers[i]? = some t) (hv : Visited cfg s i t s') : s'.Tidy := by
  have hi : i < s.workers.length := (List.getElem?_eq_some_iff.mp ht).1
  obtain ⟨hid, htidy⟩ := h.workers i t ht
  cases hv with
  | blocked => exact h.leave hid htidy
  | counted hs => exact h.leave hid { htidy with }
  | free hfree => exact h.resume hi hid hfree
  | granted hs | timedOut hs =>
    refine Tidy.resume (h.congr rfl rfl id) hi ?_ (htidy.free_of_sem hs _)
    exact hid
  | token hf | changed hf =>
    refine Tidy.resume (h.congr rfl rfl id) hi ?_ (htidy.free_of_futex hf)
    exact hid

theorem Tidy.ended (hp : s.phase = .slice i) {f : Worker → Worker}
    (hf : ∀ t, t.Free → (f t).id = t.id ∧ (f t).Tidy) : (s.ended i f).Tidy where
  workers := h.workers.modify fun t ht => by
    obtain ⟨u, hu, hfree⟩ := h.running i hp
    obtain rfl : u = t := some.inj (hu.symm.trans ht)
    exact ⟨(hf u hfree).1.trans (h.workers i u ht).1, (hf u hfree).2⟩
  running := fun j hj => absurd hj (by simp [Sched.ended])
  main := fun hne => by
    have := h.main hne
    simpa [Sched.ended] using this

end

/-! ## The outcomes of the calls -/

/-- Guest code is running: the main thread's, or that of a worker in its slice. -/
def Running (s : Sched) : Prop := ∀ i, s.phase ≠ .scan i

/-- The outcomes of the calls of a running context: a wait of the main thread enters a loop, one of
a worker ends its slice. -/
inductive Called (cfg : SchedConfig) (s : Sched) : SchedOp → Sched → Prop
  | unchanged (op : SchedOp) : Called cfg s op s
  | created (entryPc arg : Nat) : Called cfg s (.create entryPc arg)
      { s with workers := s.workers ++ [.created (s.workers.length + 2) entryPc arg] }
  | stored (addr value : Nat) : Called cfg s (.store addr value)
      { s with mem := Function.update s.mem addr value }
  | posted (sem : Nat) : Called cfg s (.semPost sem) (s.svcSemPost sem)
  | tryTook (sem : Nat) (positive : 0 < s.sems sem) :
      Called cfg s (.semTrywait sem) (s.semTake sem false)
  | tryRefused (sem : Nat) : Called cfg s (.semTrywait sem) (s.semAnswer sem false minusOne)
  | waitInCallback (sem : Nat) (timed : Bool) :
      Called cfg s (.semWait sem timed true) { s with log := .nested sem timed 0 :: s.log }
  | waitTook (sem : Nat) (timed inCb : Bool) (positive : 0 < s.sems sem) :
      Called cfg s (.semWait sem timed inCb) (s.semTake sem timed)
  | waitRefused (sem : Nat) (timed inCb : Bool) :
      Called cfg s (.semWait sem timed inCb) (s.semAnswer sem timed minusOne)
  | waitLoops (sem : Nat) (timed inCb : Bool) (nonempty : s.workers ≠ []) :
      Called cfg s (.semWait sem timed inCb) { s with main := some (.sem sem timed cfg.spins) }
  | waitNull (timed inCb : Bool) {i : Nat} (slice : s.phase = .slice i) :
      Called cfg s (.semWait 0 timed inCb)
        ((s.semAnswer 0 timed 0).ended i fun t => { t with r0 := 0, x0 := 0 })
  | waitParks (sem : Nat) (timed inCb : Bool) {i : Nat} (slice : s.phase = .slice i) :
      Called cfg s (.semWait sem timed inCb) (s.ended i fun t =>
        { t with waitingSem := sem, semTimed := timed, semSkipPasses := 0, r0 := 0, x0 := 0 })
  | futexWoke (uaddr n : Nat) : Called cfg s (.futexWake uaddr n) (s.svcFutexWake uaddr n)
  | futexTook (uaddr val : Nat) (high : 0x1000 ≤ uaddr) (same : s.mem uaddr = val)
      (positive : 0 < s.tokens uaddr) :
      Called cfg s (.futexWait uaddr val) (s.takeToken uaddr)
  | futexLoops (uaddr val : Nat) (nonempty : s.workers ≠ []) :
      Called cfg s (.futexWait uaddr val) { s with main := some (.futex uaddr val cfg.spins) }
  | futexParks (uaddr val : Nat) {i : Nat} (slice : s.phase = .slice i)
      (none : s.tokens uaddr = 0) :
      Called cfg s (.futexWait uaddr val) (s.ended i fun t =>
        { t with waitingFutex := uaddr, futexVal := val, r0 := 0, x0 := 0 })
  | condTook (cond mutex : Nat) : Called cfg s (.condWait cond mutex) (s.takeCond cond)
  | condAlone (cond mutex : Nat) (empty : s.workers = []) :
      Called cfg s (.condWait cond mutex) (s.writeMutex mutex (retaken (s.mem mutex) 0))
  | condLoops (cond mutex : Nat) (nonempty : s.workers ≠ []) : Called cfg s (.condWait cond mutex)
      { s.writeMutex mutex 0 with main := some (.cond cond mutex (s.mem mutex) cfg.spins) }
  | condParks (cond mutex : Nat) {i : Nat} (slice : s.phase = .slice i)
      (none : s.condToken cond = false) : Called cfg s (.condWait cond mutex)
      ((s.writeMutex mutex (retaken (s.mem mutex) s.curTid)).ended i fun t =>
        { t with waitingCond := cond, waitMutex := mutex, r0 := 0, x0 := 0 })
  | timedTook (cond mutex : Nat) : Called cfg s (.condTimedwait cond mutex) (s.takeCond cond)
  | timedAlone (cond mutex : Nat) (empty : s.workers = []) :
      Called cfg s (.condTimedwait cond mutex) (s.writeMutex mutex (retaken (s.mem mutex) 0))
  | timedLoops (cond mutex : Nat) (nonempty : s.workers ≠ []) :
      Called cfg s (.condTimedwait cond mutex)
        { s.writeMutex mutex 0 with main := some (.cond cond mutex (s.mem mutex) 1) }
  | timedYields (cond mutex : Nat) {i : Nat} (slice : s.phase = .slice i) :
      Called cfg s (.condTimedwait cond mutex)
        ((s.writeMutex mutex (retaken (s.mem mutex) s.curTid)).ended i fun t =>
          { t with r0 := 0, x0 := 0 })
  | condSignalled (cond : Nat) : Called cfg s (.condSignal cond) (s.svcCondSignal cond)
  | condBroadcast (cond : Nat) : Called cfg s (.condBroadcast cond) (s.svcCondBroadcast cond)

theorem Running.slice (hrun : s.Running) (hne : s.phase = .idle → False) :
    ∃ i, s.phase = .slice i := by
  cases hp : s.phase with
  | idle => exact (hne hp).elim
  | scan i => exact absurd hp (hrun i)
  | slice i => exact ⟨i, rfl⟩

theorem Running.called_eq (hrun : s.Running) (made : Sched) :
    (match s.phase with | .scan _ => s | _ => made) = made := by
  cases hp : s.phase with
  | scan i => exact absurd hp (hrun i)
  | idle | slice => rfl

theorem svcSemWait_called (h : s.Tidy) (hrun : s.Running) (sem : Nat) (timed inCb : Bool) :
    Called cfg s (.semWait sem timed inCb) (s.svcSemWait cfg sem timed inCb) := by
  unfold svcSemWait
  cases inCb with
  | true => exact .waitInCallback sem timed
  | false =>
    rw [if_neg Bool.false_ne_true]
    split
    · split
      case isTrue hw =>
        split
        · exact .waitLoops sem timed _ hw
        · exact .unchanged _
      case isFalse =>
        split
        case isTrue hpos => exact .waitTook sem timed _ hpos
        case isFalse => exact .waitRefused sem timed _
    · split
      case isTrue hpos => exact .waitTook sem timed _ hpos
      case isFalse =>
        obtain ⟨i, hp⟩ := hrun.slice ‹_›
        split
        case isTrue hnull =>
          subst hnull
          rw [endSlice_eq (by exact hp)]
          simp only [Bool.or_false]
          exact .waitNull timed _ hp
        case isFalse =>
          rw [park_eq h hp]
          exact .waitParks sem timed _ hp

theorem svcFutexWait_called (h : s.Tidy) (hrun : s.Running) (uaddr val : Nat) :
    Called cfg s (.futexWait uaddr val) (s.svcFutexWait cfg uaddr val) := by
  unfold svcFutexWait
  split
  case isTrue => exact .unchanged _
  case isFalse hword =>
    split
    case isTrue htok =>
      obtain ⟨hhigh, hsame⟩ := not_or.mp hword
      exact .futexTook uaddr val (not_lt.mp hhigh) (of_not_not hsame) htok
    case isFalse htok =>
      split
      · split
        case isTrue hw => exact .futexLoops uaddr val hw.1
        case isFalse => exact .unchanged _
      · obtain ⟨i, hp⟩ := hrun.slice ‹_›
        rw [park_eq h hp]
        exact .futexParks uaddr val hp (Nat.eq_zero_of_not_pos htok)

/-! ### What the smaller calls change -/

theorem writeMutex_eq (s : Sched) (mutex word : Nat) :
    ∃ mem, s.writeMutex mutex word = { s with mem } := by
  unfold writeMutex
  split
  · exact ⟨s.mem, rfl⟩
  · exact ⟨_, rfl⟩

@[simp]
theorem writeMutex_phase (s : Sched) (mutex word : Nat) :
    (s.writeMutex mutex word).phase = s.phase := by
  obtain ⟨mem, heq⟩ := s.writeMutex_eq mutex word
  rw [heq]

section

variable (s : Sched)

@[simp]
theorem writeMutex_workers (mutex word : Nat) : (s.writeMutex mutex word).workers = s.workers := by
  obtain ⟨mem, heq⟩ := s.writeMutex_eq mutex word
  rw [heq]

variable (cond : Nat)

theorem takeCond_eq : ∃ conds, s.takeCond cond = { s with conds } := by
  unfold takeCond
  split
  · exact ⟨s.conds, rfl⟩
  · exact ⟨_, rfl⟩

theorem svcFutexWake_eq (uaddr n : Nat) :
    ∃ tokens owed, s.svcFutexWake uaddr n = { s with tokens, owed } := by
  unfold svcFutexWake
  split
  · exact ⟨s.tokens, s.owed, rfl⟩
  · exact ⟨_, _, rfl⟩

theorem wakeAll_nil : s.wakeAll cond [] = s := by
  have hworkers : s.workers.mapIdx (fun i t => if i ∈ [] then { t with waitingCond := 0 } else t) =
      s.workers := by
    apply ext_getElem?
    simp
  simp only [wakeAll, hworkers, map_nil, append_nil]

theorem svcCondSignal_eq : ∃ woken conds, (∀ i ∈ woken, cond ≠ 0 ∧ i ∈ s.blockedOn cond) ∧
      s.svcCondSignal cond = { s.wakeAll cond woken with conds } := by
  unfold svcCondSignal
  split
  case isTrue => exact ⟨[], s.conds, nofun, by rw [wakeAll_nil]⟩
  case isFalse hcond =>
    split
    case h_1 i rest heq =>
      refine ⟨[i], s.conds, fun j hj => ⟨hcond, ?_⟩, rfl⟩
      rw [mem_singleton.mp hj, heq]
      exact mem_cons_self
    case h_2 => exact ⟨[], _, nofun, by rw [wakeAll_nil]⟩

theorem svcCondBroadcast_eq : ∃ woken conds, (∀ i ∈ woken, cond ≠ 0 ∧ i ∈ s.blockedOn cond) ∧
      s.svcCondBroadcast cond = { s.wakeAll cond woken with conds } := by
  unfold svcCondBroadcast
  split
  case isTrue => exact ⟨[], s.conds, nofun, by rw [wakeAll_nil]⟩
  case isFalse hcond => exact ⟨s.blockedOn cond, _, fun i hi => ⟨hcond, hi⟩, rfl⟩

end

theorem Tidy.writeMutex (h : s.Tidy) (mutex word : Nat) : (s.writeMutex mutex word).Tidy := by
  obtain ⟨mem, heq⟩ := s.writeMutex_eq mutex word
  rw [heq]
  exact h.congr rfl rfl id

theorem svcCondWait_called (h : s.Tidy) (hrun : s.Running) (cond mutex : Nat) :
    Called cfg s (.condWait cond mutex) (s.svcCondWait cfg cond mutex) := by
  unfold svcCondWait
  split
  case isTrue => exact .condTook cond mutex
  case isFalse htok =>
    split
    · split
      case isTrue hw => exact .condAlone cond mutex hw
      case isFalse hw =>
        split
        · exact .condLoops cond mutex hw
        · exact .unchanged _
    · obtain ⟨i, hp⟩ := hrun.slice ‹_›
      rw [park_eq (h.writeMutex ..) ((writeMutex_phase ..).trans hp)]
      exact .condParks cond mutex hp (Bool.not_eq_true _ ▸ htok)

theorem svcCondTimedwait_called (hrun : s.Running) (cond mutex : Nat) :
    Called cfg s (.condTimedwait cond mutex) (s.svcCondTimedwait cond mutex) := by
  unfold svcCondTimedwait
  split
  case isTrue => exact .timedTook cond mutex
  case isFalse =>
    split
    · split
      case isTrue hw => exact .timedAlone cond mutex hw
      case isFalse hw =>
        split
        · exact .timedLoops cond mutex hw
        · exact .unchanged _
    · obtain ⟨i, hp⟩ := hrun.slice ‹_›
      rw [endSlice_eq ((writeMutex_phase ..).trans hp)]
      simp only [Bool.or_false]
      exact .timedYields cond mutex hp

/-- **Every call has one of the listed outcomes.** -/
theorem call_called (h : s.Tidy) (hrun : s.Running) (op : SchedOp) :
    Called cfg s op (s.call cfg op) := by
  cases op with
  | pass | visit | endSlice | poll => exact .unchanged _
  | create entryPc arg => exact .created entryPc arg
  | store addr value => exact .stored addr value
  | semPost sem => exact .posted sem
  | semTrywait sem =>
    change Called cfg s _ (s.svcSemTrywait sem)
    unfold svcSemTrywait
    split
    case isTrue hpos => exact .tryTook sem hpos
    case isFalse => exact .tryRefused sem
  | semWait sem timed inCb => exact svcSemWait_called h hrun sem timed inCb
  | futexWake uaddr n => exact .futexWoke uaddr n
  | futexWait uaddr val => exact svcFutexWait_called h hrun uaddr val
  | condWait cond mutex => exact svcCondWait_called h hrun cond mutex
  | condTimedwait cond mutex => exact svcCondTimedwait_called hrun cond mutex
  | condSignal cond => exact .condSignalled cond
  | condBroadcast cond => exact .condBroadcast cond

theorem wakeAll_getElem? (ht : s.workers[i]? = some t) (cond : Nat) (woken : List Nat) :
    (s.wakeAll cond woken).workers[i]? =
      some (if i ∈ woken then { t with waitingCond := 0 } else t) := by
  simp [wakeAll, ht]

theorem Tidy.wakeAll (h : s.Tidy) (cond : Nat) (woken : List Nat) :
    (s.wakeAll cond woken).Tidy where
  workers := h.workers.mapIdx fun i t ht => by
    by_cases hi : i ∈ woken
    · rw [if_pos hi]
      exact ⟨ht.1, absurd rfl, ht.2.sem, ht.2.futex⟩
    · rw [if_neg hi]
      exact ht
  running := by
    intro i hp
    obtain ⟨t, ht, hfree⟩ := h.running i hp
    exact ⟨_, wakeAll_getElem? ht cond woken, hfree.wake _⟩
  main := by simpa [Sched.wakeAll] using h.main

theorem Tidy.called {op : SchedOp} (h : s.Tidy) (hc : Called cfg s op s') : s'.Tidy := by
  cases hc with
  | unchanged => exact h
  | created entryPc arg =>
    refine ⟨h.workers.concat ⟨rfl, tidy_of_unmarked rfl rfl rfl⟩, ?_, fun _ => by simp⟩
    intro i hp
    obtain ⟨t, ht, hfree⟩ := h.running i hp
    have hi := (List.getElem?_eq_some_iff.mp ht).1
    exact ⟨t, (getElem?_append_left hi).trans ht, hfree⟩
  | stored | posted | tryTook | tryRefused | waitInCallback | waitTook | waitRefused | futexTook =>
    exact h.congr rfl rfl id
  | waitLoops _ _ _ hw | futexLoops _ _ hw => exact ⟨h.workers, h.running, fun _ => hw⟩
  | waitNull timed inCb hp =>
    have hanswer : (s.semAnswer 0 timed 0).Tidy := h.congr rfl rfl id
    exact hanswer.ended hp fun t ht => ⟨rfl, tidy_of_unmarked ht.cond ht.sem ht.futex⟩
  | waitParks sem timed inCb hp =>
    exact h.ended hp fun t ht => ⟨rfl, absurd ht.cond,
      fun _ => ⟨ht.live, ht.futex, rfl, rfl⟩, absurd ht.futex⟩
  | futexWoke uaddr n =>
    obtain ⟨tokens, owed, heq⟩ := s.svcFutexWake_eq uaddr n
    rw [heq]
    exact h.congr rfl rfl id
  | futexParks uaddr val hp =>
    exact h.ended hp fun t ht => ⟨rfl, absurd ht.cond,
      absurd ht.sem, fun _ => ht.live⟩
  | condTook cond | timedTook cond =>
    obtain ⟨conds, heq⟩ := s.takeCond_eq cond
    rw [heq]
    exact h.congr rfl rfl id
  | condAlone _ mutex | timedAlone _ mutex => exact h.writeMutex mutex _
  | condLoops _ mutex hw | timedLoops _ mutex hw =>
    exact ⟨(h.writeMutex mutex 0).workers, (h.writeMutex mutex 0).running,
      fun _ => by simpa using hw⟩
  | condParks cond mutex hp =>
    exact (h.writeMutex mutex _).ended ((writeMutex_phase ..).trans hp) fun t ht =>
      ⟨rfl, fun _ => ⟨ht.live, ht.sem, ht.futex, rfl⟩, absurd ht.sem, absurd ht.futex⟩
  | timedYields cond mutex hp =>
    exact (h.writeMutex mutex _).ended ((writeMutex_phase ..).trans hp) fun t ht =>
      ⟨rfl, tidy_of_unmarked ht.cond ht.sem ht.futex⟩
  | condSignalled cond =>
    obtain ⟨woken, conds, -, heq⟩ := s.svcCondSignal_eq cond
    rw [heq]
    exact (h.wakeAll cond woken).congr rfl rfl id
  | condBroadcast cond =>
    obtain ⟨woken, conds, -, heq⟩ := s.svcCondBroadcast_eq cond
    rw [heq]
    exact (h.wakeAll cond woken).congr rfl rfl id

/-! ## The outcomes of an event -/

def begun (s : Sched) : Sched := { s with phase := .scan 0, passes := s.passes + 1 }

/-- The outcomes of a turn of the main thread's loop: it gets what it waited for, gives
up, or starts another pass. -/
inductive Polled (s : Sched) : Sched → Prop
  | unchanged : Polled s s
  | semTook {sem left : Nat} {timed : Bool} (wait : s.main = some (.sem sem timed left))
      (positive : 0 < s.sems sem) : Polled s { s.semTake sem timed with main := none }
  | semFailed {sem left : Nat} {timed : Bool} (wait : s.main = some (.sem sem timed left)) :
      Polled s { s.semAnswer sem timed minusOne with main := none }
  | semAgain {sem left : Nat} {timed : Bool} (wait : s.main = some (.sem sem timed left))
      (idle : s.phase = .idle) : Polled s { s.begun with main := some (.sem sem timed (left - 1)) }
  | futexDone : Polled s { s with main := none }
  | futexTook {uaddr val left : Nat} (wait : s.main = some (.futex uaddr val left))
      (same : s.mem uaddr = val) (positive : 0 < s.tokens uaddr) :
      Polled s { s.takeToken uaddr with main := none }
  | futexAgain {uaddr val left : Nat} (wait : s.main = some (.futex uaddr val left))
      (idle : s.phase = .idle) :
      Polled s { s.begun with main := some (.futex uaddr val (left - 1)) }
  | condDone {cond mutex saved left : Nat} (wait : s.main = some (.cond cond mutex saved left)) :
      Polled s { s.writeMutex mutex (retaken saved 0) with main := none }
  | condAgain {cond mutex saved left : Nat} (wait : s.main = some (.cond cond mutex saved left))
      (idle : s.phase = .idle) (turns : left ≠ 0) :
      Polled s { s.begun with main := some (.cond cond mutex saved (left - 1)) }

theorem Tidy.schedule_eq (h : s.Tidy) (hp : s.phase = .idle) (hm : s.main ≠ none) :
    s.schedule = s.begun := if_pos ⟨hp, h.main hm⟩

theorem mainPoll_polled (h : s.Tidy) : Polled s s.mainPoll := by
  unfold mainPoll
  split
  case h_1 sem timed left hp hm =>
    have hsched := h.schedule_eq hp (by simp [hm])
    split
    case isTrue hpos => exact .semTook hm hpos
    case isFalse =>
      split
      · rw [hsched]
        exact .semAgain hm hp
      · exact .semFailed hm
  case h_2 uaddr val left hp hm =>
    have hsched := h.schedule_eq hp (by simp [hm])
    split
    case isTrue => exact .futexDone
    case isFalse hsame =>
      split
      case isTrue hpos => exact .futexTook hm (of_not_not hsame) hpos
      case isFalse =>
        split
        · rw [hsched]
          exact .futexAgain hm hp
        · exact .futexDone
  case h_3 cond mutex saved left hp hm =>
    have hsched := h.schedule_eq hp (by simp [hm])
    split
    case isTrue => exact .condDone hm
    case isFalse hgo =>
      rw [hsched]
      exact .condAgain hm hp (not_or.mp hgo).2
  case h_4 => exact .unchanged

/-- The outcomes of an event. -/
inductive Stepped (cfg : SchedConfig) (s : Sched) : SchedOp → Sched → Prop
  | unchanged (op : SchedOp) : Stepped cfg s op s
  | passBegins (idle : s.phase = .idle) : Stepped cfg s .pass s.begun
  | passEnds {i : Nat} (scan : s.phase = .scan i) (last : s.workers.length ≤ i) :
      Stepped cfg s .visit { s with phase := .idle }
  | visited {i : Nat} {t : Worker} {s' : Sched} (scan : s.phase = .scan i)
      (record : s.workers[i]? = some t) (outcome : Visited cfg s i t s') : Stepped cfg s .visit s'
  | sliceEnds {i : Nat} (slice : s.phase = .slice i) (r0 x0 : Nat) (finished : Bool) :
      Stepped cfg s (.endSlice r0 x0 finished)
        (s.ended i fun t => { t with r0, x0, finished := t.finished || finished })
  | polled {s' : Sched} (outcome : Polled s s') : Stepped cfg s .poll s'
  | called {op : SchedOp} {s' : Sched} (running : s.Running) (outcome : Called cfg s op s') :
      Stepped cfg s op s'

section

variable (h : s.Tidy)
include h

theorem visit_stepped : Stepped cfg s .visit (s.visit cfg) := by
  cases hp : s.phase with
  | idle | slice =>
    have heq : s.visit cfg = s := by simp [visit, hp]
    rw [heq]
    exact .unchanged _
  | scan i =>
    cases ht : s.workers[i]? with
    | none =>
      have heq : s.visit cfg = { s with phase := .idle } := by simp [visit, hp, ht]
      rw [heq]
      exact .passEnds hp (getElem?_eq_none_iff.mp ht)
    | some t => exact .visited hp ht (visit_visited h hp ht)

theorem call_stepped (op : SchedOp) :
    Stepped cfg s op (match s.phase with | .scan _ => s | _ => s.call cfg op) := by
  split
  · exact .unchanged _
  · rename_i hrun
    exact .called hrun (call_called h hrun op)

/-- **Every event has one of the listed outcomes.** -/
theorem step_stepped (op : SchedOp) : Stepped cfg s op (s.step cfg op) := by
  cases op with
  | pass =>
    change Stepped cfg s .pass s.schedule
    unfold schedule
    split
    case isTrue hidle => exact .passBegins hidle.1
    case isFalse => exact .unchanged _
  | visit => exact visit_stepped h
  | endSlice r0 x0 finished =>
    change Stepped cfg s _ (s.endSlice r0 x0 finished)
    cases hp : s.phase with
    | idle | scan =>
      simp only [endSlice, hp]
      exact .unchanged _
    | slice i =>
      rw [endSlice_eq hp]
      exact .sliceEnds hp r0 x0 finished
  | poll => exact .polled (mainPoll_polled h)
  | create | store | semPost | semTrywait | semWait | futexWake | futexWait | condWait
  | condTimedwait | condSignal | condBroadcast => exact call_stepped h _

theorem Tidy.begun : s.begun.Tidy :=
  ⟨h.workers, fun j hj => absurd hj (by simp [Sched.begun]), h.main⟩

theorem Tidy.polled (hp : Polled s s') : s'.Tidy := by
  cases hp with
  | unchanged => exact h
  | semTook | semFailed | futexDone | futexTook => exact h.congr rfl rfl (absurd rfl)
  | semAgain hm | futexAgain hm | condAgain hm =>
    exact ⟨h.workers, h.begun.running, fun _ => h.main (by simp [hm])⟩
  | condDone => exact (h.writeMutex ..).congr rfl rfl (absurd rfl)

theorem Tidy.stepped {op : SchedOp} (hs : Stepped cfg s op s') : s'.Tidy := by
  cases hs with
  | unchanged => exact h
  | passBegins => exact h.begun
  | passEnds => exact ⟨h.workers, fun j hj => absurd hj (by simp), h.main⟩
  | visited _ ht hv => exact h.visited ht hv
  | sliceEnds hp =>
    exact h.ended hp fun t ht => ⟨rfl, tidy_of_unmarked ht.cond ht.sem ht.futex⟩
  | polled hp => exact h.polled hp
  | called _ hc => exact h.called hc

end

theorem tidy_initial (mem : Nat → Nat) (sems : Nat → Int) : (initial mem sems).Tidy :=
  ⟨fun i t ht => absurd ht (by simp [initial]), fun i hi => absurd hi (by simp [initial]),
    absurd rfl⟩

end Sched

/-! ## Time -/

/-- The pass under way has not come past worker `i`. -/
def Phase.Before : Phase → Nat → Prop
  | .idle, _ => False
  | .scan j, i => j ≤ i
  | .slice j, i => j < i

/-- A wake was made in the current pass, or in the one before it and the current one has
not come past the worker. -/
def Sched.OnTime (s : Sched) (d : Debt) : Prop :=
  s.passes = d.pass ∨ s.passes = d.pass + 1 ∧ s.phase.Before d.worker

namespace Sched.OnTime

variable {s s' : Sched} {d : Debt} {i : Nat}

section

variable (h : s.OnTime d)
include h

theorem le : s.passes ≤ d.pass + 1 := by
  rcases h with h | ⟨h, -⟩ <;> omega

theorem congr (hn : s'.passes = s.passes) (hp : s'.phase = s.phase) : s'.OnTime d := by
  unfold OnTime
  rw [hn, hp]
  exact h

theorem begun (hp : s.phase = .idle) : s.begun.OnTime d := by
  rcases h with h | ⟨-, hb⟩
  · exact .inr ⟨congrArg _ h, Nat.zero_le _⟩
  · rw [hp] at hb
    exact hb.elim

theorem past (hp : s.phase = .scan i) (hne : d.worker ≠ i)
    (hn : s'.passes = s.passes) (hp' : s'.phase = .scan (i + 1) ∨ s'.phase = .slice i) :
    s'.OnTime d := by
  unfold OnTime
  rw [hn]
  refine h.imp_right fun ⟨hn, hb⟩ => ⟨hn, ?_⟩
  rw [hp] at hb
  have hlt : i < d.worker := lt_of_le_of_ne hb hne.symm
  rcases hp' with hp' | hp'
  · rw [hp']
    exact hlt
  · rw [hp']
    exact hlt

theorem ended (hp : s.phase = .slice i) (f : Worker → Worker) : (s.ended i f).OnTime d := by
  refine h.imp_right fun ⟨hn, hb⟩ => ⟨hn, ?_⟩
  rw [hp] at hb
  exact hb

theorem passEnds (hp : s.phase = .scan i) (hlast : s.workers.length ≤ i)
    (hd : d.worker < s.workers.length) : { s with phase := .idle }.OnTime d := by
  rcases h with h | ⟨-, hb⟩
  · exact .inl h
  · rw [hp] at hb
    exact absurd (le_trans hlast hb) (not_le.mpr hd)

end

end Sched.OnTime

end Lunaria
