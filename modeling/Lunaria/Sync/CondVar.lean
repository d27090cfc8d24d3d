/-
# Condition variables

A worker blocks in `pthread_cond_wait` by a mark in its record, the main thread by a loop
over `schedule_threads`. A broadcast clears the marks of all blocked workers and a signal
that of the first one; the next visit of the pass then runs the worker. Nothing can hold
a woken worker back, so it returns before the pass after the current one ends. The main
thread's loop makes at most `LUNARIA_FUTEX_SPINS` passes.

What fails is the mutex. The main thread gives its mutex up before the loop and takes it
back after it. A worker gives it up, sets its mark, and takes it back in the same call,
so it owns the mutex for as long as it is blocked.
-/

import Lunaria.Sync.Passes

namespace Lunaria

open Lib List Function

/-! ## The property -/

/-- The mutex word names the thread as owner. -/
def HeldBy (word tid : Nat) : Prop := 0x100 ≤ word ∧ word % 0x100 = tid + 1
  deriving Decidable

namespace Sched

/-- The mutex the main thread has passed to the wait it is in. -/
def mainMutex (s : Sched) : Option Nat :=
  match s.main with
  | some (.cond _ mutex _ _) => some mutex
  | _ => none

/-- Whoever is woken returns: a worker has a slice before the pass after the wake ends; a broadcast
wakes all blocked workers and a signal one; the main thread's loop has a turn less with every pass.
-/
structure WakesUp (cfg : SchedConfig) (s : Sched) : Prop where
  inTime : ∀ d ∈ s.signalled, s.passes ≤ d.pass + 1
  broadcast : s.Running → ∀ cond, cond ≠ 0 → ∀ i ∈ s.blockedOn cond,
    ⟨i, cond, s.passes⟩ ∈ (s.step cfg (.condBroadcast cond)).signalled
  signal : s.Running → ∀ cond, cond ≠ 0 → s.blockedOn cond ≠ [] →
    ∃ i ∈ s.blockedOn cond, ⟨i, cond, s.passes⟩ ∈ (s.step cfg (.condSignal cond)).signalled
  main : s.phase = .idle → ∀ cond mutex saved left, s.main = some (.cond cond mutex saved left) →
    (s.step cfg .poll).main = none ∨
      0 < left ∧ (s.step cfg .poll).main = some (.cond cond mutex saved (left - 1))

/-- No thread holds the mutex it passed to the wait it is blocked in. -/
structure GivesUpMutex (s : Sched) : Prop where
  worker : AtEach (fun _ t => t.waitingCond ≠ 0 → t.waitMutex ≠ 0 →
    ¬ HeldBy (s.mem t.waitMutex) t.id) s.workers
  main : ∀ mutex, s.mainMutex = some mutex → mutex ≠ 0 → ¬ HeldBy (s.mem mutex) 0

/-- The word does not name the main thread, if it goes into the mutex that the main
thread is blocked with. -/
def Spares (s : Sched) (mutex word : Nat) : Prop :=
  s.mainMutex = some mutex → mutex ≠ 0 → ¬ HeldBy word 0

/-- A worker that blocks passes no mutex, and nobody gives the blocked main thread its mutex. -/
def Unowned (s : Sched) : SchedOp → Prop
  | .condWait cond mutex =>
    s.phase ≠ .idle → s.condToken cond = false →
      (cond ≠ 0 → mutex = 0) ∧ s.Spares mutex (retaken (s.mem mutex) s.curTid)
  | .condTimedwait _ mutex => s.phase ≠ .idle → s.Spares mutex (retaken (s.mem mutex) s.curTid)
  | .store addr value => s.Spares addr value
  | _ => True

instance sparesDecidable (s : Sched) (mutex word : Nat) : Decidable (s.Spares mutex word) :=
  inferInstanceAs (Decidable (_ → _ → _))

instance unownedDecidable (s : Sched) : ∀ op, Decidable (s.Unowned op)
  | .condWait _ _ => inferInstanceAs (Decidable (_ → _ → (_ → _) ∧ _))
  | .condTimedwait _ _ => inferInstanceAs (Decidable (_ → _))
  | .store addr value => inferInstanceAs (Decidable (s.Spares addr value))
  | .pass | .visit | .endSlice .. | .poll | .create .. | .semPost _ | .semTrywait _
  | .semWait .. | .futexWake .. | .futexWait .. | .condSignal _ | .condBroadcast _ =>
    .isTrue trivial

/-! ## A woken worker is not held back -/

variable {cfg : SchedConfig} {s s' : Sched} {i : Nat} {t : Worker} {d : Debt}

/-- A woken worker that has not had its slice yet. -/
structure Due (s : Sched) (d : Debt) : Prop where
  ready : ∃ t, s.workers[d.worker]? = some t ∧ t.Free ∧ t.r0 = 0
  waiting : s.phase ≠ .slice d.worker
  onTime : s.OnTime d

theorem Due.congr (h : s.Due d) (hw : s'.workers = s.workers) (hn : s'.passes = s.passes)
    (hp : s'.phase = s.phase) : s'.Due d :=
  ⟨hw ▸ h.ready, hp ▸ h.waiting, h.onTime.congr hn hp⟩

theorem Visited.enter_of_free (hv : Visited cfg s i t s') (ht : t.Free) (hr0 : t.r0 = 0) :
    ∃ n, s' = s.enter i { t with deferCount := n } := by
  cases hv with
  | blocked why =>
    rcases why with hfin | hc | hs | ⟨hf, -⟩
    · exact absurd (hfin.symm.trans ht.live) (by simp)
    · exact absurd ht.cond hc
    · exact absurd ht.sem hs
    · exact absurd ht.futex hf
  | counted hs | granted hs | timedOut hs => exact absurd ht.sem hs
  | token hf | changed hf => exact absurd ht.futex hf
  | free =>
    rcases resume_cases cfg s i t with hent | ⟨hne, -⟩
    · exact hent
    · exact absurd hr0 hne

theorem Visited.passed (hv : Visited cfg s i t s') :
    ∃ r u, Passed r i u s' ∧ u.waitingCond = t.waitingCond ∧ u.waitMutex = t.waitMutex ∧
      r.workers = s.workers ∧ r.passes = s.passes ∧ r.mem = s.mem ∧ r.main = s.main ∧
      r.signalled = s.signalled := by
  cases hv with
  | blocked | counted => exact ⟨s, _, leave_passed s i _, rfl, rfl, rfl, rfl, rfl, rfl, rfl⟩
  | free | granted | timedOut | token | changed =>
    exact ⟨_, _, resume_passed cfg _ i _, rfl, rfl, rfl, rfl, rfl, rfl, rfl⟩

theorem Due.visited (h : s.Due d) (hp : s.phase = .scan i) (hne : d.worker ≠ i)
    (hv : Visited cfg s i t s') : s'.Due d := by
  obtain ⟨r, u, hpassed, -, -, hw, hn, -⟩ := hv.passed
  obtain ⟨n, fin, hset⟩ := hpassed.record
  refine ⟨?_, ?_, h.onTime.past hp hne (hpassed.passes.trans hn) hpassed.phase⟩
  · rw [hset, hw, getElem?_set_ne hne.symm]
    exact h.ready
  · rcases hpassed.phase with hp' | hp'
    · simp [hp']
    · simpa [hp'] using hne.symm

theorem Due.begun (h : s.Due d) (hp : s.phase = .idle) : s.begun.Due d :=
  ⟨h.ready, by simp [Sched.begun], h.onTime.begun hp⟩

theorem Due.ended (h : s.Due d) (hp : s.phase = .slice i) (f : Worker → Worker) :
    (s.ended i f).Due d := by
  have hne : i ≠ d.worker := fun heq => h.waiting (heq ▸ hp)
  refine ⟨?_, by simp [Sched.ended], h.onTime.ended hp f⟩
  simp only [Sched.ended, getElem?_modify_ne _ _ hne]
  exact h.ready

theorem Due.append (h : s.Due d) (u : Worker) : { s with workers := s.workers ++ [u] }.Due d := by
  obtain ⟨t, ht, hready⟩ := h.ready
  have hi := (List.getElem?_eq_some_iff.mp ht).1
  exact ⟨⟨t, (getElem?_append_left hi).trans ht, hready⟩, h.waiting, h.onTime⟩

theorem Due.wakeAll (h : s.Due d) (cond : Nat) (woken : List Nat) :
    (s.wakeAll cond woken).Due d := by
  obtain ⟨t, ht, hfree, hr0⟩ := h.ready
  refine ⟨⟨_, wakeAll_getElem? ht cond woken, hfree.wake _, ?_⟩, h.waiting, h.onTime⟩
  split
  · exact hr0
  · exact hr0

variable {cond : Nat}

theorem mem_blockedOn : i ∈ s.blockedOn cond ↔
      ∃ t, s.workers[i]? = some t ∧ t.finished = false ∧ t.waitingCond = cond := by
  simp [blockedOn, mem_indicesWhere]

theorem Tidy.due_wakeAll (h : s.Tidy) (hcond : cond ≠ 0) {woken : List Nat}
    (hi : i ∈ woken) (hblocked : i ∈ s.blockedOn cond) :
    (s.wakeAll cond woken).Due ⟨i, cond, s.passes⟩ := by
  obtain ⟨t, ht, hlive, hc⟩ := mem_blockedOn.mp hblocked
  have hmark : t.waitingCond ≠ 0 := hc ▸ hcond
  obtain ⟨-, hs, hf, hr0⟩ := (h.workers i t ht).2.cond hmark
  refine ⟨⟨{ t with waitingCond := 0 }, ?_, ⟨hlive, rfl, hs, hf⟩, hr0⟩, ?_, .inl rfl⟩
  · rw [wakeAll_getElem? ht, if_pos hi]
  · intro hp
    obtain ⟨u, hu, hfree⟩ := h.running i hp
    obtain rfl : u = t := Option.some.inj (hu.symm.trans ht)
    exact hmark hfree.cond

/-- Every wake on record is one of a worker that is due. -/
def AllDue (s : Sched) : Prop := ∀ d ∈ s.signalled, s.Due d

section

variable (h : s.AllDue)
include h

theorem AllDue.wakeAll (htidy : s.Tidy) {woken : List Nat}
    (hwoken : ∀ i ∈ woken, cond ≠ 0 ∧ i ∈ s.blockedOn cond) : (s.wakeAll cond woken).AllDue := by
  intro d hd
  rcases mem_append.mp hd with hd | hd
  · exact (h d hd).wakeAll cond woken
  · obtain ⟨i, hi, rfl⟩ := mem_map.mp hd
    exact htidy.due_wakeAll (hwoken i hi).1 hi (hwoken i hi).2

theorem AllDue.congr (hd : s'.signalled = s.signalled)
    (hw : s'.workers = s.workers) (hn : s'.passes = s.passes) (hp : s'.phase = s.phase) :
    s'.AllDue := fun d hmem => (h d (hd ▸ hmem)).congr hw hn hp

theorem AllDue.visited (hp : s.phase = .scan i) (ht : s.workers[i]? = some t)
    (hv : Visited cfg s i t s') : s'.AllDue := by
  intro d hd
  obtain ⟨r, u, hpassed, -, -, -, -, -, -, hsignalled⟩ := hv.passed
  have hold := h d (hsignalled ▸ hpassed.signalled d hd)
  by_cases hne : d.worker = i
  · -- the worker itself is visited: it gets its slice, so the wake is no longer on record
    obtain ⟨u, hu, hfree, hr0⟩ := hold.ready
    rw [hne, ht] at hu
    cases hu
    obtain ⟨n, rfl⟩ := hv.enter_of_free hfree hr0
    have hfilter := of_mem_filter hd
    exact absurd hne (by simpa using hfilter)
  · exact hold.visited hp hne hv

theorem AllDue.ended (hp : s.phase = .slice i) (f : Worker → Worker) :
    (s.ended i f).AllDue := fun d hd => (h d hd).ended hp f

theorem AllDue.begun (hp : s.phase = .idle) : s.begun.AllDue :=
  fun d hd => (h d hd).begun hp

theorem AllDue.writeMutex (mutex word : Nat) : (s.writeMutex mutex word).AllDue := by
  obtain ⟨mem, heq⟩ := s.writeMutex_eq mutex word
  rw [heq]
  exact h.congr rfl rfl rfl rfl

end

variable {op : SchedOp}

theorem AllDue.called (h : s.AllDue) (htidy : s.Tidy) (hc : Called cfg s op s') : s'.AllDue := by
  cases hc with
  | unchanged => exact h
  | created => exact fun d hd => (h d hd).append _
  | stored | posted | tryTook | tryRefused | waitInCallback | waitTook | waitRefused | futexTook
  | waitLoops | futexLoops => exact h.congr rfl rfl rfl rfl
  | waitNull timed _ hp =>
    have hanswer : (s.semAnswer 0 timed 0).AllDue := h.congr rfl rfl rfl rfl
    exact hanswer.ended hp _
  | waitParks _ _ _ hp | futexParks _ _ hp => exact h.ended hp _
  | futexWoke uaddr n =>
    obtain ⟨tokens, owed, heq⟩ := s.svcFutexWake_eq uaddr n
    rw [heq]
    exact h.congr rfl rfl rfl rfl
  | condTook cond | timedTook cond =>
    obtain ⟨conds, heq⟩ := s.takeCond_eq cond
    rw [heq]
    exact h.congr rfl rfl rfl rfl
  | condAlone _ mutex | timedAlone _ mutex => exact h.writeMutex mutex _
  | condLoops _ mutex | timedLoops _ mutex => exact (h.writeMutex mutex 0).congr rfl rfl rfl rfl
  | condParks _ mutex hp | timedYields _ mutex hp =>
    exact (h.writeMutex mutex _).ended ((writeMutex_phase ..).trans hp) _
  | condSignalled cond =>
    obtain ⟨woken, conds, hwoken, heq⟩ := s.svcCondSignal_eq cond
    rw [heq]
    exact (h.wakeAll htidy hwoken).congr rfl rfl rfl rfl
  | condBroadcast cond =>
    obtain ⟨woken, conds, hwoken, heq⟩ := s.svcCondBroadcast_eq cond
    rw [heq]
    exact (h.wakeAll htidy hwoken).congr rfl rfl rfl rfl

theorem AllDue.polled (h : s.AllDue) (hp : Polled s s') : s'.AllDue := by
  cases hp with
  | unchanged => exact h
  | semTook | semFailed | futexDone | futexTook => exact h.congr rfl rfl rfl rfl
  | semAgain _ hidle | futexAgain _ hidle | condAgain _ hidle =>
    exact (h.begun hidle).congr rfl rfl rfl rfl
  | condDone => exact (h.writeMutex _ _).congr rfl rfl rfl rfl

theorem AllDue.stepped (h : s.AllDue) (htidy : s.Tidy) (hs : Stepped cfg s op s') : s'.AllDue := by
  cases hs with
  | unchanged => exact h
  | passBegins hidle => exact h.begun hidle
  | passEnds hp hlast =>
    intro d hd
    obtain ⟨t, ht, -⟩ := (h d hd).ready
    exact ⟨(h d hd).ready, by simp,
      (h d hd).onTime.passEnds hp hlast (List.getElem?_eq_some_iff.mp ht).1⟩
  | visited hp ht hv => exact h.visited hp ht hv
  | sliceEnds hp => exact h.ended hp _
  | polled hp => exact h.polled hp
  | called _ hc => exact h.called htidy hc

/-! ## The mutex of a blocked thread -/

/-- No blocked worker has passed a mutex, and the mutex of the blocked main thread does
not name it. -/
structure Released (s : Sched) : Prop where
  worker : AtEach (fun _ t => t.waitingCond ≠ 0 → t.waitMutex = 0) s.workers
  main : ∀ mutex, s.mainMutex = some mutex → mutex ≠ 0 → ¬ HeldBy (s.mem mutex) 0

theorem Released.givesUpMutex (h : s.Released) : s.GivesUpMutex :=
  ⟨fun i t ht hc hm => absurd (h.worker i t ht hc) hm, h.main⟩

theorem mainMutex_congr (hm : s'.main = s.main) : s'.mainMutex = s.mainMutex := by
  simp [mainMutex, hm]

section

variable (h : s.Released)
include h

theorem Released.congr (hw : s'.workers = s.workers) (hmem : s'.mem = s.mem)
    (hm : s'.mainMutex = s.mainMutex ∨ s'.mainMutex = none) : s'.Released := by
  refine ⟨hw ▸ h.worker, fun mutex hmutex hne => ?_⟩
  rcases hm with hm | hm
  · rw [hmem]
    exact h.main mutex (hm ▸ hmutex) hne
  · exact absurd (hm.symm.trans hmutex) (by simp)

theorem Released.store {addr value : Nat} (hspares : s.Spares addr value) :
    { s with mem := update s.mem addr value }.Released := by
  refine ⟨h.worker, fun mutex hmutex hne => ?_⟩
  by_cases heq : mutex = addr
  · subst heq
    simpa using hspares hmutex hne
  · simpa [update_of_ne heq] using h.main mutex hmutex hne

theorem Released.writeMutex {mutex word : Nat} (hspares : s.Spares mutex word) :
    (s.writeMutex mutex word).Released := by
  unfold Sched.writeMutex
  split
  · exact h
  · exact h.store hspares

theorem Released.ended {f : Worker → Worker}
    (hf : ∀ t, s.workers[i]? = some t → (f t).waitingCond ≠ 0 → (f t).waitMutex = 0) :
    (s.ended i f).Released :=
  ⟨h.worker.modify hf, h.main⟩

theorem Released.visited (ht : s.workers[i]? = some t)
    (hv : Visited cfg s i t s') : s'.Released := by
  obtain ⟨r, u, hpassed, hcond, hmutex, hw, -, hmem, hmain, -⟩ := hv.passed
  obtain ⟨n, fin, hset⟩ := hpassed.record
  constructor
  · rw [hset, hw]
    refine h.worker.set fun hc => ?_
    exact hmutex.trans (h.worker i t ht (hcond ▸ hc))
  · rw [mainMutex_congr (hpassed.main.trans hmain), hpassed.mem, hmem]
    exact h.main

theorem Released.loops (cond mutex left : Nat) :
    { s.writeMutex mutex 0 with main := some (.cond cond mutex (s.mem mutex) left) }.Released := by
  have hzero : ¬ HeldBy 0 0 := by simp [HeldBy]
  refine ⟨(h.writeMutex fun _ _ => hzero).worker, fun m hm hne => ?_⟩
  obtain rfl : mutex = m := Option.some.inj hm
  simpa [Sched.writeMutex, hne] using hzero

end

theorem mainMutex_of_empty (h : s.Tidy) (hw : s.workers = []) : s.mainMutex = none := by
  have hm : s.main = none := by
    by_contra hne
    exact h.main hne hw
  simp [mainMutex, hm]

theorem Released.wakeAll (h : s.Released) (cond : Nat) (woken : List Nat) :
    (s.wakeAll cond woken).Released := by
  refine ⟨h.worker.mapIdx fun i t ht => ?_, h.main⟩
  split
  · exact absurd rfl
  · exact ht

theorem Released.called (h : s.Released) (htidy : s.Tidy) (hop : s.Unowned op)
    (hc : Called cfg s op s') : s'.Released := by
  have hslice : ∀ {j}, s.phase = .slice j → s.phase ≠ .idle := fun hp => by simp [hp]
  cases hc with
  | unchanged => exact h
  | created => exact ⟨h.worker.concat (absurd rfl), h.main⟩
  | stored => exact h.store hop
  | posted | tryTook | tryRefused | waitInCallback | waitTook | waitRefused | futexTook =>
    exact h.congr rfl rfl (.inl rfl)
  | waitLoops | futexLoops => exact h.congr rfl rfl (.inr rfl)
  | waitNull timed =>
    have hanswer : (s.semAnswer 0 timed 0).Released := h.congr rfl rfl (.inl rfl)
    exact hanswer.ended (h.worker _)
  | waitParks | futexParks => exact h.ended (h.worker _)
  | futexWoke uaddr n =>
    obtain ⟨tokens, owed, heq⟩ := s.svcFutexWake_eq uaddr n
    rw [heq]
    exact h.congr rfl rfl (.inl rfl)
  | condTook cond | timedTook cond =>
    obtain ⟨conds, heq⟩ := s.takeCond_eq cond
    rw [heq]
    exact h.congr rfl rfl (.inl rfl)
  | condAlone _ mutex hw | timedAlone _ mutex hw =>
    exact h.writeMutex fun hm => absurd ((mainMutex_of_empty htidy hw).symm.trans hm) (by simp)
  | condLoops cond mutex | timedLoops cond mutex => exact h.loops cond mutex _
  | condParks cond mutex hp htok =>
    have hallowed := hop (hslice hp) htok
    exact (h.writeMutex hallowed.2).ended fun t _ => hallowed.1
  | timedYields cond mutex hp =>
    refine (h.writeMutex (hop (hslice hp))).ended fun t ht => ?_
    rw [writeMutex_workers] at ht
    exact h.worker _ t ht
  | condSignalled cond =>
    obtain ⟨woken, conds, -, heq⟩ := s.svcCondSignal_eq cond
    rw [heq]
    exact (h.wakeAll cond woken).congr rfl rfl (.inl rfl)
  | condBroadcast cond =>
    obtain ⟨woken, conds, -, heq⟩ := s.svcCondBroadcast_eq cond
    rw [heq]
    exact (h.wakeAll cond woken).congr rfl rfl (.inl rfl)

theorem Released.polled (h : s.Released) (hp : Polled s s') : s'.Released := by
  cases hp with
  | unchanged => exact h
  | semTook | semFailed | futexDone | futexTook | semAgain | futexAgain =>
    exact h.congr rfl rfl (.inr rfl)
  | condAgain hm =>
    refine h.congr rfl rfl (.inl ?_)
    simp [mainMutex, hm]
  | @condDone _ mutex saved =>
    -- the mutex is taken back, but the main thread is no longer blocked
    exact ⟨(writeMutex_workers s mutex _) ▸ h.worker, fun m hm => by
      simp [mainMutex] at hm⟩

theorem Released.stepped (h : s.Released) (htidy : s.Tidy) (hop : s.Unowned op)
    (hs : Stepped cfg s op s') : s'.Released := by
  cases hs with
  | unchanged => exact h
  | passBegins | passEnds => exact h.congr rfl rfl (.inl rfl)
  | visited _ ht hv => exact h.visited ht hv
  | sliceEnds => exact h.ended (h.worker _)
  | polled hp => exact h.polled hp
  | called _ hc => exact h.called htidy hop hc

/-! ## Runs -/

theorem mem_signalled_broadcast (hcond : cond ≠ 0) (hi : i ∈ s.blockedOn cond) :
    ⟨i, cond, s.passes⟩ ∈ (s.svcCondBroadcast cond).signalled := by
  unfold svcCondBroadcast
  rw [if_neg hcond]
  exact mem_append_right _ (mem_map_of_mem hi)

theorem mem_signalled_signal (hcond : cond ≠ 0) (hne : s.blockedOn cond ≠ []) :
    ∃ i ∈ s.blockedOn cond, ⟨i, cond, s.passes⟩ ∈ (s.svcCondSignal cond).signalled := by
  unfold svcCondSignal
  rw [if_neg hcond]
  cases hblocked : s.blockedOn cond with
  | nil => exact absurd hblocked hne
  | cons i rest =>
    refine ⟨i, mem_cons_self, mem_append_right _ ?_⟩
    exact mem_map_of_mem (mem_singleton_self i)

theorem mainPoll_cond (hp : s.phase = .idle) {mutex saved left : Nat}
    (hm : s.main = some (.cond cond mutex saved left)) : s.mainPoll.main = none ∨
      0 < left ∧ s.mainPoll.main = some (.cond cond mutex saved (left - 1)) := by
  simp only [mainPoll, hp, hm]
  by_cases hend : s.condToken cond ∨ left = 0
  · rw [if_pos hend]
    exact .inl rfl
  · rw [if_neg hend]
    exact .inr ⟨pos_of_ne_zero (not_or.mp hend).2, rfl⟩

theorem AllDue.wakesUp (h : s.AllDue) : s.WakesUp cfg where
  inTime := fun d hd => (h d hd).onTime.le
  broadcast := by
    intro hrun cond hcond i hi
    have hstep : s.step cfg (.condBroadcast cond) = s.svcCondBroadcast cond := hrun.called_eq _
    rw [hstep]
    exact mem_signalled_broadcast hcond hi
  signal := by
    intro hrun cond hcond hne
    have hstep : s.step cfg (.condSignal cond) = s.svcCondSignal cond := hrun.called_eq _
    rw [hstep]
    exact mem_signalled_signal hcond hne
  main := fun hp cond mutex saved left hm => mainPoll_cond hp hm

/-- What every event keeps. -/
structure Waking (s : Sched) : Prop where
  tidy : s.Tidy
  due : s.AllDue

theorem Waking.step (h : s.Waking) (op : SchedOp) : (s.step cfg op).Waking :=
  ⟨h.tidy.stepped (step_stepped h.tidy op), h.due.stepped h.tidy (step_stepped h.tidy op)⟩

/-- What every event keeps that gives no mutex to a blocked thread. -/
structure Parting (s : Sched) : Prop where
  tidy : s.Tidy
  released : s.Released

theorem Parting.step (h : s.Parting) (hop : s.Unowned op) : (s.step cfg op).Parting :=
  ⟨h.tidy.stepped (step_stepped h.tidy op), h.released.stepped h.tidy hop (step_stepped h.tidy op)⟩

/-- Wake-ups need no discipline of the guest. -/
theorem wakesUp_of_run (cfg : SchedConfig) (mem : Nat → Nat) (sems : Nat → Int)
    (ops : List SchedOp) : (run (step cfg) (initial mem sems) ops).WakesUp cfg := by
  have hstart : (initial mem sems).Waking :=
    ⟨tidy_initial mem sems, fun d hd => absurd hd not_mem_nil⟩
  exact (run_always (fun _ op h => h.step op) hstart ops).due.wakesUp

/-- **In every run in which workers block without a mutex, every wake-up arrives and no
blocked thread holds the mutex it passed.** -/
theorem condVar_of_run (cfg : SchedConfig) (mem : Nat → Nat) (sems : Nat → Int)
    (ops : List SchedOp) (hops : StepsMeet Unowned (step cfg) (initial mem sems) ops) :
    (run (step cfg) (initial mem sems) ops).WakesUp cfg ∧
      (run (step cfg) (initial mem sems) ops).GivesUpMutex := by
  have hstart : (initial mem sems).Parting :=
    ⟨tidy_initial mem sems, fun i t ht => absurd ht (by simp [initial]),
      fun m hm => absurd hm (by simp [initial, mainMutex])⟩
  have hend := run_invariant (fun _ _ h hop => h.step hop) hstart hops
  exact ⟨wakesUp_of_run cfg mem sems ops, hend.released.givesUpMutex⟩

/-! ## Two runs -/

def a32Config : SchedConfig := ⟨false, 500, fun _ => true⟩

/-- The only worker blocks without a mutex, the main thread with the one at `0x30000`, and its
callback broadcasts. -/
def broadcastToBoth : List SchedOp :=
  [.create 0x10000 0, .pass, .visit, .condWait 0x20000 0, .visit, .store 0x30000 0x101,
    .condWait 0x20000 0x30000, .poll, .visit, .visit, .condBroadcast 0x20000]

theorem condVar_broadcastToBoth :
    (run (step a32Config) (initial (fun _ => 0) fun _ => 0) broadcastToBoth).signalled =
        [⟨0, 0x20000, 2⟩] ∧
      (run (step a32Config) (initial (fun _ => 0) fun _ => 0) broadcastToBoth).WakesUp a32Config ∧
      (run (step a32Config) (initial (fun _ => 0) fun _ => 0) broadcastToBoth).GivesUpMutex :=
  ⟨by decide, condVar_of_run a32Config _ _ broadcastToBoth (by decide)⟩

/-- The only worker locks the mutex at `0x30000` and waits with it. -/
def blockedOwner : List SchedOp :=
  [.create 0x10000 0, .pass, .visit, .store 0x30000 0x103, .condWait 0x20000 0x30000]

/-- The worker is blocked and owns the mutex. -/
theorem not_givesUpMutex_blockedOwner :
    ¬ (run (step a32Config) (initial (fun _ => 0) fun _ => 0) blockedOwner).GivesUpMutex := by
  intro h
  exact h.worker 0 _ rfl (by decide) (by decide) (by decide)

end Sched

end Lunaria
