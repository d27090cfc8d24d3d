/-
# Semaphores

A semaphore is a signed counter in `g_sems`. A wait is answered in one of four places: by
the call itself, by the loop of the main thread, by the pass, which takes a unit for a
parked worker, or by the pass when a timed wait has been passed over two thousand times.
Each of them lowers the counter exactly when the guest is told zero, with two exceptions.

Inside a nested callback the call returns zero and leaves the counter alone, so that a
signal handler never blocks the emulator. And the pass writes the answer of a parked
worker to `regs[0]`, which the A32 slice reloads and the A64 slice does not: an A64 worker
whose timed wait has failed is told zero.
-/

import Lunaria.Sync.Passes

namespace Lunaria

open Lib List Function

/-! ## The property -/

namespace SemEvent

def isPost (sem : Nat) : SemEvent → Bool
  | .posted k => k == sem
  | _ => false

/-- A wait on the semaphore, outside nested callbacks, that returned zero or was granted. -/
def isGrant (sem : Nat) : SemEvent → Bool
  | .answered k _ result took => k == sem && (result == 0 || took)
  | _ => false

def isNested (sem : Nat) : SemEvent → Bool
  | .nested k _ _ => k == sem
  | _ => false

/-- A timed wait is told zero exactly when it took a unit, and one in a nested callback always. -/
def Honest : SemEvent → Prop
  | .posted _ => True
  | .answered sem timed result took => sem ≠ 0 → timed = true → (result = 0 ↔ took = true)
  | .nested _ _ result => result = 0

end SemEvent

namespace Sched

/-- Units are conserved by the posts and by the waits outside nested callbacks. -/
structure Conserves (start : Nat → Int) (s : Sched) : Prop where
  balance : ∀ sem, sem ≠ 0 → start sem + s.log.countP (SemEvent.isPost sem) =
    s.sems sem + s.log.countP (SemEvent.isGrant sem)
  nonneg : ∀ sem, 0 ≤ s.sems sem
  honest : ∀ e ∈ s.log, e.Honest

/-- Units are conserved by posts and all waits; those inside nested callbacks return zero and never
take a unit. -/
structure ConservesNested (start : Nat → Int) (s : Sched) : Prop where
  balance : ∀ sem, sem ≠ 0 → start sem + s.log.countP (SemEvent.isPost sem) =
    s.sems sem + s.log.countP (SemEvent.isGrant sem) + s.log.countP (SemEvent.isNested sem)
  nonneg : ∀ sem, 0 ≤ s.sems sem
  honest : ∀ e ∈ s.log, e.Honest
  timed : ∀ sem result, sem ≠ 0 → SemEvent.nested sem true result ∉ s.log

/-- The pass is about to end the timed wait of a worker without a unit. -/
def timesOut (s : Sched) : Bool :=
  match s.phase with
  | .scan i => s.workers[i]?.any fun t =>
    decide (t.waitingSem ≠ 0 ∧ s.sems t.waitingSem ≤ 0 ∧ t.semTimed = true ∧
      2000 ≤ t.semSkipPasses + 1)
  | _ => false

/-- A post does not overflow the counter, and no timed wait of an A64 worker runs out. -/
def SemBounded (cfg : SchedConfig) (s : Sched) : SchedOp → Prop
  | .semPost sem => s.sems sem < 0x7fffffff
  | .visit => cfg.isArm64 = true → s.timesOut = false
  | _ => True

instance semBoundedDecidable (cfg : SchedConfig) (s : Sched) : ∀ op, Decidable (SemBounded cfg s op)
  | .semPost sem => Int.decLt (s.sems sem) 0x7fffffff
  | .visit => inferInstanceAs (Decidable (cfg.isArm64 = true → s.timesOut = false))
  | .pass | .endSlice .. | .poll | .create .. | .store .. | .semTrywait _ | .semWait ..
  | .futexWake .. | .futexWait .. | .condWait .. | .condTimedwait .. | .condSignal _
  | .condBroadcast _ => .isTrue trivial

/-! ## What an event does to the counters and the log -/

variable {cfg : SchedConfig} {start : Nat → Int} {s s' : Sched} {i : Nat} {t : Worker}
  {op : SchedOp}

/-- The effects of an event on the counters and the log: none, a post, a unit taken, something noted
that is neither a post nor a grant, or a worker that is told zero without a unit. -/
inductive Settled (cfg : SchedConfig) (s : Sched) (op : SchedOp) (s' : Sched) : Prop
  | same (sems : s'.sems = s.sems) (log : s'.log = s.log)
  | posted (sem : Nat) (post : op = .semPost sem)
      (sems : s'.sems = update s.sems sem (incr32 (s.sems sem)))
      (log : s'.log = .posted sem :: s.log)
  | took (sem : Nat) (timed : Bool) (positive : 0 < s.sems sem)
      (sems : s'.sems = update s.sems sem (s.sems sem - 1))
      (log : s'.log = .answered sem timed 0 true :: s.log)
  | noted (e : SemEvent) (sems : s'.sems = s.sems) (log : s'.log = e :: s.log)
      (post : ∀ sem, e.isPost sem = false) (grant : ∀ sem, sem ≠ 0 → e.isGrant sem = false)
      (honest : e.Honest)
  | misled (sem : Nat) (visit : op = .visit) (arch : cfg.isArm64 = true)
      (late : s.timesOut = true) (sems : s'.sems = s.sems)
      (log : s'.log = .answered sem true 0 false :: s.log)

theorem Settled.refused (sem : Nat) (timed : Bool) (hsems : s'.sems = s.sems)
    (hlog : s'.log = .answered sem timed minusOne false :: s.log) : Settled cfg s op s' :=
  .noted _ hsems hlog (fun _ => rfl) (fun k _ => by simp [SemEvent.isGrant, minusOne])
    fun _ _ => by simp [minusOne]

theorem Settled.passed {s₁ : Sched} (hp : Passed s₁ i t s') (h : Settled cfg s op s₁) :
    Settled cfg s op s' := by
  obtain ⟨hsems, hlog⟩ := And.intro hp.sems hp.log
  cases h with
  | same sems log => exact .same (hsems.trans sems) (hlog.trans log)
  | posted sem post sems log => exact .posted sem post (hsems.trans sems) (hlog.trans log)
  | took sem timed positive sems log =>
    exact .took sem timed positive (hsems.trans sems) (hlog.trans log)
  | noted e sems log post grant honest =>
    exact .noted e (hsems.trans sems) (hlog.trans log) post grant honest
  | misled sem visit arch late sems log =>
    exact .misled sem visit arch late (hsems.trans sems) (hlog.trans log)

theorem settled_visited (htidy : s.Tidy) (hp : s.phase = .scan i) (ht : s.workers[i]? = some t)
    (hv : Visited cfg s i t s') : Settled cfg s .visit s' := by
  cases hv with
  | blocked | counted => exact .same rfl rfl
  | free | token | changed => exact .passed (resume_passed cfg ..) (.same rfl rfl)
  | granted hs hpos =>
    obtain ⟨-, -, -, hx0⟩ := (htidy.workers i t ht).2.sem hs
    have hresult : { t with r0 := 0 }.result cfg = 0 := by
      unfold Worker.result
      split
      · exact hx0
      · rfl
    refine .passed (resume_passed cfg ..) (.took t.waitingSem t.semTimed hpos rfl ?_)
    rw [hresult]
  | timedOut hs hempty htimed hlate =>
    obtain ⟨-, -, -, hx0⟩ := (htidy.workers i t ht).2.sem hs
    refine .passed (resume_passed cfg ..) ?_
    -- the answer goes to `regs[0]`, and the A64 slice reloads `regs64[0]`
    cases harch : cfg.isArm64 with
    | false =>
      refine .refused t.waitingSem true rfl ?_
      simp [Worker.result, harch]
    | true =>
      refine .misled t.waitingSem rfl harch ?_ rfl ?_
      · simp only [timesOut, hp, ht, Option.any_some, decide_eq_true_eq]
        exact ⟨hs, hempty, htimed, hlate⟩
      · simp [Worker.result, harch, hx0]

theorem settled_writeMutex (mutex word : Nat) (hsems : s'.sems = (s.writeMutex mutex word).sems)
    (hlog : s'.log = (s.writeMutex mutex word).log) : Settled cfg s op s' := by
  obtain ⟨mem, heq⟩ := s.writeMutex_eq mutex word
  rw [heq] at hsems hlog
  exact .same hsems hlog

theorem settled_called (hc : Called cfg s op s') : Settled cfg s op s' := by
  cases hc with
  | unchanged | created | stored | waitLoops | waitParks | futexTook | futexLoops | futexParks =>
    exact .same rfl rfl
  | posted sem => exact .posted sem rfl rfl rfl
  | tryTook sem hpos => exact .took sem false hpos rfl rfl
  | tryRefused sem => exact .refused sem false rfl rfl
  | waitInCallback sem timed => exact .noted _ rfl rfl (fun _ => rfl) (fun _ _ => rfl) rfl
  | waitTook sem timed _ hpos => exact .took sem timed hpos rfl rfl
  | waitRefused sem timed => exact .refused sem timed rfl rfl
  | waitNull timed =>
    refine .noted _ rfl rfl (fun _ => rfl) (fun k hk => ?_) (absurd rfl)
    simp [SemEvent.isGrant, Ne.symm hk]
  | futexWoke uaddr n =>
    obtain ⟨tokens, owed, heq⟩ := s.svcFutexWake_eq uaddr n
    rw [heq]
    exact .same rfl rfl
  | condTook cond | timedTook cond =>
    obtain ⟨conds, heq⟩ := s.takeCond_eq cond
    rw [heq]
    exact .same rfl rfl
  | condAlone _ mutex | timedAlone _ mutex | condLoops _ mutex | timedLoops _ mutex
  | condParks _ mutex | timedYields _ mutex => exact settled_writeMutex mutex _ rfl rfl
  | condSignalled cond =>
    obtain ⟨woken, conds, -, heq⟩ := s.svcCondSignal_eq cond
    rw [heq]
    exact .same rfl rfl
  | condBroadcast cond =>
    obtain ⟨woken, conds, -, heq⟩ := s.svcCondBroadcast_eq cond
    rw [heq]
    exact .same rfl rfl

theorem settled_polled (hp : Polled s s') : Settled cfg s op s' := by
  cases hp with
  | unchanged | semAgain | futexDone | futexTook | futexAgain | condAgain => exact .same rfl rfl
  | @semTook sem left timed hm hpos => exact .took sem timed hpos rfl rfl
  | @semFailed sem left timed hm => exact .refused sem timed rfl rfl
  | condDone => exact settled_writeMutex _ _ rfl rfl

theorem settled_stepped (htidy : s.Tidy) (hs : Stepped cfg s op s') : Settled cfg s op s' := by
  cases hs with
  | unchanged | passBegins | passEnds | sliceEnds => exact .same rfl rfl
  | visited hp ht hv => exact settled_visited htidy hp ht hv
  | polled hp => exact settled_polled hp
  | called _ hc => exact settled_called hc

/-! ## The balance -/

section

variable (h : s.Conserves start)
include h

/-- What is logged accounts for what the counters have changed. -/
theorem Conserves.logged {e : SemEvent} (hlog : s'.log = e :: s.log) (honest : e.Honest)
    (hsems : ∀ k, k ≠ 0 → s'.sems k + (if e.isGrant k then 1 else 0) =
      s.sems k + (if e.isPost k then 1 else 0))
    (hnonneg : ∀ k, 0 ≤ s'.sems k) : s'.Conserves start where
  balance k hk := by
    have hbalance := h.balance k hk
    have hstep := hsems k hk
    rw [hlog, countP_cons, countP_cons]
    push_cast
    omega
  nonneg := hnonneg
  honest := by
    rw [hlog]
    exact forall_mem_cons.mpr ⟨honest, h.honest⟩

/-- Every event keeps the balance. -/
theorem Conserves.settled (hop : SemBounded cfg s op) (hs : Settled cfg s op s') :
    s'.Conserves start := by
  have hnonneg := h.nonneg
  cases hs with
  | same hsems hlog =>
    refine ⟨?_, hsems ▸ h.nonneg, hlog ▸ h.honest⟩
    rw [hsems, hlog]
    exact h.balance
  | posted sem hpost hsems hlog =>
    subst hpost
    have hincr : incr32 (s.sems sem) = s.sems sem + 1 := if_neg (ne_of_lt hop)
    rw [hincr] at hsems
    refine h.logged hlog trivial (fun k _ => ?_) fun k => ?_
    · rw [hsems, update_apply]
      grind [SemEvent.isPost, SemEvent.isGrant]
    · rw [hsems, update_apply]
      grind
  | took sem timed hpos hsems hlog =>
    refine h.logged hlog (fun _ _ => by simp) (fun k _ => ?_) fun k => ?_
    · rw [hsems, update_apply]
      grind [SemEvent.isPost, SemEvent.isGrant]
    · rw [hsems, update_apply]
      grind
  | noted e hsems hlog hpost hgrant honest =>
    refine h.logged hlog honest (fun k hk => ?_) (hsems ▸ hnonneg)
    rw [hsems, hpost k, hgrant k hk]
  | misled sem hvisit harch hlate =>
    subst hvisit
    exact absurd (hop harch) (by simp [hlate])

end

/-! ## Runs -/

/-- What every event keeps. -/
structure Accounted (start : Nat → Int) (s : Sched) : Prop where
  tidy : s.Tidy
  conserves : s.Conserves start

/-- **In every run without overflow and without a timed wait of an A64 worker that runs
out, units are conserved outside nested callbacks.** -/
theorem conserves_of_run (cfg : SchedConfig) (mem : Nat → Nat) (start : Nat → Int)
    (hnonneg : ∀ sem, 0 ≤ start sem) (ops : List SchedOp)
    (hops : StepsMeet (SemBounded cfg) (step cfg) (initial mem start) ops) :
    (run (step cfg) (initial mem start) ops).Conserves start := by
  have hstart : (initial mem start).Accounted start :=
    ⟨tidy_initial mem start, fun sem _ => by simp [initial], hnonneg,
      fun e he => absurd he not_mem_nil⟩
  have hend : (run (step cfg) (initial mem start) ops).Accounted start := by
    apply run_invariant ?_ hstart hops
    intro s op h hop
    have hstep : Stepped cfg s op (s.step cfg op) := step_stepped h.tidy op
    exact ⟨h.tidy.stepped hstep, h.conserves.settled hop (settled_stepped h.tidy hstep)⟩
  exact hend.conserves

/-! ## What workers are told on A64 -/

/-- The visit does not end a timed wait without a unit. -/
abbrev Timely (s : Sched) (op : SchedOp) : Prop := op = .visit → s.timesOut = false

theorem visit_log_of_timesOut (htidy : s.Tidy) (harch : cfg.isArm64) (hlate : s.timesOut) :
    ∃ sem, sem ≠ 0 ∧ (s.visit cfg).log = .answered sem true 0 false :: s.log := by
  unfold timesOut at hlate
  split at hlate
  case h_2 => cases hlate
  case h_1 i hp =>
    obtain ⟨t, ht, hout⟩ := (Option.any_eq_true ..).mp hlate
    obtain ⟨hs, hempty, htimed, hpasses⟩ := of_decide_eq_true hout
    have hmarks := (htidy.workers i t ht).2
    obtain ⟨hlive, hfutex, -, hx0⟩ := hmarks.sem hs
    have hcond : t.waitingCond = 0 := of_not_not fun hc => hs (hmarks.cond hc).2.1
    have hvisit : s.visit cfg = s.visitSem cfg i t := by simp [visit, hp, ht, hlive, hcond]
    refine ⟨t.waitingSem, hs, ?_⟩
    rw [hvisit, visitSem, if_neg hs, if_neg (not_lt.mpr hempty), if_pos htimed, if_pos hpasses,
      visitFutex_of_unparked (by exact hfutex), (resume_passed cfg ..).log]
    simp [Worker.result, harch, hx0]

/-- What is logged is honest, unless the visit ends a timed wait without a unit. -/
theorem Settled.logs (h : Settled cfg s op s') : s'.log = s.log ∨
    ∃ e : SemEvent, s'.log = e :: s.log ∧ (e.Honest ∨ (op = .visit ∧ s.timesOut)) := by
  cases h with
  | same _ hlog => exact .inl hlog
  | posted _ _ _ hlog => exact .inr ⟨_, hlog, .inl trivial⟩
  | took _ _ _ _ hlog => exact .inr ⟨_, hlog, .inl fun _ _ => by simp⟩
  | noted _ _ hlog _ _ honest => exact .inr ⟨_, hlog, .inl honest⟩
  | misled _ hvisit _ hlate _ hlog => exact .inr ⟨_, hlog, .inr ⟨hvisit, hlate⟩⟩

/-- One event on A64 misleads nobody if and only if it is timely. -/
theorem honest_step_iff (htidy : s.Tidy) (harch : cfg.isArm64) (op : SchedOp) :
    (∀ e ∈ (s.step cfg op).log, e.Honest) ↔ (∀ e ∈ s.log, e.Honest) ∧ s.Timely op := by
  have hlogs := (settled_stepped htidy (step_stepped htidy op) : Settled cfg s op _).logs
  constructor
  · intro h
    constructor
    · rcases hlogs with hlog | ⟨e, hlog, -⟩
      · exact hlog ▸ h
      · rw [hlog] at h
        exact (forall_mem_cons.mp h).2
    · rintro rfl
      refine Bool.eq_false_iff.mpr fun hlate => ?_
      obtain ⟨sem, hsem, hlog⟩ := visit_log_of_timesOut htidy harch hlate
      have hlie : (SemEvent.answered sem true 0 false).Honest := by
        refine h _ ?_
        rw [step, hlog]
        exact mem_cons_self
      exact Bool.false_ne_true ((hlie hsem rfl).mp rfl)
  · rintro ⟨h, htimely⟩
    rcases hlogs with hlog | ⟨e, hlog, honest | ⟨hvisit, hlate⟩⟩
    · exact hlog ▸ h
    · rw [hlog]
      exact forall_mem_cons.mpr ⟨honest, h⟩
    · exact absurd (htimely hvisit) (by simp [hlate])

theorem honest_run_iff (harch : cfg.isArm64) {ops : List SchedOp} (htidy : s.Tidy) :
    (∀ e ∈ (run (step cfg) s ops).log, e.Honest) ↔
      (∀ e ∈ s.log, e.Honest) ∧ StepsMeet Timely (step cfg) s ops := by
  induction ops generalizing s with
  | nil => simp
  | cons op ops ih =>
    have hnext : (s.step cfg op).Tidy := htidy.stepped (step_stepped htidy op)
    rw [run_cons, ih hnext, honest_step_iff htidy harch, stepsMeet_cons, and_assoc]

/-- **Timed waits on A64.** In every run, what the semaphore waits are told is true if and only if
no visit of the scheduler finds a parked worker whose time is up. -/
theorem honest_iff_timely (cfg : SchedConfig) (harch : cfg.isArm64 = true) (mem : Nat → Nat)
    (start : Nat → Int) (ops : List SchedOp) :
    (∀ e ∈ (run (step cfg) (initial mem start) ops).log, e.Honest) ↔
      StepsMeet Timely (step cfg) (initial mem start) ops := by
  rw [honest_run_iff harch (tidy_initial mem start)]
  exact and_iff_right fun e he => absurd he not_mem_nil

/-! ## Two runs -/

def semConfig : SchedConfig := ⟨true, 500, fun _ => true⟩

/-- A worker parks in a timed wait at `0x20000`, the main thread posts, the pass grants the unit; a
wait in a callback follows. -/
def grantedByPass : List SchedOp :=
  [.create 0x10000 0, .pass, .visit, .semWait 0x20000 true false, .visit, .semPost 0x20000,
    .pass, .visit, .endSlice 0 0 false, .visit, .semWait 0x20000 false true]

theorem conserves_grantedByPass :
    (run (step semConfig) (initial (fun _ => 0) fun _ => 0) grantedByPass).log =
        [.nested 0x20000 false 0, .answered 0x20000 true 0 true, .posted 0x20000] ∧
      (run (step semConfig) (initial (fun _ => 0) fun _ => 0) grantedByPass).Conserves
        fun _ => 0 :=
  ⟨by decide, conserves_of_run semConfig _ _ (fun _ => by decide) grantedByPass (by decide)⟩

theorem honest_grantedByPass :
    StepsMeet Timely (step semConfig) (initial (fun _ => 0) fun _ => 0) grantedByPass ∧
      ∀ e ∈ (run (step semConfig) (initial (fun _ => 0) fun _ => 0) grantedByPass).log,
        e.Honest := by
  have htimely : StepsMeet Timely (step semConfig) (initial (fun _ => 0) fun _ => 0)
      grantedByPass := by decide
  exact ⟨htimely, (honest_iff_timely semConfig rfl _ _ grantedByPass).mpr htimely⟩

/-- The wait in the callback has returned zero and no unit was there. -/
theorem not_conservesNested_callback : ¬ (run (step semConfig) (initial (fun _ => 0) fun _ => 0)
      [.semWait 0x20000 false true]).ConservesNested fun _ => 0 := by
  intro h
  exact absurd (h.balance 0x20000 (by decide)) (by decide)

end Sched

end Lunaria
