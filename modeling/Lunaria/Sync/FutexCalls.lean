/-
# The two ways into a futex call

A guest reaches `futex` through `svc #0` with the system call number in `r7`, or through
the `syscall` function of its C library, whose trampoline is a supervisor call of its own.
The two handlers are written out twice in the source, with the arguments in different
registers. This module has both, behind the dispatcher they share, and compares the whole
outcome: the result register, the memory, the parked workers, the tokens, and whether the
caller's slice ends.

What other threads and callbacks do while the main thread waits is not known here: it is a
parameter, and the same one for both. The handlers answer an error in the same way, with
minus one and the number in the caller's `errno` word, also where the kernel would return
the negated number.
-/

import Lunaria.Sync.Scheduler

namespace Lunaria

open Function

namespace FutexCall

/-! ## What the handlers work on -/

/-- The state the handlers read and write. `rest` stands for everything else that a slice of
another thread can change. -/
structure World (ρ : Type) where
  mem : Nat → Nat
  threads : List Worker
  tokens : Nat → Nat
  waitAddrs : Nat → Nat
  tid : Nat
  scheduling : Bool
  yieldRequested : Bool
  errnoVas : Nat → Option Nat
  svcSchedCtr : Nat
  forceN : Nat → Nat
  rest : ρ

/-- What the handlers call and look up: `slices` is the loop of `schedule_threads`, `callbacks` the
two `drive` functions, and `armMalloc` runs no guest code. -/
structure Host (ρ : Type) where
  slices : Nat → World ρ → World ρ
  callbacks : World ρ → World ρ
  armMalloc : (Nat → Nat) → ρ → Nat × (Nat → Nat) × ρ
  futexSpins : Nat
  forceUnlock : Bool
  forceUnlockAfter : Int

namespace World

variable {ρ : Type}

variable (w : World ρ)

def write32 (va value : Nat) : World ρ :=
  { w with mem := Function.update w.mem va value }

/-- A pending token is consumed. -/
def takeToken (uaddr : Nat) : World ρ :=
  { w with tokens := Function.update w.tokens uaddr (w.tokens uaddr - 1) }

/-- The test before the loop of the main thread: it is the main thread, it is not in a pass,
and there are workers. -/
def mainMayWait : Bool := w.tid == 0 && !w.scheduling && !w.threads.isEmpty

/-- The block both handlers have for every command that is not a wait. -/
def wake (uaddr val : Nat) : World ρ :=
  let n := Sched.nwake val
  { w with
      tokens := Function.update w.tokens uaddr ((w.tokens uaddr + n) % 2 ^ 32)
      waitAddrs := Function.update w.waitAddrs uaddr (w.waitAddrs uaddr - n) }

/-- A caller that cannot run the pass: its record is marked and the end of its slice requested. -/
def park (uaddr val : Nat) : World ρ :=
  { w with
      waitAddrs := Function.update w.waitAddrs uaddr ((w.waitAddrs uaddr + 1) % 2 ^ 32)
      threads := w.threads.modify (w.threads.findIdx fun t => t.id == w.tid) fun t =>
        { t with waitingFutex := uaddr, futexVal := val }
      yieldRequested := true }

end World

namespace Host

variable {ρ : Type} (h : Host ρ)

/-- `schedule_threads`. The current thread is put back at the end of the pass. -/
def scheduleThreads (slice : Nat) (w : World ρ) : World ρ :=
  if w.scheduling = true ∨ w.threads = [] then w
  else
    { h.slices slice { w with scheduling := true } with
        tid := w.tid, yieldRequested := false, scheduling := false }

/-- `drive_aaudio_callbacks` and `drive_java_choreographer`. A guest callback puts the current
thread back when it returns. -/
def drive (w : World ρ) : World ρ := { h.callbacks w with tid := w.tid }

/-- `errno_va`: the word is allocated when the thread first needs one. -/
def errnoVa (w : World ρ) (tid : Nat) : Nat × World ρ :=
  match w.errnoVas tid with
  | some va => (va, w)
  | none =>
    let (va, mem, rest) := h.armMalloc w.mem w.rest
    let taken := { w with mem := mem, rest := rest }
    let cleared := if va ≠ 0 then taken.write32 va 0 else taken
    (va, { cleared with errnoVas := Function.update cleared.errnoVas tid (some va) })

/-- The store of an error number that both handlers make. -/
def setErrno (w : World ρ) (code : Nat) : World ρ :=
  let (va, w') := h.errnoVa w w.tid
  if va ≠ 0 then w'.write32 va code else w'

/-- The loop of the main thread: passes until the word changes or a token shows up. -/
def spin (uaddr val : Nat) : Nat → World ρ → Bool × World ρ
  | 0, w => (false, w)
  | left + 1, w =>
    let w' := h.drive (h.scheduleThreads 20000000 w)
    if w'.mem uaddr ≠ val then (true, w')
    else if 0 < w'.tokens uaddr then (true, w'.takeToken uaddr)
    else spin uaddr val left w'

/-! ## The two handlers -/

def eInval : Nat := 22

def eTimedout : Nat := 110

/-- `svc #0` with `r7 = 240`: the arguments start at `r0`. -/
def rawFutex (r0 r1 r2 : Nat) (w : World ρ) : Nat × World ρ :=
  if r0 < 0x1000 then (minusOne, h.setErrno w eInval)
  else
    let cmd := r1 &&& 0x7f
    if cmd ≠ 0 ∧ cmd ≠ 9 then (0, w.wake r0 r2)
    else if w.mem r0 ≠ r2 then (0, w)
    else if 0 < w.tokens r0 then (0, w.takeToken r0)
    else if w.mainMayWait then
      let (changed, w') := h.spin r0 r2 h.futexSpins w
      if changed then (0, w') else (minusOne, h.setErrno w' eTimedout)
    else (0, w.park r0 r2)

/-- `syscall(240, …)`: the arguments start at `r1`. Only this handler can force a lock open, or
yields when a worker times out. -/
def shimFutex (r1 r2 r3 : Nat) (w : World ρ) : Nat × World ρ :=
  let cmd := r2 &&& 0x7f
  if r1 < 0x1000 then (minusOne, h.setErrno w eInval)
  else if cmd ≠ 0 ∧ cmd ≠ 9 then (0, w.wake r1 r3)
  else if w.mem r1 ≠ r3 then (0, w)
  else if 0 < w.tokens r1 then (0, w.takeToken r1)
  else if w.mainMayWait then
    let (changed, w') := h.spin r1 r3 h.futexSpins w
    if changed then (0, w')
    else
      let counted :=
        if h.forceUnlock = true ∧ 0 < h.forceUnlockAfter then
          { w' with forceN := Function.update w'.forceN r1 (w'.forceN r1 + 1) }
        else w'
      if h.forceUnlock = true ∧ 0 < h.forceUnlockAfter ∧
          h.forceUnlockAfter ≤ counted.forceN r1 ∧ counted.mem r1 = r3 then
        let opened := counted.write32 r1 0
        (0, { opened with
          tokens := Function.update opened.tokens r1 ((opened.tokens r1 + 1) % 2 ^ 32)
          forceN := Function.update opened.forceN r1 0 })
      else
        let failed := h.setErrno counted eTimedout
        (minusOne, if failed.tid ≠ 0 then { failed with yieldRequested := true } else failed)
  else (0, w.park r1 r3)

end Host

/-! ## The dispatcher -/

/-- How the guest came in. -/
inductive Entry where
  | rawSvc
  | syscall
  deriving DecidableEq

/-- The registers of `futex(uaddr, op, val, timeout)`; the fourth argument of `syscall` is on the
stack. -/
def Entry.Issues (entry : Entry) (uaddr op val timeout : Nat) (regs mem : Nat → Nat) : Prop :=
  match entry with
  | .rawSvc => regs 7 = 240 ∧ regs 0 = uaddr ∧ regs 1 = op ∧ regs 2 = val ∧ regs 3 = timeout
  | .syscall => regs 0 = 240 ∧ regs 1 = uaddr ∧ regs 2 = op ∧ regs 3 = val ∧ mem (regs 13) = timeout

/-- What is seen after the call: `r0`, the state, and whether the caller's processor is halted. -/
structure Outcome (ρ : Type) where
  ret : Nat
  world : World ρ
  halted : Bool

section

variable {ρ : Type} (h : Host ρ)

variable (out : Outcome ρ) (entry : Entry) (regs : Nat → Nat) (w : World ρ)

/-- `dispatch_svc` before the switch: every ten thousandth call of the main thread gives the workers
a short pass. -/
def beforeSwitch : World ρ :=
  if w.mainMayWait then
    if 10000 ≤ w.svcSchedCtr + 1 then h.scheduleThreads 500000 { w with svcSchedCtr := 0 }
    else { w with svcSchedCtr := w.svcSchedCtr + 1 }
  else w

def Entry.handler : Nat × World ρ :=
  match entry with
  | .rawSvc => h.rawFutex (regs 0) (regs 1) (regs 2) w
  | .syscall => h.shimFutex (regs 1) (regs 2) (regs 3) w

/-- `CallSVC` on A32. -/
def callSvc : Outcome ρ :=
  let (ret, w') := entry.handler h regs (beforeSwitch h w)
  ⟨ret, { w' with yieldRequested := false }, w'.yieldRequested⟩

/-! ## The handlers agree -/

variable {h} {w : World ρ}

theorem tid_scheduleThreads (slice : Nat) : (h.scheduleThreads slice w).tid = w.tid := by
  rw [Host.scheduleThreads]
  split <;> rfl

theorem tid_spin (uaddr val left : Nat) : (h.spin uaddr val left w).2.tid = w.tid := by
  induction left generalizing w with
  | zero => rfl
  | succ left ih =>
    have hpass : (h.drive (h.scheduleThreads 20000000 w)).tid = w.tid := tid_scheduleThreads _
    simp only [Host.spin]
    split
    · exact hpass
    · split
      · exact hpass
      · exact ih.trans hpass

theorem tid_errnoVa (tid : Nat) : (h.errnoVa w tid).2.tid = w.tid := by
  rw [Host.errnoVa]
  split
  · rfl
  · dsimp only
    split <;> rfl

theorem tid_setErrno (code : Nat) : (h.setErrno w code).tid = w.tid := by
  simp only [Host.setErrno]
  split
  · exact tid_errnoVa _
  · exact tid_errnoVa _

/-- The two handlers are the same function of their arguments while no lock is forced open. -/
theorem rawFutex_eq_shimFutex (hoff : h.forceUnlock = false) (uaddr op val : Nat) :
    h.rawFutex uaddr op val w = h.shimFutex uaddr op val w := by
  simp only [Host.rawFutex, Host.shimFutex, hoff, Bool.false_eq_true, false_and, if_false]
  by_cases hmain : w.mainMayWait
  · have htid : w.tid = 0 := by
      simp only [World.mainMayWait, Bool.and_eq_true, beq_iff_eq] at hmain
      exact hmain.1.1
    -- only a worker would be asked to yield, and the loop is the main thread's
    have hyield : ¬ (h.setErrno (h.spin uaddr val h.futexSpins w).2 Host.eTimedout).tid ≠ 0 := by
      rw [tid_setErrno, tid_spin, htid]
      exact fun hne => hne rfl
    rw [if_neg hyield]
  · simp [if_neg hmain]

/-! ## How errors are reported -/

/-- The thread the state belongs to has this number in its `errno` word, if it has one. -/
def World.HasErrno (code : Nat) : Prop :=
  ∃ va, w.errnoVas w.tid = some va ∧ (va ≠ 0 → w.mem va = code)

theorem errnoVas_errnoVa (tid : Nat) :
    (h.errnoVa w tid).2.errnoVas tid = some (h.errnoVa w tid).1 := by
  rw [Host.errnoVa]
  split
  · assumption
  · exact update_self ..

theorem hasErrno_setErrno (code : Nat) : (h.setErrno w code).HasErrno code := by
  refine ⟨(h.errnoVa w w.tid).1, ?_, ?_⟩
  · rw [tid_setErrno, ← errnoVas_errnoVa]
    simp only [Host.setErrno]
    split <;> rfl
  · intro hva
    simp only [Host.setErrno, if_pos hva]
    exact update_self ..

/-- An answer is zero, or minus one with one of two numbers in the `errno` word. -/
def Outcome.Reports : Prop :=
  out.ret = 0 ∨
    out.ret = minusOne ∧ (out.world.HasErrno Host.eInval ∨ out.world.HasErrno Host.eTimedout)

theorem reports_rawSvc : (callSvc h .rawSvc regs w).Reports := by
  simp only [callSvc, Entry.handler, Host.rawFutex]
  split
  · exact .inr ⟨rfl, .inl (hasErrno_setErrno Host.eInval)⟩
  split
  · exact .inl rfl
  split
  · exact .inl rfl
  split
  · exact .inl rfl
  split
  · split
    · exact .inl rfl
    · exact .inr ⟨rfl, .inr (hasErrno_setErrno Host.eTimedout)⟩
  · exact .inl rfl

/-- **The two entry points.** In every state `svc #0` and `syscall` come to the same outcome, with
minus one and `errno` for an error. -/
theorem rawSvc_eq_syscall (h : Host ρ) (hoff : h.forceUnlock = false) (w : World ρ)
    (uaddr op val timeout : Nat) (raw shim : Nat → Nat)
    (hraw : Entry.rawSvc.Issues uaddr op val timeout raw w.mem)
    (hshim : Entry.syscall.Issues uaddr op val timeout shim w.mem) :
    callSvc h .rawSvc raw w = callSvc h .syscall shim w ∧ (callSvc h .rawSvc raw w).Reports := by
  refine ⟨?_, reports_rawSvc raw⟩
  obtain ⟨-, hr0, hr1, hr2, -⟩ := hraw
  obtain ⟨-, hs1, hs2, hs3, -⟩ := hshim
  simp [callSvc, Entry.handler, hr0, hr1, hr2, hs1, hs2, hs3, rawFutex_eq_shimFutex hoff]

/-! ## The calls of a worker in a schedule

The schedules of the scheduler have one event for a wait and one for a wake. In the slice of
a worker these events are the calls above. -/

/-- The state as the schedule has it. -/
structure Shows (s : Sched) (w : World ρ) : Prop where
  threads : w.threads = s.workers
  mem : w.mem = s.mem
  tokens : w.tokens = s.tokens
  tid : w.tid = s.curTid
  scheduling : w.scheduling = true
  quiet : w.yieldRequested = false

/-- The schedule after a call of the running worker: a halted worker's slice ends. -/
def Outcome.schedule (s : Sched) : Sched :=
  let s' := { s with
    workers := out.world.threads, mem := out.world.mem, tokens := out.world.tokens }
  if out.halted then s'.endSlice out.ret out.ret false else s'

variable {s : Sched} {regs : Nat → Nat}

/-- The command decides which event a call is. -/
def eventOf (uaddr op val : Nat) : SchedOp :=
  if op &&& 0x7f ≠ 0 ∧ op &&& 0x7f ≠ 9 then .futexWake uaddr val else .futexWait uaddr val

theorem Shows.schedule (hw : Shows s w) {out : Outcome ρ} (hgoes : out.halted = false)
    (hthreads : out.world.threads = w.threads) (hmem : out.world.mem = w.mem)
    (htid : out.world.tid = w.tid) (hpass : out.world.scheduling = w.scheduling)
    (hquiet : out.world.yieldRequested = false) : Shows (out.schedule s) out.world := by
  have heq : out.schedule s = { s with tokens := out.world.tokens } := by
    simp [Outcome.schedule, hgoes, hthreads, hmem, hw.threads, hw.mem]
  rw [heq]
  exact ⟨hthreads.trans hw.threads, hmem.trans hw.mem, rfl, htid.trans hw.tid,
    hpass.trans hw.scheduling, hquiet⟩

/-- **The calls of a worker simulate the events of the schedule**, except for the record of who
is to be woken. -/
theorem Shows.simulates (hw : Shows s w) {i : Nat} (hp : s.phase = .slice i)
    (hhigh : 0x1000 ≤ regs 0) (cfg : SchedConfig) :
    { s.step cfg (eventOf (regs 0) (regs 1) (regs 2)) with owed := s.owed } =
        (callSvc h .rawSvc regs w).schedule s ∧
      ((callSvc h .rawSvc regs w).halted = false →
        Shows ((callSvc h .rawSvc regs w).schedule s) (callSvc h .rawSvc regs w).world) := by
  have hmain : w.mainMayWait = false := by simp [World.mainMayWait, hw.scheduling]
  have hlow : ¬ regs 0 < 0x1000 := not_lt.mpr hhigh
  -- in a pass nothing happens before the handler
  simp only [callSvc, Entry.handler, beforeSwitch, Host.rawFutex, hlow, if_false, hmain,
    Bool.false_eq_true, eventOf]
  split
  case isTrue =>
    refine ⟨?_, fun hgoes => hw.schedule hgoes rfl rfl rfl rfl rfl⟩
    simp [Sched.step, hp, Sched.call, Sched.svcFutexWake, hlow, Outcome.schedule, World.wake,
      hw.threads, hw.mem, hw.tokens, hw.quiet]
  case isFalse =>
    simp only [Sched.step, hp, Sched.call, Sched.svcFutexWait, hlow, false_or, hw.mem, hw.tokens]
    split
    · refine ⟨?_, fun hgoes => hw.schedule hgoes rfl rfl rfl rfl rfl⟩
      simp [Outcome.schedule, hw.threads, hw.mem, hw.tokens, hw.quiet]
    split
    · refine ⟨?_, fun hgoes => hw.schedule hgoes rfl rfl rfl rfl rfl⟩
      simp [Outcome.schedule, World.takeToken, Sched.takeToken, hw.threads, hw.mem, hw.tokens,
        hw.quiet]
    · refine ⟨?_, fun hgoes => absurd hgoes (by simp [World.park])⟩
      simp [Outcome.schedule, World.park, Sched.park, Sched.modifyTid, Sched.endSlice, hp,
        hw.threads, hw.mem, hw.tokens, hw.tid]

end

/-! ## Two calls -/

/-- A runtime in which nothing happens between two turns. -/
def quietHost : Host Unit :=
  { slices := fun _ w => w, callbacks := id, armMalloc := fun mem rest => (0x5000, mem, rest)
    futexSpins := 500, forceUnlock := false, forceUnlockAfter := 8 }

/-- The main thread, alone. -/
def loneWorld : World Unit :=
  { mem := fun _ => 0, threads := [], tokens := fun _ => 0, waitAddrs := fun _ => 0, tid := 0
    scheduling := false, yieldRequested := false, errnoVas := fun _ => none, svcSchedCtr := 0
    forceN := fun _ => 0, rest := () }

def regsOf (values : List Nat) (r : Nat) : Nat := values.getD r 0

/-- The slice of the only worker. -/
def loneSlice : Sched :=
  { Sched.initial (fun _ => 0) fun _ => 0 with
      workers := [.created 2 0x10000 0], phase := .slice 0 }

def loneWorker : World Unit :=
  { loneWorld with threads := loneSlice.workers, tid := 2, scheduling := true }

theorem simulates_parks :
    Shows loneSlice loneWorker ∧
      { loneSlice.step ⟨false, 500, fun _ => true⟩ (eventOf 0x20000 128 0) with owed := [] } =
        (callSvc quietHost .rawSvc (regsOf [0x20000, 128, 0]) loneWorker).schedule loneSlice := by
  have hw : Shows loneSlice loneWorker := ⟨rfl, rfl, rfl, rfl, rfl, rfl⟩
  have hhigh : 0x1000 ≤ regsOf [0x20000, 128, 0] 0 := by decide
  exact ⟨hw, (hw.simulates rfl hhigh _).1⟩

/-- The kernel's answer where the C library gives `shim`: the result, or the negated number in the
place of minus one. -/
def NegatesErrno (raw shim : Outcome Unit) : Prop :=
  if shim.ret = minusOne then ∃ code, shim.world.HasErrno code ∧ raw.ret = 2 ^ 32 - code
  else raw.ret = shim.ret

/-- A wait on a null address is answered with minus one by both, and not with `-EINVAL`. -/
theorem not_negatesErrno_null_wait :
    ¬ NegatesErrno (callSvc quietHost .rawSvc (regsOf [0, 0, 0, 0, 0, 0, 0, 240]) loneWorld)
      (callSvc quietHost .syscall (regsOf [240, 0, 0, 0]) loneWorld) := by
  intro hneg
  obtain ⟨code, ⟨va, hva, hcode⟩, hret⟩ := hneg
  have hfound : va = 0x5000 := Option.some.inj (hva.symm.trans (by decide))
  subst hfound
  have hinval : code = 22 := (hcode (by decide)).symm.trans (by decide)
  subst hinval
  exact absurd hret (by decide)

/-- A wake of one waiter at `0x20000`. -/
theorem wake_same_outcome :
    callSvc quietHost .rawSvc (regsOf [0x20000, 1, 1, 0, 0, 0, 0, 240]) loneWorld =
      callSvc quietHost .syscall (regsOf [240, 0x20000, 1, 1]) loneWorld :=
  (rawSvc_eq_syscall quietHost rfl loneWorld 0x20000 1 1 0 _ _
    ⟨rfl, rfl, rfl, rfl, rfl⟩ ⟨rfl, rfl, rfl, rfl, rfl⟩).1

end FutexCall

end Lunaria
