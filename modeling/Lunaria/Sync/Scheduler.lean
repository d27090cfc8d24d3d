/-
# Parked workers and the scheduler pass

A guest worker that blocks does not stop its host thread: the call marks the
worker's record (`waiting_sem`, `waiting_futex`, `waiting_cond`), asks for a yield,
and every later pass of `schedule_threads` decides from that mark whether the worker
is given a slice. The main thread blocks differently, by calling `schedule_threads`
in a bounded loop until the event it waits for shows up.

This module is the machine behind all three primitives: the records, the shared
tables (`g_sems`, `g_futex_wake_tokens`, `g_conds`), the pass as the source runs it
one worker at a time, and the calls a guest context can make between two visits. A
call is one event, so a schedule is a list of events.

Three fields do not exist in the program and are only written: `owed` and
`signalled` record which workers a wake was meant for and in which pass it was
made, and `log` records what the semaphore calls answered.
-/

import Lunaria.Layout
import Lunaria.Lib.Run
import Mathlib.Logic.Function.Basic

namespace Lunaria

open Lib

/-! ## Records -/

/-- What the pass reads of an `ArmThread`: `r0` and `x0` are the saved result registers;
`waitMutex`, no field of the source, is the mutex of the wait. -/
structure Worker where
  id : Nat
  entryPc : Nat
  finished : Bool
  deferCount : Nat
  r0 : Nat
  x0 : Nat
  waitingSem : Nat
  semSkipPasses : Nat
  semTimed : Bool
  waitingFutex : Nat
  futexVal : Nat
  waitingCond : Nat
  waitMutex : Nat

/-- Where control is: in the main thread, in the loop head of the pass before worker
`i`, or in the slice of worker `i`. -/
inductive Phase
  | idle
  | scan (i : Nat)
  | slice (i : Nat)
  deriving DecidableEq

/-- The loop the main thread is in while it blocks. `left` is the number of passes it
will still make. -/
inductive MainWait
  | sem (sem : Nat) (timed : Bool) (left : Nat)
  | futex (uaddr val left : Nat)
  | cond (cond mutex saved left : Nat)
  deriving DecidableEq

/-- A wake made during pass `pass` for worker `worker`, parked on `addr`. -/
structure Debt where
  worker : Nat
  addr : Nat
  pass : Nat
  deriving DecidableEq

/-- A semaphore call: a post, a wait answered with `result` after taking a unit (`took`) or not, or
a wait in a nested callback with what it returned. -/
inductive SemEvent
  | posted (sem : Nat)
  | answered (sem : Nat) (timed : Bool) (result : Nat) (took : Bool)
  | nested (sem : Nat) (timed : Bool) (result : Nat)
  deriving DecidableEq

/-- What does not change: the instruction set, `LUNARIA_FUTEX_SPINS`, and which addresses
`GuestMem::ptr` resolves. -/
structure SchedConfig where
  isArm64 : Bool
  spins : Nat
  mapped : Nat → Bool

/-- The scheduler with the tables of the primitives, which are total: the source does not tell a
missing key from a zero. -/
structure Sched where
  workers : List Worker
  phase : Phase
  passes : Nat
  mem : Nat → Nat
  sems : Nat → Int
  tokens : Nat → Nat
  conds : Nat → Nat
  main : Option MainWait
  owed : List Debt
  signalled : List Debt
  log : List SemEvent

/-- The error value `~0u`. -/
def minusOne : Nat := 0xffffffff

/-- `++` on an `int32_t`. -/
def incr32 (v : Int) : Int := if v = 0x7fffffff then -0x80000000 else v + 1

namespace Worker

/-- The record `pthread_create` appends. -/
def created (id entryPc arg : Nat) : Worker :=
  { id, entryPc, finished := false, deferCount := 0, r0 := arg, x0 := arg, waitingSem := 0,
    semSkipPasses := 0, semTimed := false, waitingFutex := 0, futexVal := 0, waitingCond := 0,
    waitMutex := 0 }

/-- What the guest finds in its result register: the A32 slice reloads `regs`, the A64 slice
`regs64`. -/
def result (cfg : SchedConfig) (t : Worker) : Nat := if cfg.isArm64 then t.x0 else t.r0

end Worker

/-! ## The pass -/

/-- The entry points of the Swappy threads, which may be registered before their
callback pointer is set. -/
def swappyEntry (pc : Nat) : Bool := decide (0x02703800 ≤ pc ∧ pc < 0x02704000)

/-- The deferral of a Swappy thread whose callback pointer is still null. The result
says whether the worker gets its slice. -/
def deferStage (cfg : SchedConfig) (mem : Nat → Nat) (t : Worker) : Worker × Bool :=
  if swappyEntry t.entryPc then
    if t.r0 ≠ 0 ∧ cfg.mapped ((t.r0 + 0x10) % 2 ^ 32) = true ∧ mem ((t.r0 + 0x10) % 2 ^ 32) = 0 then
      ({ t with deferCount := t.deferCount + 1,
                finished := decide (256 ≤ t.deferCount + 1) }, false)
    else ({ t with deferCount := 0 }, true)
  else (t, true)

namespace Sched

variable (cfg : SchedConfig)

variable (s : Sched) (i : Nat) (t : Worker)

/-- The pass goes on to the next worker, with the record of worker `i` written back. -/
def leave : Sched :=
  { s with workers := s.workers.set i t, phase := .scan (i + 1) }

/-- Worker `i` is given its slice. -/
def enter : Sched :=
  { s with workers := s.workers.set i t, phase := .slice i,
           signalled := s.signalled.filter fun d => decide (d.worker ≠ i) }

/-- The last part of a visit: nothing the worker waited for holds it back. -/
def resume : Sched :=
  if (deferStage cfg s.mem t).2 then s.enter i (deferStage cfg s.mem t).1
  else s.leave i (deferStage cfg s.mem t).1

/-- The part of a visit that looks at `waiting_futex`: a token or a changed word
unparks the worker. -/
def visitFutex : Sched :=
  if t.waitingFutex = 0 then s.resume cfg i t
  else
    let unparked := { s with owed := s.owed.filter fun d => decide (d.worker ≠ i) }
    if 0 < s.tokens t.waitingFutex then
      { unparked with
          tokens := Function.update s.tokens t.waitingFutex (s.tokens t.waitingFutex - 1) }.resume
        cfg i { t with waitingFutex := 0 }
    else if s.mem t.waitingFutex = t.futexVal then s.leave i t
    else unparked.resume cfg i { t with waitingFutex := 0 }

/-- A visit and `waiting_sem`: a positive value is taken; a timed wait gives up at its two
thousandth visit. Both write to `regs[0]`. -/
def visitSem : Sched :=
  if t.waitingSem = 0 then s.visitFutex cfg i t
  else if 0 < s.sems t.waitingSem then
    let t' := { t with r0 := 0, waitingSem := 0, semSkipPasses := 0 }
    { s with
        sems := Function.update s.sems t.waitingSem (s.sems t.waitingSem - 1)
        log := .answered t.waitingSem t.semTimed (t'.result cfg) true :: s.log }.visitFutex cfg i t'
  else if t.semTimed then
    if 2000 ≤ t.semSkipPasses + 1 then
      let t' := { t with r0 := minusOne, waitingSem := 0, semSkipPasses := 0 }
      { s with log := .answered t.waitingSem true (t'.result cfg) false :: s.log }.visitFutex cfg i
        t'
    else s.leave i { t with semSkipPasses := t.semSkipPasses + 1 }
  else s.leave i t

/-- One iteration of the loop of `schedule_threads`, and the end of the loop. -/
def visit : Sched :=
  match s.phase with
  | .scan i =>
    match s.workers[i]? with
    | none => { s with phase := .idle }
    | some t =>
      if t.finished ∨ t.waitingCond ≠ 0 then s.leave i t else s.visitSem cfg i t
  | _ => s

/-- `schedule_threads` is called: it returns at once if a pass is under way or there
are no workers. -/
def schedule : Sched :=
  if s.phase = .idle ∧ s.workers ≠ [] then { s with phase := .scan 0, passes := s.passes + 1 }
  else s

end Sched

/-! ## The calls of a guest context -/

namespace Sched

variable (s : Sched) (cfg : SchedConfig) (cond : Nat) (sem : Nat)

/-- The id of the context that is running, `g_current_tid`. -/
def curTid : Nat :=
  match s.phase with
  | .slice i => (s.workers[i]?.map Worker.id).getD 0
  | _ => 0

/-- The handlers find the record of the running worker by its id. -/
def modifyTid (tid : Nat) (f : Worker → Worker) : Sched :=
  { s with workers := s.workers.modify (s.workers.findIdx fun t => t.id == tid) f }

/-- The slice of the running worker ends and its registers are saved. -/
def endSlice (r0 x0 : Nat) (finished : Bool) : Sched :=
  match s.phase with
  | .slice i =>
    { s with
        workers := s.workers.modify i fun t => { t with r0, x0, finished := t.finished || finished }
        phase := .scan (i + 1) }
  | _ => s

/-- A worker parks: it marks its record, the call returns zero and the slice ends. -/
def park (f : Worker → Worker) : Sched := (s.modifyTid s.curTid f).endSlice 0 0 false

/-- The indices of the unfinished workers that meet a test, in the order of the vector. -/
def indicesWhere (p : Worker → Bool) : List Nat :=
  (List.range s.workers.length).filter fun i => (s.workers[i]?.any p)

def svcSemPost : Sched :=
  { s with sems := Function.update s.sems sem (incr32 (s.sems sem)), log := .posted sem :: s.log }

/-- A wait takes a unit and returns zero. -/
def semTake (timed : Bool) : Sched :=
  { s with sems := Function.update s.sems sem (s.sems sem - 1)
           log := .answered sem timed 0 true :: s.log }

/-- A wait is answered without touching the semaphore. -/
def semAnswer (timed : Bool) (result : Nat) : Sched :=
  { s with log := .answered sem timed result false :: s.log }

def svcSemTrywait : Sched :=
  if 0 < s.sems sem then s.semTake sem false else s.semAnswer sem false minusOne

/-- `sem_wait` and `sem_timedwait`: zero inside a nested callback, a loop for the main thread, a
unit or a park for a worker. A null semaphore is no mark, so a worker's call returns zero. -/
def svcSemWait (s : Sched) (sem : Nat) (timed inCb : Bool) : Sched :=
  if inCb then { s with log := .nested sem timed 0 :: s.log }
  else
    match s.phase with
    | .idle =>
      if s.workers ≠ [] then
        if s.main = none then { s with main := some (.sem sem timed cfg.spins) } else s
      else if 0 < s.sems sem then s.semTake sem timed
      else s.semAnswer sem timed minusOne
    | _ =>
      if 0 < s.sems sem then s.semTake sem timed
      else if sem = 0 then (s.semAnswer sem timed 0).endSlice 0 0 false
      else s.park fun t => { t with waitingSem := sem, semTimed := timed, semSkipPasses := 0 }

/-- The workers parked on a futex word. -/
def parkedOn (uaddr : Nat) : List Nat :=
  s.indicesWhere fun t => t.waitingFutex == uaddr

/-- How many tokens a wake for `n` waiters leaves: at least one and at most 256. -/
def nwake (n : Nat) : Nat := if n = 0 then 1 else min n 256

/-- The parked workers to which a wake for all of them is owed, without those to which an earlier
one is. -/
def newlyWoken (uaddr n : Nat) : List Nat :=
  if (s.parkedOn uaddr).length ≤ n then
    (s.parkedOn uaddr).filter fun i => s.owed.all fun d => decide (d.worker ≠ i)
  else []

/-- `FUTEX_WAKE`: the wake is recorded as tokens of the address. -/
def svcFutexWake (uaddr n : Nat) : Sched :=
  if uaddr < 0x1000 then s
  else
    { s with
        tokens := Function.update s.tokens uaddr ((s.tokens uaddr + nwake n) % 2 ^ 32)
        owed := s.owed ++ (s.newlyWoken uaddr n).map fun i => ⟨i, uaddr, s.passes⟩ }

/-- A pending token of the address is consumed. -/
def takeToken (uaddr : Nat) : Sched :=
  { s with tokens := Function.update s.tokens uaddr (s.tokens uaddr - 1) }

def svcFutexWait (s : Sched) (uaddr val : Nat) : Sched :=
  if uaddr < 0x1000 ∨ s.mem uaddr ≠ val then s
  else if 0 < s.tokens uaddr then s.takeToken uaddr
  else
    match s.phase with
    | .idle =>
      if s.workers ≠ [] ∧ s.main = none then { s with main := some (.futex uaddr val cfg.spins) }
      else s
    | _ => s.park fun t => { t with waitingFutex := uaddr, futexVal := val }

/-- The mutex word with which a wait takes the mutex back: the word it found, with the
caller as owner. -/
def retaken (saved tid : Nat) : Nat :=
  (if saved < 0x100 then 0x100 else saved / 0x100 * 0x100) ||| (tid + 1)

/-- A store to a mutex that the caller may have left out. -/
def writeMutex (mutex word : Nat) : Sched :=
  if mutex = 0 then s else { s with mem := Function.update s.mem mutex word }

/-- A pending token of the condition variable lets a wait return at once. -/
def condToken : Bool := decide (cond ≠ 0 ∧ 0 < s.conds cond)

/-- That wait consumes the token, unless it is the permanent one. -/
def takeCond : Sched :=
  if s.conds cond = minusOne then s
  else { s with conds := Function.update s.conds cond (s.conds cond - 1) }

/-- `pthread_cond_wait`: the main thread gives the mutex up until its loop ends; a worker gives it
up, parks, and takes it back in the same call. -/
def svcCondWait (s : Sched) (cond mutex : Nat) : Sched :=
  if s.condToken cond then s.takeCond cond
  else
    match s.phase with
    | .idle =>
      if s.workers = [] then s.writeMutex mutex (retaken (s.mem mutex) 0)
      else if s.main = none then
        { s.writeMutex mutex 0 with main := some (.cond cond mutex (s.mem mutex) cfg.spins) }
      else s
    | _ =>
      (s.writeMutex mutex (retaken (s.mem mutex) s.curTid)).park fun t =>
        { t with waitingCond := cond, waitMutex := mutex }

/-- `pthread_cond_timedwait`: the timeout is ignored and the caller yields once. -/
def svcCondTimedwait (cond mutex : Nat) : Sched :=
  if s.condToken cond then s.takeCond cond
  else
    match s.phase with
    | .idle =>
      if s.workers = [] then s.writeMutex mutex (retaken (s.mem mutex) 0)
      else if s.main = none then
        { s.writeMutex mutex 0 with main := some (.cond cond mutex (s.mem mutex) 1) }
      else s
    | _ => (s.writeMutex mutex (retaken (s.mem mutex) s.curTid)).endSlice 0 0 false

/-- The workers blocked on a condition variable. -/
def blockedOn : List Nat :=
  s.indicesWhere fun t => !t.finished && t.waitingCond == cond

/-- The given workers are no longer blocked, which is owed to each of them. -/
def wakeAll (woken : List Nat) : Sched :=
  { s with
      workers := s.workers.mapIdx fun i t => if i ∈ woken then { t with waitingCond := 0 } else t
      signalled := s.signalled ++ woken.map fun i => ⟨i, cond, s.passes⟩ }

/-- `pthread_cond_signal`: the first blocked worker is woken; without one, a token is
left for a later or looping waiter. -/
def svcCondSignal : Sched :=
  if cond = 0 then s
  else
    match s.blockedOn cond with
    | i :: _ => s.wakeAll cond [i]
    | [] => { s with conds := Function.update s.conds cond (max 1 (s.conds cond)) }

/-- `pthread_cond_broadcast`: every blocked worker is woken; without one, tokens are
left. -/
def svcCondBroadcast : Sched :=
  if cond = 0 then s
  else
    let woken := s.blockedOn cond
    { s.wakeAll cond woken with
        conds := Function.update s.conds cond (if woken = [] then s.workers.length + 1 else 0) }

/-- One turn of the loop in which the main thread blocks. -/
def mainPoll : Sched :=
  match s.phase, s.main with
  | .idle, some (.sem sem timed left) =>
    if 0 < s.sems sem then { s.semTake sem timed with main := none }
    else if 0 < left then { s.schedule with main := some (.sem sem timed (left - 1)) }
    else { s.semAnswer sem timed minusOne with main := none }
  | .idle, some (.futex uaddr val left) =>
    if s.mem uaddr ≠ val then { s with main := none }
    else if 0 < s.tokens uaddr then { s.takeToken uaddr with main := none }
    else if 0 < left then { s.schedule with main := some (.futex uaddr val (left - 1)) }
    else { s with main := none }
  | .idle, some (.cond cond mutex saved left) =>
    if s.condToken cond ∨ left = 0 then
      { s.writeMutex mutex (retaken saved 0) with main := none }
    else { s.schedule with main := some (.cond cond mutex saved (left - 1)) }
  | _, _ => s

end Sched

/-! ## Schedules -/

/-- One event of a schedule: a step of the pass, a turn of the main thread's loop, or a call or
store of the context that is running. There is no `pthread_join`, which erases records, and a
`create` in a slice is one for which the vector of records has room: if it were reallocated, the
reference of the pass to the running worker would dangle. -/
inductive SchedOp
  | pass
  | visit
  | endSlice (r0 x0 : Nat) (finished : Bool)
  | poll
  | create (entryPc arg : Nat)
  | store (addr value : Nat)
  | semPost (sem : Nat)
  | semTrywait (sem : Nat)
  | semWait (sem : Nat) (timed inCb : Bool)
  | futexWake (uaddr n : Nat)
  | futexWait (uaddr val : Nat)
  | condWait (cond mutex : Nat)
  | condTimedwait (cond mutex : Nat)
  | condSignal (cond : Nat)
  | condBroadcast (cond : Nat)
  deriving DecidableEq

namespace Sched

def call (cfg : SchedConfig) (s : Sched) : SchedOp → Sched
  | .create entryPc arg =>
    { s with workers := s.workers ++ [.created (s.workers.length + 2) entryPc arg] }
  | .store addr value => { s with mem := Function.update s.mem addr value }
  | .semPost sem => s.svcSemPost sem
  | .semTrywait sem => s.svcSemTrywait sem
  | .semWait sem timed inCb => s.svcSemWait cfg sem timed inCb
  | .futexWake uaddr n => s.svcFutexWake uaddr n
  | .futexWait uaddr val => s.svcFutexWait cfg uaddr val
  | .condWait cond mutex => s.svcCondWait cfg cond mutex
  | .condTimedwait cond mutex => s.svcCondTimedwait cond mutex
  | .condSignal cond => s.svcCondSignal cond
  | .condBroadcast cond => s.svcCondBroadcast cond
  | _ => s

/-- One event. No guest code runs while the pass is between two workers. -/
def step (cfg : SchedConfig) (s : Sched) (op : SchedOp) : Sched :=
  match op with
  | .pass => s.schedule
  | .visit => s.visit cfg
  | .endSlice r0 x0 finished => s.endSlice r0 x0 finished
  | .poll => s.mainPoll
  | op =>
    match s.phase with
    | .scan _ => s
    | _ => s.call cfg op

def initial (mem : Nat → Nat) (sems : Nat → Int) : Sched :=
  { workers := [], phase := .idle, passes := 0, mem, sems, tokens := fun _ => 0
    conds := fun _ => 0, main := none, owed := [], signalled := [], log := [] }

end Sched

end Lunaria
