/-
# Guest code called from a supervisor call

A handler may call back into guest code: a comparator, a proxy, the constructors of a
library. The interrupted thread is then in the middle of a `Run` of its own processor
instance, and the recompiler does not allow a second one on the same instance: it asserts
and ends the process. The callbacks have two instances and two stacks of their own, chosen
by a counter of the nesting depth; workers run on one instance and the main thread on
another.

What guest code does is not known here. A run is a tree that says what the code does next
for every answer it may get, and so is a handler; the two trees call each other. The tree
is given a meaning twice: the one a programmer expects, in which a call is a call, and the
one the instances give it. On A64 two global flags say of what kind an answer is. Calls made by
the callee set them too, and the adapter of the interrupted call finds what is left.

On A64 `dlopen` does not use the callback instances. It starts its constructors on the
instance of the main thread.
-/

import Lunaria.Guest.Adapter
import Mathlib.Logic.Function.Basic

namespace Lunaria

open Option Function

namespace Nesting

open Lib

/-! ## Instances -/

/-- The vector registers are left out: `CallSVC` writes one for the results of the mathematical
functions only, which call no guest code. -/
structure Cpu where
  regs : Nat → Nat
  sp : Nat
  pc : Nat

/-- `jit`, `jit_aux` and the `jit_cb` array, or their A64 counterparts. -/
inductive Instance where
  | main
  | aux
  | cb (depth : Nat)
  deriving DecidableEq

/-- `running` is what the recompiler calls `is_executing`. -/
structure Machine where
  cpu : Instance → Cpu
  running : Instance → Bool
  cbDepth : Nat
  scheduling : Bool
  flags : SvcFlags

/-- What a handler answers: its result, the second word of its array of registers, and whether it
asks for a yield. -/
structure Answer where
  ret : SvcRet
  r1 : Nat
  yields : Bool
  deriving DecidableEq

namespace Cpu

def put (cpu : Cpu) (r v : Nat) : Cpu := { cpu with regs := Function.update cpu.regs r v }

/-- The registers with the handler's own result. -/
def withResult (L : Layout) (cpu : Cpu) (ret : SvcRet) : Cpu :=
  if L.isArm64 then cpu.put 0 ret.x0
  else
    match ret with
    | .ret32 v | .retptr v => cpu.put 0 v
    | .ret64 v => (cpu.put 0 (u32 v)).put 1 (u32 (v / 2 ^ 32))

/-- What `call_guest_cb` and `run_arm64` hand back, an `int32_t`. -/
def result (cpu : Cpu) : Nat := u32 (cpu.regs 0)

end Cpu

/-- The registers with which `call_guest_cb` and `call_guest_cb64` start a function; `stk` are the
arguments after the fourth. -/
def callbackEntry (L : Layout) (depth fn : Nat) (args stk : List Nat) : Cpu :=
  let top := L.cbStackBase + depth * cbStackSize + cbStackSize - 16
  if L.isArm64 then
    let left := stk.length - 4
    { regs := fun r =>
        if r < 4 then args.getD r 0
        else if r < 8 then stk.getD (r - 4) 0
        else if r = 30 then a64GuestVa L.sentinelAddr else 0
      sp := if 0 < left then roundDown (a64GuestVa top - roundUp left 2 * 8) 16 else a64GuestVa top
      pc := roundDown fn 2 }
  else
    { regs := fun r => if r < 4 then args.getD r 0 else if r = 14 then L.sentinelAddr else 0
      sp := top - roundUp stk.length 2 * 4
      pc := roundDown fn 2 }

/-- The registers with which `run_arm64` starts a function. -/
def mainEntry (L : Layout) (fn arg : Nat) : Cpu :=
  { regs := fun r => if r = 0 then arg else if r = 30 then a64GuestVa L.sentinelAddr else 0
    sp := a64GuestVa (L.stackBase + L.stackSize - 16)
    pc := if a64IsGuestVa fn then fn else a64GuestVa (u32 fn) }

/-- How a handler calls guest code: through `call_guest_cb`, or as part of `dlopen`. -/
inductive Route where
  | callback
  | dlopen
  deriving DecidableEq

namespace Route

variable (L : Layout) (route : Route)

/-- `dlopen` on A64 uses `run_arm64`; everything else uses `call_guest_cb`. -/
def onMain : Bool := L.isArm64 && decide (route = .dlopen)

/-- The instance on which the function is started. -/
def target (depth : Nat) : Instance := if route.onMain L then .main else .cb depth

/-- The registers with which it is started. -/
def entry (depth fn : Nat) (args stk : List Nat) : Cpu :=
  if route.onMain L then mainEntry L fn (args.getD 0 0) else callbackEntry L depth fn args stk

/-- `g_cb_depth` while it runs. -/
def inner (depth : Nat) : Nat := if route.onMain L then depth else depth + 1

/-- `g_cb_depth` after it has run. -/
def outer (depth : Nat) : Nat := if route.onMain L then depth else depth - 1

/-- The call is not made and answers zero: a null function, or a callback nested too deep. -/
def skips (limit depth fn : Nat) : Bool :=
  !route.onMain L && (decide (fn = 0) || decide (limit ≤ depth))

/-- A request to yield halts the instance. The loop of `call_guest_cb64` goes on all the same. -/
def stops : Bool := route.onMain L || !L.isArm64

end Route

/-! ## Guest code and handlers -/

mutual

/-- A piece of guest code returns, is stopped before (a fault, a spent budget, the end of a slice),
or makes a supervisor call and goes on with the registers it finds afterwards. -/
inductive Code where
  | ret (cpu : Cpu)
  | halt (cpu : Cpu)
  | svc (cpu : Cpu) (handler : Handler) (next : Cpu → Code)

/-- A handler answers; calls a guest function and goes on; or gives a
worker a slice. -/
inductive Handler where
  | done (a : Answer)
  | call (route : Route) (fn : Nat) (args stk : List Nat) (code : Cpu → Code)
      (next : Nat → Handler)
  | slice (saved : Cpu) (code : Cpu → Code) (next : Handler)

end

/-! ## Calls as calls

The meaning of a run in which a callback is an ordinary call of a function. `limit` is the
depth from which on callbacks are not made, and `stops` says whether a request to yield ends
the run. Beside it stand the flags that the last call leaves. -/

mutual

/-- The registers with which the code comes to its return, if it does. -/
def Code.eval (L : Layout) (limit : Nat) (stops scheduling : Bool) (depth : Nat) :
    Code → SvcFlags → Option Cpu × SvcFlags
  | .ret cpu, left => (some cpu, left)
  | .halt _, left => (none, left)
  | .svc cpu handler next, _ =>
    match Handler.eval L limit scheduling depth handler .clear with
    | (none, left) => (none, left)
    | (some a, left) =>
      if a.yields && stops then (none, left.after a.ret)
      else Code.eval L limit stops scheduling depth (next (cpu.withResult L a.ret))
        (left.after a.ret)

/-- What the handler answers, if every function it calls comes to its return. -/
def Handler.eval (L : Layout) (limit : Nat) (scheduling : Bool) (depth : Nat) :
    Handler → SvcFlags → Option Answer × SvcFlags
  | .done a, left => (some a, left)
  | .call route fn args stk code next, left =>
    if route.skips L limit depth fn then Handler.eval L limit scheduling depth (next 0) left
    else
      match Code.eval L limit (route.stops L) scheduling (route.inner L depth)
          (code (route.entry L depth fn args stk)) left with
      | (none, left) => (none, left)
      | (some cpu, left) => Handler.eval L limit scheduling depth (next cpu.result) left
  | .slice saved code next, left =>
    -- a pass inside a pass returns at once
    if scheduling then Handler.eval L limit scheduling depth next left
    else Handler.eval L limit scheduling depth next
      (Code.eval L limit true true depth (code saved) left).2

end

/-! ## Calls on instances -/

namespace Machine

variable (m : Machine)

def setCpu (i : Instance) (cpu : Cpu) : Machine := { m with cpu := Function.update m.cpu i cpu }

/-- `Run` is entered on the instance with these registers. -/
def start (i : Instance) (cpu : Cpu) : Machine :=
  { m.setCpu i cpu with running := Function.update m.running i true }

def finish (i : Instance) : Machine := { m with running := Function.update m.running i false }

/-- `CallSVC` before the handler. A32 does not clear the flags, but does not read them either. -/
def interrupt (i : Instance) (cpu : Cpu) : Machine := { m.setCpu i cpu with flags := .clear }

/-- `CallSVC` after the handler: A32 writes back its copy of the registers with the result; A64 the
result register of its instance, by the flags. -/
def writeBack (L : Layout) (i : Instance) (before : Cpu) (a : Answer) : Machine :=
  { m.setCpu i (if L.isArm64 then (m.cpu i).put 0 (a.ret.x0Of m.flags a.r1)
      else before.withResult L a.ret) with
    flags := m.flags.after a.ret }

end Machine

mutual

/-- Run the code on an instance: whether it came to its return; `none` if an instance was started
twice, which ends the process. -/
def Code.run (L : Layout) (stops : Bool) (i : Instance) : Code → Machine → Option (Bool × Machine)
  | .ret cpu, m => some (true, m.setCpu i cpu)
  | .halt cpu, m => some (false, m.setCpu i cpu)
  | .svc cpu handler next, m =>
    match Handler.run L handler (m.interrupt i cpu) with
    | none => none
    | some (a, m') =>
      let m'' := m'.writeBack L i cpu a
      if a.yields && stops then some (false, m'')
      else Code.run L stops i (next (m''.cpu i)) m''

def Handler.run (L : Layout) : Handler → Machine → Option (Answer × Machine)
  | .done a, m => some (a, m)
  | .call route fn args stk code next, m =>
    if route.skips L cbMaxDepth m.cbDepth fn then Handler.run L (next 0) m
    else if m.running (route.target L m.cbDepth) then none
    else
      let i := route.target L m.cbDepth
      let entry := route.entry L m.cbDepth fn args stk
      match Code.run L (route.stops L) i (code entry)
          { m.start i entry with cbDepth := route.inner L m.cbDepth } with
      | none => none
      | some (_, m') =>
        Handler.run L (next (m'.cpu i).result)
          { m'.finish i with cbDepth := route.outer L m'.cbDepth }
  | .slice saved code next, m =>
    if m.scheduling then Handler.run L next m
    else if m.running .aux then none
    else
      match Code.run L true .aux (code saved) { m.start .aux saved with scheduling := true } with
      | none => none
      | some (_, m') => Handler.run L next { m'.finish .aux with scheduling := false }

end

/-! ## When the two agree -/

mutual

/-- Nothing starts an instance twice, every function called comes to its return and leaves no flag
of another kind than the handler's answer, in a run under `mainBusy` and `scheduling`. -/
def Code.Clear (L : Layout) (stops mainBusy scheduling : Bool) (depth : Nat) : Code → Prop
  | .ret _ => True
  | .halt _ => True
  | .svc cpu handler next =>
    Handler.Clear L mainBusy scheduling depth handler .clear ∧
      ∀ a left, handler.eval L cbMaxDepth scheduling depth .clear = (some a, left) →
        (L.isArm64 = true → left.Fits a.ret) ∧ ((a.yields && stops) = false →
          Code.Clear L stops mainBusy scheduling depth (next (cpu.withResult L a.ret)))

/-- The same of a handler: guest code is run on the main instance only while that is idle. -/
def Handler.Clear (L : Layout) (mainBusy scheduling : Bool) (depth : Nat) :
    Handler → SvcFlags → Prop
  | .done _, _ => True
  | .call route fn args stk code next, left =>
    if route.skips L cbMaxDepth depth fn then
      Handler.Clear L mainBusy scheduling depth (next 0) left
    else
      (route.onMain L = true → mainBusy = false) ∧
        Code.Clear L (route.stops L) (mainBusy || route.onMain L) scheduling (route.inner L depth)
          (code (route.entry L depth fn args stk)) ∧
        ∃ cpu left', (code (route.entry L depth fn args stk)).eval L cbMaxDepth (route.stops L)
            scheduling (route.inner L depth) left = (some cpu, left') ∧
          Handler.Clear L mainBusy scheduling depth (next cpu.result) left'
  | .slice saved code next, left =>
    if scheduling then Handler.Clear L mainBusy scheduling depth next left
    else
      Code.Clear L true mainBusy true depth (code saved) ∧
        Handler.Clear L mainBusy scheduling depth next
          ((code saved).eval L cbMaxDepth true true depth left).2

end

/-- The callback instances that run are those below the depth, and the one of the workers runs
only in a pass. -/
structure Machine.Consistent (m : Machine) : Prop where
  callbacks : ∀ d, m.running (.cb d) = decide (d < m.cbDepth)
  workers : m.running .aux = true → m.scheduling = true

/-- The machine is as before in everything that is in the middle of a run, except for one
instance. -/
structure Machine.KeepsBut (i : Option Instance) (m m' : Machine) : Prop where
  running : m'.running = m.running
  cbDepth : m'.cbDepth = m.cbDepth
  scheduling : m'.scheduling = m.scheduling
  cpu : ∀ j, some j ≠ i → m.running j = true → m'.cpu j = m.cpu j

namespace Machine

variable {m m' m'' : Machine} {i : Instance} {cpu : Cpu} {o : Option Instance}

theorem KeepsBut.refl (o : Option Instance) (m : Machine) : m.KeepsBut o m :=
  ⟨rfl, rfl, rfl, fun _ _ _ => rfl⟩

theorem KeepsBut.trans (h : KeepsBut o m m') (h' : KeepsBut o m' m'') : KeepsBut o m m'' where
  running := h'.running.trans h.running
  cbDepth := h'.cbDepth.trans h.cbDepth
  scheduling := h'.scheduling.trans h.scheduling
  cpu := by
    intro j hj hrun
    have hrun' : m'.running j := by rw [h.running, hrun]
    exact (h'.cpu j hj hrun').trans (h.cpu j hj hrun)

theorem KeepsBut.weaken (h : KeepsBut none m m') : KeepsBut o m m' :=
  { h with cpu := fun j _ => h.cpu j (some_ne_none j) }

theorem KeepsBut.consistent (h : KeepsBut o m m') (hm : m.Consistent) : m'.Consistent where
  callbacks := by
    intro d
    rw [h.running, h.cbDepth]
    exact hm.callbacks d
  workers := by
    rw [h.running, h.scheduling]
    exact hm.workers

section

variable (m : Machine) (i : Instance) (cpu : Cpu)

theorem keepsBut_setCpu : KeepsBut (some i) m (m.setCpu i cpu) := by
  refine ⟨rfl, rfl, rfl, fun j hj _ => ?_⟩
  exact update_of_ne (fun heq => hj (congrArg some heq)) ..

theorem setCpu_cpu : (m.setCpu i cpu).cpu i = cpu :=
  update_self ..

theorem running_start : (m.start i cpu).running i := by
  simp [start]

end

theorem keepsBut_interrupt (m : Machine) (i : Instance) (cpu : Cpu) :
    KeepsBut (some i) m (m.interrupt i cpu) :=
  { m.keepsBut_setCpu i cpu with }

theorem keepsBut_writeBack (m : Machine) (L : Layout) (i : Instance) (cpu : Cpu) (a : Answer) :
    KeepsBut (some i) m (m.writeBack L i cpu a) :=
  { m.keepsBut_setCpu i _ with }

/-- A handler that leaves the interrupted instance alone, and flags that fit its answer, gives the
instance back with the result. -/
theorem writeBack_cpu {L : Layout} {a : Answer} (hcpu : m.cpu i = cpu)
    (hfits : L.isArm64 → m.flags.Fits a.ret) :
    (m.writeBack L i cpu a).cpu i = cpu.withResult L a.ret := by
  refine (m.setCpu_cpu i _).trans ?_
  by_cases harch : L.isArm64
  · rw [if_pos harch, hcpu, SvcRet.x0Of_of_fits (hfits harch)]
    exact (if_pos harch).symm
  · rw [if_neg harch]

/-- A whole run on an idle instance, seen from outside: it changes nothing that is in the
middle of a run. -/
theorem KeepsBut.around {m₁ m₂ : Machine} (hidle : m.running i = false)
    (hrun₁ : m₁.running = update m.running i true)
    (hcpu₁ : m₁.cpu = update m.cpu i cpu) (h : KeepsBut (some i) m₁ m')
    (hrun₂ : m₂.running = update m'.running i false) (hcpu₂ : m₂.cpu = m'.cpu)
    (hdepth : m₂.cbDepth = m.cbDepth) (hsched : m₂.scheduling = m.scheduling) :
    KeepsBut none m m₂ where
  running := by rw [hrun₂, h.running, hrun₁, update_idem, ← hidle, update_eq_self]
  cbDepth := hdepth
  scheduling := hsched
  cpu := by
    intro j _ hrun
    have hne : j ≠ i := by
      rintro rfl
      exact absurd (hrun.symm.trans hidle) (by decide)
    have hrun' : m₁.running j := by rw [hrun₁, update_of_ne hne, hrun]
    rw [hcpu₂, h.cpu j (fun heq => hne (some.inj heq)) hrun', hcpu₁, update_of_ne hne]

end Machine

section

variable {L : Layout} {m : Machine} {route : Route}

theorem target_idle (hm : m.Consistent) (hmain : route.onMain L → m.running .main = false) :
    m.running (route.target L m.cbDepth) = false := by
  rw [Route.target]
  split
  · rename_i hon
    exact hmain hon
  · rw [hm.callbacks]
    exact decide_eq_false (lt_irrefl _)

theorem consistent_called (hm : m.Consistent) (entry : Cpu) :
    { m.start (route.target L m.cbDepth) entry with
      cbDepth := route.inner L m.cbDepth }.Consistent := by
  constructor
  · intro d
    simp only [Machine.start, Route.target, Route.inner]
    split
    · exact hm.callbacks d
    by_cases hd : d = m.cbDepth
    · subst hd
      rw [update_self]
      exact (decide_eq_true (Nat.lt_succ_self _)).symm
    · rw [update_of_ne (by simpa using hd), hm.callbacks d, decide_eq_decide]
      omega
  · intro haux
    have haux' : m.running .aux := by
      simp only [Machine.start, Route.target] at haux
      split at haux
      · rwa [update_of_ne (by simp)] at haux
      · rwa [update_of_ne (by simp)] at haux
    exact hm.workers haux'

theorem main_called (entry : Cpu) : (m.start (route.target L m.cbDepth) entry).running .main =
      (m.running .main || route.onMain L) := by
  simp only [Machine.start, Route.target]
  split
  · rename_i hon
    rw [update_self, hon, Bool.or_true]
  · rename_i hon
    rw [update_of_ne (by simp), Bool.eq_false_iff.mpr hon, Bool.or_false]

theorem consistent_sliced (hm : m.Consistent) (saved : Cpu) :
    { m.start .aux saved with scheduling := true }.Consistent := by
  refine ⟨fun d => ?_, fun _ => rfl⟩
  exact hm.callbacks d

theorem Route.outer_inner (depth : Nat) : route.outer L (route.inner L depth) = depth := by
  rw [Route.outer, Route.inner]
  split <;> simp_all

/-! ## The instances give the expected meaning -/

/-- What the induction says of guest code on an instance that runs. -/
def Code.Agrees (L : Layout) (code : Code) : Prop :=
  ∀ (stops : Bool) (i : Instance) (m : Machine), m.Consistent → m.running i = true →
    code.Clear L stops (m.running .main) m.scheduling m.cbDepth →
      ∃ back m' result, code.run L stops i m = some (back, m') ∧ m.KeepsBut (some i) m' ∧
        code.eval L cbMaxDepth stops m.scheduling m.cbDepth m.flags = (result, m'.flags) ∧
        ∀ cpu, result = some cpu → m'.cpu i = cpu

/-- What it says of a handler. -/
def Handler.Agrees (L : Layout) (handler : Handler) : Prop :=
  ∀ m : Machine, m.Consistent →
    handler.Clear L (m.running .main) m.scheduling m.cbDepth m.flags →
      ∃ a m', handler.run L m = some (a, m') ∧ m.KeepsBut none m' ∧
        handler.eval L cbMaxDepth m.scheduling m.cbDepth m.flags = (some a, m'.flags)

/-- A handler that agrees, from the interruption to the answer. -/
theorem Handler.Agrees.interrupted {handler : Handler} {i : Instance} (h : handler.Agrees L)
    (cpu : Cpu) (hm : m.Consistent) (hi : m.running i = true)
    (hclear : handler.Clear L (m.running .main) m.scheduling m.cbDepth .clear)
    (hfits : ∀ a left, handler.eval L cbMaxDepth m.scheduling m.cbDepth .clear = (some a, left) →
      L.isArm64 = true → left.Fits a.ret) :
    ∃ a m', handler.run L (m.interrupt i cpu) = some (a, m') ∧
      handler.eval L cbMaxDepth m.scheduling m.cbDepth .clear = (some a, m'.flags) ∧
      (m'.writeBack L i cpu a).cpu i = cpu.withResult L a.ret ∧
      m.KeepsBut (some i) (m'.writeBack L i cpu a) := by
  have hset := m.keepsBut_interrupt i cpu
  obtain ⟨a, m', hrun, hkeep, heval⟩ := h _ (hset.consistent hm) hclear
  have hcpu : m'.cpu i = cpu := (hkeep.cpu i (some_ne_none i) hi).trans (m.setCpu_cpu i cpu)
  exact ⟨a, m', hrun, heval, Machine.writeBack_cpu hcpu (hfits a _ heval),
    (hset.trans hkeep.weaken).trans (m'.keepsBut_writeBack L i cpu a)⟩

theorem Code.agrees_svc {cpu : Cpu} {handler : Handler} {next : Cpu → Code}
    (hhandler : handler.Agrees L) (hnext : ∀ c, (next c).Agrees L) :
    (Code.svc cpu handler next).Agrees L := by
  intro stops i m hm hi hclear
  obtain ⟨a, m', hrun, heval, hcpu, hkeep⟩ :=
    hhandler.interrupted cpu hm hi hclear.1 fun a left heval => (hclear.2 a left heval).1
  rw [Code.run, hrun, Code.eval, heval]
  simp only [hcpu]
  by_cases hstop : (a.yields && stops)
  · exact ⟨false, _, none, if_pos hstop, hkeep, if_pos hstop, nofun⟩
  have hrest := (hclear.2 a _ heval).2 (Bool.eq_false_iff.mpr hstop)
  obtain ⟨back, m'', result, hrun', hkeep', heval', hresult⟩ :=
    hnext _ stops i _ (hkeep.consistent hm) (by rw [hkeep.running, hi])
      (by rw [hkeep.running, hkeep.scheduling, hkeep.cbDepth]; exact hrest)
  rw [hkeep.scheduling, hkeep.cbDepth] at heval'
  rw [if_neg hstop, if_neg hstop]
  exact ⟨back, m'', result, hrun', hkeep.trans hkeep', heval', hresult⟩

theorem Handler.agrees_call {fn : Nat} {args stk : List Nat} {code : Cpu → Code}
    {next : Nat → Handler} (hcode : ∀ c, (code c).Agrees L) (hnext : ∀ r, (next r).Agrees L) :
    (Handler.call route fn args stk code next).Agrees L := by
  intro m hm hclear
  rw [Handler.Clear] at hclear
  by_cases hskip : route.skips L cbMaxDepth m.cbDepth fn
  · rw [if_pos hskip] at hclear
    obtain ⟨a, m', hrun, hkeep, heval⟩ := hnext 0 m hm hclear
    refine ⟨a, m', ?_, hkeep, ?_⟩
    · rw [Handler.run, if_pos hskip, hrun]
    · rw [Handler.eval, if_pos hskip, heval]
  rw [if_neg hskip] at hclear
  obtain ⟨hmain, hinside, cpu, left, hcpu, hafter⟩ := hclear
  have hidle := target_idle hm hmain
  obtain ⟨back, m', result, hrun, hkeep, heval, hresult⟩ :=
    hcode _ _ _ { m.start _ (route.entry L m.cbDepth fn args stk) with
        cbDepth := route.inner L m.cbDepth }
      (consistent_called hm _)
      (m.running_start _ (route.entry L m.cbDepth fn args stk))
      (by rw [main_called]; exact hinside)
  obtain ⟨rfl, rfl⟩ := Prod.mk.inj (hcpu.symm.trans heval)
  have hresult : m'.cpu (route.target L m.cbDepth) = cpu := hresult cpu rfl
  have hround : m.KeepsBut none
      { m'.finish (route.target L m.cbDepth) with cbDepth := route.outer L m'.cbDepth } :=
    Machine.KeepsBut.around hidle rfl rfl hkeep rfl rfl
      (by rw [hkeep.cbDepth]; exact Route.outer_inner _) hkeep.scheduling
  obtain ⟨a, m'', hrun', hkeep', heval'⟩ :=
    hnext cpu.result _ (hround.consistent hm)
      (by rw [hround.running, hround.scheduling, hround.cbDepth]; exact hafter)
  rw [hround.scheduling, hround.cbDepth] at heval'
  refine ⟨a, m'', ?_, hround.trans hkeep', ?_⟩
  · rw [Handler.run, if_neg hskip, hidle]
    simp only [hrun, hresult]
    exact hrun'
  · rw [Handler.eval, if_neg hskip, hcpu]
    exact heval'

theorem Handler.agrees_slice {saved : Cpu} {code : Cpu → Code} {next : Handler}
    (hcode : ∀ c, (code c).Agrees L) (hnext : next.Agrees L) :
    (Handler.slice saved code next).Agrees L := by
  intro m hm hclear
  rw [Handler.Clear] at hclear
  by_cases hsched : m.scheduling
  · rw [if_pos hsched] at hclear
    obtain ⟨a, m', hrun, hkeep, heval⟩ := hnext m hm hclear
    refine ⟨a, m', ?_, hkeep, ?_⟩
    · rw [Handler.run, if_pos hsched, hrun]
    · rw [Handler.eval, if_pos hsched, heval]
  have hfree : m.scheduling = false := Bool.eq_false_iff.mpr hsched
  have hidle : m.running .aux = false := Bool.eq_false_iff.mpr fun haux => hsched (hm.workers haux)
  have hstarted : (m.start .aux saved).running .aux := m.running_start .aux saved
  rw [if_neg hsched] at hclear
  obtain ⟨hinside, hafter⟩ := hclear
  obtain ⟨back, m', result, hrun, hkeep, hleft, -⟩ :=
    hcode saved true .aux { m.start .aux saved with scheduling := true }
      (consistent_sliced hm saved) hstarted hinside
  have hleft : ((code saved).eval L cbMaxDepth true true m.cbDepth m.flags).2 = m'.flags :=
    congrArg Prod.snd hleft
  have hround : m.KeepsBut none { m'.finish .aux with scheduling := false } :=
    Machine.KeepsBut.around hidle rfl rfl hkeep rfl rfl hkeep.cbDepth hfree.symm
  rw [hleft] at hafter
  obtain ⟨a, m'', hrun', hkeep', heval'⟩ :=
    hnext _ (hround.consistent hm)
      (by rw [hround.running, hround.scheduling, hround.cbDepth]; exact hafter)
  rw [hround.scheduling, hround.cbDepth] at heval'
  refine ⟨a, m'', ?_, hround.trans hkeep', ?_⟩
  · rw [Handler.run, if_neg hsched, hidle]
    simp only [hrun]
    exact hrun'
  · rw [Handler.eval, if_neg hsched, hleft]
    exact heval'

mutual

theorem Code.agrees : ∀ code : Code, code.Agrees L
  | .ret cpu => by
      intro stops i m _ _ _
      refine ⟨true, m.setCpu i cpu, some cpu, by rw [Code.run], m.keepsBut_setCpu i cpu,
        by rw [Code.eval]; rfl, fun c hc => ?_⟩
      rw [m.setCpu_cpu, some.inj hc]
  | .halt cpu => by
      intro stops i m _ _ _
      exact ⟨false, m.setCpu i cpu, none, by rw [Code.run], m.keepsBut_setCpu i cpu,
        by rw [Code.eval]; rfl, nofun⟩
  | .svc _ handler next => Code.agrees_svc (Handler.agrees handler) fun c => Code.agrees (next c)

theorem Handler.agrees : ∀ handler : Handler, handler.Agrees L
  | .done a => by
      intro m _ _
      exact ⟨a, m, by rw [Handler.run], .refl none m, by rw [Handler.eval]⟩
  | .call _ _ _ _ code next =>
    Handler.agrees_call (fun c => Code.agrees (code c)) fun r => Handler.agrees (next r)
  | .slice _ code next => Handler.agrees_slice (fun c => Code.agrees (code c)) (Handler.agrees next)

end

end

/-! ## Libraries -/

/-- The constructors in order, then `JNI_OnLoad` if there is one. -/
def runLoaded (onLoadVa vmSlot : Nat) (onLoad : Cpu → Code) : List (Nat × (Cpu → Code)) → Handler
  | [] =>
    if onLoadVa = 0 then .done ⟨.ret32 1, 0, false⟩
    else .call .dlopen onLoadVa [vmSlot] [] onLoad fun _ => .done ⟨.ret32 1, 0, false⟩
  | (fn, code) :: ctors =>
    if fn = 0 ∨ fn = 2 ^ 64 - 1 then runLoaded onLoadVa vmSlot onLoad ctors
    else .call .dlopen fn [] [] code fun _ => runLoaded onLoadVa vmSlot onLoad ctors

/-- `SVC_DLOPEN` on a library that is not loaded yet. `skipInit` says that on A64 its path has
`libc++_shared.so` in it and `LUNARIA_SKIP_LIBCXX_INIT` is set. -/
def dlopen (skipInit : Bool) (onLoadVa vmSlot : Nat) (onLoad : Cpu → Code)
    (ctors : List (Nat × (Cpu → Code))) : Handler :=
  runLoaded onLoadVa vmSlot onLoad (if skipInit then [] else ctors)

/-- On A64 a library with any code to run, opened by the main thread, ends the process. -/
theorem run_dlopen_of_busy {L : Layout} {m : Machine} (harch : L.isArm64)
    (hbusy : m.running .main) {skipInit : Bool} {onLoadVa vmSlot : Nat} {onLoad : Cpu → Code}
    {ctors : List (Nat × (Cpu → Code))}
    (hcode : onLoadVa ≠ 0 ∨ skipInit = false ∧ ∃ ctor ∈ ctors, ctor.1 ≠ 0 ∧ ctor.1 ≠ 2 ^ 64 - 1) :
    (dlopen skipInit onLoadVa vmSlot onLoad ctors).run L m = none := by
  have hon : Route.dlopen.onMain L := by simp [Route.onMain, harch]
  have hcall (fn : Nat) (args : List Nat) (code : Cpu → Code) (next : Nat → Handler) :
      (Handler.call .dlopen fn args [] code next).run L m = none := by
    rw [Handler.run]
    simp [Route.skips, Route.target, hon, hbusy]
  have hrun : onLoadVa ≠ 0 ∨
      ∃ ctor ∈ if skipInit then [] else ctors, ctor.1 ≠ 0 ∧ ctor.1 ≠ 2 ^ 64 - 1 := by
    refine hcode.imp_right ?_
    rintro ⟨rfl, hctor⟩
    exact hctor
  rw [dlopen]
  generalize (if skipInit then [] else ctors) = ctors at hrun
  induction ctors with
  | nil =>
    have hne : onLoadVa ≠ 0 := by simpa using hrun
    rw [runLoaded, if_neg hne]
    exact hcall ..
  | cons ctor ctors ih =>
    rw [runLoaded]
    split
    · rename_i hskip
      apply ih
      rcases hrun with hne | ⟨c, hc, hne⟩
      · exact .inl hne
      · rcases List.mem_cons.mp hc with rfl | hc
        · exact absurd hskip (not_or.mpr hne)
        · exact .inr ⟨c, hc, hne⟩
    · exact hcall ..

/-! ## Callbacks in callbacks -/

/-- The answer to a handler's call, by `ret32`. -/
def answerWord (result : Nat) : Handler := .done ⟨.ret32 result, 0, false⟩

/-- A function whose call makes the handler call the next one, so many times. The innermost returns
seven. -/
def sevenAt : Nat → Cpu → Code
  | 0, cpu => .ret (cpu.put 0 7)
  | n + 1, cpu => .svc cpu (.call .callback 0x20000 [] [] (sevenAt n) answerWord) .ret

def callSeven (n : Nat) : Handler := .call .callback 0x20000 [] [] (sevenAt n) answerWord

/-- A comparator that allocates and returns zero, and a search that answers with a flag. -/
def searchAllocating : Handler :=
  .call .callback 0x20000 [] []
    (fun cpu => .svc cpu (.done ⟨.retptr 0x30000000, 0, false⟩) fun cpu => .ret (cpu.put 0 0))
    fun _ => answerWord 1

/-- The main thread in the middle of a run, with nothing nested. -/
def mainRunning : Machine :=
  { cpu := fun _ => ⟨fun _ => 0, 0, 0⟩, running := fun i => decide (i = .main), cbDepth := 0
    scheduling := false, flags := .clear }

theorem consistent_mainRunning : mainRunning.Consistent :=
  ⟨fun _ => by simp [mainRunning], by decide⟩

theorem run_dlopen_constructor :
    (dlopen false 0 0 .ret [(0x10000, .ret)]).run (defaultLayout true) mainRunning = none :=
  run_dlopen_of_busy rfl rfl (.inr ⟨rfl, _, List.mem_cons_self, by decide, by decide⟩)

end Nesting

end Lunaria
