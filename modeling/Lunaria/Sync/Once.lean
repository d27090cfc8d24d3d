/-
# One-time initialisation

`pthread_once` is guest code: it loads the control word, and if that is zero it stores one
and calls the routine. The store comes before the call and nothing marks the routine as
running, so the function is correct only while nobody else looks at the word in between: a
second thread that loads the word before the store calls the routine again, and one that
loads it after the store returns while the routine is still running.

The A32 and the A64 stub are run from their instruction words and can be interrupted after
every instruction; the routine itself can be interrupted anywhere. The stages below are
what the two pieces of code have in common.
-/

import Lunaria.Guest.Stubs
import Lunaria.Lib.Run

namespace Lunaria

open Lib List Function

/-! ## The machine -/

def onceProgram (isArm64 : Bool) : List (Option (StubCond × StubInsn)) :=
  if isArm64 then once64.map decodeA64 else onceStub.map decodeA32

/-- A thread inside `pthread_once`: in the stub, or in the routine, after which the stub goes
on with these registers. -/
structure OnceCall where
  cpu : StubCpu
  inRoutine : Bool

/-- The control word has been loaded. -/
def OnceCall.PastLoad (c : OnceCall) : Prop := c.inRoutine = true ∨ 2 ≤ c.cpu.pc

instance pastLoadDecidable (c : OnceCall) : Decidable c.PastLoad :=
  inferInstanceAs (Decidable (_ ∨ _))

/-- Guest memory, the running thread, the threads inside `pthread_once`, how often the routine was
started and returned, and how often it had returned at each return of `pthread_once`. -/
structure OnceRun where
  mem : Nat → Nat
  cur : Nat
  calls : List (Nat × OnceCall)
  started : Nat
  finished : Nat
  returns : List Nat

/-- The scheduler switches, or the running thread calls `pthread_once`, executes an instruction of
the stub, or returns from the routine. -/
inductive OnceOp where
  | switch (tid : Nat)
  | call (caller : StubCpu)
  | insn
  | routineReturns (result : StubCpu)

namespace OnceRun

def initial (mem : Nat → Nat) : OnceRun := ⟨mem, 0, [], 0, 0, []⟩

def others (s : OnceRun) : List (Nat × OnceCall) := s.calls.filter fun e => decide (e.1 ≠ s.cur)

/-- The next instruction of the running thread, which is in the stub. -/
def resume (isArm64 : Bool) (s : OnceRun) (cpu : StubCpu) : OnceRun :=
  match stubStep (onceProgram isArm64) cpu s.mem with
  | .next cpu' mem => { s with mem, calls := (s.cur, ⟨cpu', false⟩) :: s.others }
  | .call _ cpu' mem =>
    { s with mem, calls := (s.cur, ⟨cpu', true⟩) :: s.others, started := s.started + 1 }
  | .ret _ mem => { s with mem, calls := s.others, returns := s.finished :: s.returns }
  | .stuck => s

/-- One event. The routine does not call `pthread_once` for its own control word. -/
def step (isArm64 : Bool) (ctl : Nat) (s : OnceRun) : OnceOp → OnceRun
  | .switch tid => { s with cur := tid }
  | .call caller =>
    match s.calls.lookup s.cur with
    | some _ => s
    | none =>
      let cpu := { caller with regs := Function.update caller.regs 0 ctl, pc := 0 }
      { s with calls := (s.cur, ⟨cpu, false⟩) :: s.calls }
  | .insn =>
    match s.calls.lookup s.cur with
    | some ⟨cpu, false⟩ => s.resume isArm64 cpu
    | _ => s
  | .routineReturns result =>
    match s.calls.lookup s.cur with
    | some ⟨cpu, true⟩ =>
      let cpu' := { result with pc := cpu.pc, stack := cpu.stack }
      { s with calls := (s.cur, ⟨cpu', false⟩) :: s.others, finished := s.finished + 1 }
    | _ => s

/-- The routine is started at most once, and a call returns after it has been started once and has
returned. -/
structure Once (s : OnceRun) : Prop where
  started : s.started ≤ 1
  returns : ∀ n ∈ s.returns, 1 ≤ n ∧ s.started = 1

/-- The next instruction of the running thread loads the control word. -/
def aboutToLoad (s : OnceRun) : Bool :=
  (s.calls.lookup s.cur).any fun c => decide (c.cpu.pc = 1 ∧ c.inRoutine = false)

/-- Until the routine has returned, no thread loads the control word while another thread is
past its own load. -/
def Unobserved (s : OnceRun) : OnceOp → Prop
  | .insn => s.finished = 0 → s.aboutToLoad = true → ∀ e ∈ s.others, ¬ e.2.PastLoad
  | _ => True

instance unobservedDecidable (s : OnceRun) : ∀ op, Decidable (s.Unobserved op)
  | .insn => inferInstanceAs (Decidable (_ → _ → _))
  | .switch _ | .call _ | .routineReturns _ => isTrue trivial

end OnceRun

/-! ## The stages of the stub -/

/-- How far a thread in the stub has come: before the load, after a load of zero, after the
store, or on its way out. -/
inductive OnceStage where
  | before
  | zero
  | stored
  | leaving

/-- The registers of a thread at a stage. The stub keeps the loaded word in `r4` or `x2`. -/
def OnceStage.At (isArm64 : Bool) (ctl : Nat) (cpu : StubCpu) : OnceStage → Prop
  | .before => cpu.pc ≤ 1 ∧ cpu.regs 0 = ctl
  | .zero => cpu.regs 0 = ctl ∧
      if isArm64 then (cpu.pc = 2 ∧ cpu.regs 2 = 0) ∨ cpu.pc = 3 ∨ (cpu.pc = 4 ∧ cpu.regs 2 = 1)
      else (cpu.pc = 2 ∧ cpu.regs 4 = 0) ∨ (cpu.pc = 3 ∧ cpu.z = true) ∨ cpu.pc = 4 ∨
        (cpu.pc = 5 ∧ cpu.regs 4 = 1)
  | .stored => if isArm64 then cpu.pc = 5 else cpu.pc = 6
  | .leaving =>
    if isArm64 then (cpu.pc = 2 ∧ cpu.regs 2 = 1) ∨ cpu.pc = 6 ∨ cpu.pc = 7 ∨ cpu.pc = 8
    else (cpu.pc = 2 ∧ cpu.regs 4 = 1) ∨ (cpu.pc = 3 ∧ cpu.z = false) ∨ cpu.pc = 7 ∨ cpu.pc = 8

section Stages

variable {isArm64 : Bool} {ctl : Nat} {cpu : StubCpu} (mem : Nat → Nat)

/-- The step at an index that holds an instruction executed under every condition. -/
theorem onceStep {pc : Nat} (insn : StubInsn) (hpc : cpu.pc = pc)
    (h : (onceProgram isArm64)[pc]? = some (some (.al, insn))) :
    stubStep (onceProgram isArm64) cpu mem = cpu.exec mem insn := by
  simp [stubStep, hpc, h]

theorem once_before (h : OnceStage.before.At isArm64 ctl cpu) :
    ∃ cpu', stubStep (onceProgram isArm64) cpu mem = .next cpu' mem ∧
      (OnceStage.before.At isArm64 ctl cpu' ∨
        cpu.pc = 1 ∧ (mem ctl = 0 → OnceStage.zero.At isArm64 ctl cpu') ∧
          (mem ctl = 1 → OnceStage.leaving.At isArm64 ctl cpu')) := by
  obtain ⟨hpc, hr0⟩ := h
  rcases Nat.le_one_iff_eq_zero_or_eq_one.mp hpc with hpc | hpc
  · cases isArm64 with
    | false | true =>
      exact ⟨_, onceStep mem (.push _) hpc rfl, .inl (by simp [OnceStage.At, hpc, hr0])⟩
  cases isArm64 with
  | false | true =>
    refine ⟨_, onceStep mem (.ldr _ 0) hpc rfl, .inr ⟨hpc, fun hzero => ?_, fun hone => ?_⟩⟩
    · simp [OnceStage.At, hpc, hr0, hzero, bitField]
    · simp [OnceStage.At, hpc, hr0, hone, bitField]

/-- After a load of zero the thread comes to the store. -/
theorem once_zero (h : OnceStage.zero.At isArm64 ctl cpu) :
    ∃ cpu', (stubStep (onceProgram isArm64) cpu mem = .next cpu' mem ∧
        OnceStage.zero.At isArm64 ctl cpu') ∨
      (stubStep (onceProgram isArm64) cpu mem = .next cpu' (update mem ctl 1) ∧
        OnceStage.stored.At isArm64 ctl cpu') := by
  obtain ⟨hr0, hat⟩ := h
  cases isArm64 with
  | false =>
    rcases hat with ⟨hpc, hr4⟩ | ⟨hpc, hz⟩ | hpc | ⟨hpc, hr4⟩
    · exact ⟨_, .inl ⟨onceStep mem (.alu .cmp true 0 4 (.imm 0)) hpc rfl,
        by simp [OnceStage.At, hpc, hr0, hr4, sub32, u32]⟩⟩
    · have hstep : stubStep (onceProgram false) cpu mem = .next (cpu.advance 1) mem := by
        simp [stubStep, onceProgram, decode_onceStub, hpc, hz]
      exact ⟨_, .inl ⟨hstep, by simp [OnceStage.At, hpc, hr0]⟩⟩
    · exact ⟨_, .inl ⟨onceStep mem (.alu .mov false 4 0 (.imm 1)) hpc rfl,
        by simp [OnceStage.At, hpc, hr0]⟩⟩
    · have hstep : stubStep (onceProgram false) cpu mem = _ := onceStep mem (.str 4 0) hpc rfl
      rw [StubCpu.exec, hr0, hr4] at hstep
      exact ⟨_, .inr ⟨hstep, by simp [OnceStage.At, hpc]⟩⟩
  | true =>
    rcases hat with ⟨hpc, hx2⟩ | hpc | ⟨hpc, hx2⟩
    · exact ⟨_, .inl ⟨onceStep mem (.cbnz 2 4) hpc rfl, by simp [OnceStage.At, hpc, hr0, hx2]⟩⟩
    · exact ⟨_, .inl ⟨onceStep mem (.movImm 2 1) hpc rfl, by simp [OnceStage.At, hpc, hr0]⟩⟩
    · have hstep : stubStep (onceProgram true) cpu mem = _ := onceStep mem (.str 2 0) hpc rfl
      rw [StubCpu.exec, hr0, hx2] at hstep
      exact ⟨_, .inr ⟨hstep, by simp [OnceStage.At, hpc]⟩⟩

theorem once_stored (h : OnceStage.stored.At isArm64 ctl cpu) :
    ∃ target cpu', stubStep (onceProgram isArm64) cpu mem = .call target cpu' mem ∧
      ∀ result : StubCpu,
        OnceStage.leaving.At isArm64 ctl { result with pc := cpu'.pc, stack := cpu'.stack } := by
  cases isArm64 with
  | false | true =>
    have hpc : cpu.pc = _ := h
    exact ⟨_, _, onceStep mem (.call 1) hpc rfl, fun result => by simp [OnceStage.At, hpc]⟩

/-- On its way out the stub does nothing but return. -/
theorem once_leaving (h : OnceStage.leaving.At isArm64 ctl cpu) :
    ∃ cpu', (stubStep (onceProgram isArm64) cpu mem = .next cpu' mem ∧
        OnceStage.leaving.At isArm64 ctl cpu') ∨
      stubStep (onceProgram isArm64) cpu mem = .ret cpu' mem := by
  cases isArm64 with
  | false =>
    rcases h with ⟨hpc, hr4⟩ | ⟨hpc, hz⟩ | hpc | hpc
    · exact ⟨_, .inl ⟨onceStep mem (.alu .cmp true 0 4 (.imm 0)) hpc rfl,
        by simp [OnceStage.At, hpc, hr4, sub32, u32]⟩⟩
    · have hstep : stubStep (onceProgram false) cpu mem = .next (cpu.advance 4) mem := by
        simp [stubStep, onceProgram, decode_onceStub, hpc, hz]
      exact ⟨_, .inl ⟨hstep, by simp [OnceStage.At, hpc]⟩⟩
    · exact ⟨_, .inl ⟨onceStep mem (.alu .mov false 0 0 _) hpc rfl, by simp [OnceStage.At, hpc]⟩⟩
    · exact ⟨_, .inr (onceStep mem (.pop [4, 15]) hpc rfl)⟩
  | true =>
    rcases h with ⟨hpc, hx2⟩ | hpc | hpc | hpc
    · exact ⟨_, .inl ⟨onceStep mem (.cbnz 2 4) hpc rfl, by simp [OnceStage.At, hpc, hx2]⟩⟩
    · exact ⟨_, .inl ⟨onceStep mem (.movImm 0 0) hpc rfl, by simp [OnceStage.At, hpc]⟩⟩
    · exact ⟨_, .inl ⟨onceStep mem (.pop [29, 30]) hpc rfl,
        by simp [OnceStage.At, hpc, StubCpu.popRegs]⟩⟩
    · exact ⟨_, .inr (onceStep mem .ret hpc rfl)⟩

end Stages

/-! ## Every event keeps the routine unobserved -/

namespace OnceRun

variable (isArm64 : Bool) (ctl : Nat)

/-- A thread that has not loaded the control word. -/
def Waiting (c : OnceCall) : Prop := c.inRoutine = false ∧ OnceStage.before.At isArm64 ctl c.cpu

/-- A thread on its way out of the stub. -/
def Leaving (c : OnceCall) : Prop := c.inRoutine = false ∧ OnceStage.leaving.At isArm64 ctl c.cpu

/-- A thread that can be in the stub when the routine has returned. -/
def Settled (c : OnceCall) : Prop := Waiting isArm64 ctl c ∨ Leaving isArm64 ctl c

/-- The thread that has loaded zero, with the control word and the number of starts that go
with how far it has come. -/
inductive Initialising (c : OnceCall) : Nat → Nat → Prop
  | zero (inStub : c.inRoutine = false) (stage : OnceStage.zero.At isArm64 ctl c.cpu) :
      Initialising c 0 0
  | stored (inStub : c.inRoutine = false) (stage : OnceStage.stored.At isArm64 ctl c.cpu) :
      Initialising c 1 0
  | routine (inRoutine : c.inRoutine = true)
      (back : ∀ result : StubCpu,
        OnceStage.leaving.At isArm64 ctl { result with pc := c.cpu.pc, stack := c.cpu.stack }) :
      Initialising c 1 1

/-- Nobody has loaded the word, one thread has loaded zero and the others have not, or the routine
has returned. -/
inductive Sound (s : OnceRun) : Prop
  | fresh (word : s.mem ctl = 0) (started : s.started = 0) (finished : s.finished = 0)
      (returns : s.returns = []) (waiting : ∀ e ∈ s.calls, Waiting isArm64 ctl e.2)
  | busy (tid : Nat) (c : OnceCall) (inside : (tid, c) ∈ s.calls)
      (only : ∀ e ∈ s.calls, e.1 = tid → e.2 = c)
      (waiting : ∀ e ∈ s.calls, e.1 ≠ tid → Waiting isArm64 ctl e.2)
      (progress : Initialising isArm64 ctl c (s.mem ctl) s.started) (finished : s.finished = 0)
      (returns : s.returns = [])
  | done (word : s.mem ctl = 1) (started : s.started = 1) (finished : s.finished = 1)
      (returns : ∀ n ∈ s.returns, 1 ≤ n)
      (calls : ∀ e ∈ s.calls, Settled isArm64 ctl e.2)

variable {isArm64 ctl} {s : OnceRun} {c : OnceCall} {word starts : Nat}

theorem Sound.once (h : s.Sound isArm64 ctl) : s.Once := by
  cases h with
  | fresh _ hstarted _ hreturns =>
    exact ⟨hstarted ▸ Nat.zero_le 1, fun n hn => absurd hn (hreturns ▸ not_mem_nil)⟩
  | busy tid c _ _ _ hprogress _ hreturns =>
    refine ⟨?_, fun n hn => absurd hn (hreturns ▸ not_mem_nil)⟩
    generalize s.mem ctl = word at hprogress
    generalize s.started = starts at hprogress
    cases hprogress <;> decide
  | done _ hstarted _ hreturns => exact ⟨hstarted.le, fun n hn => ⟨hreturns n hn, hstarted⟩⟩

theorem Initialising.pastLoad (h : Initialising isArm64 ctl c word starts) : c.PastLoad := by
  cases h with
  | zero _ hat =>
    refine .inr ?_
    have hpc := hat.2
    cases isArm64 with
    | false => rcases hpc with h | h | h | h <;> omega
    | true => rcases hpc with h | h | h <;> omega
  | stored _ hat =>
    refine .inr ?_
    cases isArm64 with
    | false | true =>
      have hpc : c.cpu.pc = _ := hat
      omega
  | routine hin => exact .inl hin

theorem mem_of_lookup {calls : List (Nat × OnceCall)} {tid : Nat}
    (h : calls.lookup tid = some c) : (tid, c) ∈ calls := by
  obtain ⟨l, r, rfl, -⟩ := lookup_eq_some_iff.mp h
  exact mem_append_right l mem_cons_self

theorem mem_others {e : Nat × OnceCall} : e ∈ s.others ↔ e ∈ s.calls ∧ e.1 ≠ s.cur := by
  simp [others]

def replaced (s : OnceRun) (c : OnceCall) : List (Nat × OnceCall) := (s.cur, c) :: s.others

theorem forall_replaced {p : OnceCall → Prop} (hc : p c)
    (hothers : ∀ e ∈ s.calls, e.1 ≠ s.cur → p e.2) : ∀ e ∈ s.replaced c, p e.2 := by
  refine forall_mem_cons.mpr ⟨hc, fun e he => ?_⟩
  exact hothers e (mem_others.mp he).1 (mem_others.mp he).2

theorem only_replaced : ∀ e ∈ s.replaced c, e.1 = s.cur → e.2 = c := by
  exact forall_mem_cons.mpr ⟨fun _ => rfl, fun e he htid => absurd htid (mem_others.mp he).2⟩

theorem waiting_replaced (hothers : ∀ e ∈ s.calls, e.1 ≠ s.cur → Waiting isArm64 ctl e.2) :
    ∀ e ∈ s.replaced c, e.1 ≠ s.cur → Waiting isArm64 ctl e.2 := by
  exact forall_mem_cons.mpr ⟨absurd rfl, fun e he => hothers e (mem_others.mp he).1⟩

variable {cpu : StubCpu}

/-- The running thread has not loaded the word and executes its next instruction. -/
theorem Sound.resume_waiting (h : s.Sound isArm64 ctl)
    (hmem : (s.cur, ⟨cpu, false⟩) ∈ s.calls) (hat : OnceStage.before.At isArm64 ctl cpu)
    (hop : s.finished = 0 → cpu.pc = 1 → ∀ e ∈ s.others, ¬ e.2.PastLoad) :
    (s.resume isArm64 cpu).Sound isArm64 ctl := by
  obtain ⟨cpu', hstep, hnext⟩ := once_before s.mem hat
  have hresume : s.resume isArm64 cpu = { s with calls := s.replaced ⟨cpu', false⟩ } := by
    simp [resume, hstep, replaced]
  rw [hresume]
  cases h with
  | fresh hword hstarted hfinished hreturns hwaiting =>
    rcases hnext with hbefore | ⟨-, hzero, -⟩
    · exact .fresh hword hstarted hfinished hreturns
        (forall_replaced ⟨rfl, hbefore⟩ fun e he _ => hwaiting e he)
    · refine .busy s.cur ⟨cpu', false⟩ mem_cons_self only_replaced
        (waiting_replaced fun e he _ => hwaiting e he) ?_ hfinished hreturns
      rw [hword, hstarted]
      exact .zero rfl (hzero hword)
  | busy tid c hinside honly hwaiting hprogress hfinished hreturns =>
    have hne : tid ≠ s.cur := by
      rintro rfl
      obtain rfl := honly _ hmem rfl
      -- the initialising thread is past its load
      rcases hprogress.pastLoad with hin | hpc
      · exact absurd hin (by simp)
      · exact absurd (le_trans hpc hat.1) (by decide)
    have hother : (tid, c) ∈ s.others := mem_others.mpr ⟨hinside, hne⟩
    rcases hnext with hbefore | ⟨hpc, -⟩
    · refine .busy tid c (mem_cons_of_mem _ hother) ?_ ?_ hprogress hfinished hreturns
      · exact forall_mem_cons.mpr ⟨fun htid => absurd htid.symm hne,
          fun e he => honly e (mem_others.mp he).1⟩
      · exact forall_mem_cons.mpr ⟨fun _ => ⟨rfl, hbefore⟩,
          fun e he => hwaiting e (mem_others.mp he).1⟩
    · exact absurd hprogress.pastLoad (hop hfinished hpc _ hother)
  | done hword hstarted hfinished hreturns hcalls =>
    have hsettled : Settled isArm64 ctl ⟨cpu', false⟩ := by
      rcases hnext with hbefore | ⟨-, -, hone⟩
      · exact .inl ⟨rfl, hbefore⟩
      · exact .inr ⟨rfl, hone hword⟩
    exact .done hword hstarted hfinished hreturns
      (forall_replaced hsettled fun e he _ => hcalls e he)

/-- The running thread has loaded zero and executes its next instruction. -/
theorem Sound.resume_initialising (hothers : ∀ e ∈ s.calls, e.1 ≠ s.cur → Waiting isArm64 ctl e.2)
    (hprogress : Initialising isArm64 ctl ⟨cpu, false⟩ word starts) (hword : s.mem ctl = word)
    (hstarts : s.started = starts) (hfinished : s.finished = 0) (hreturns : s.returns = []) :
    (s.resume isArm64 cpu).Sound isArm64 ctl := by
  have hbusy : ∀ (mem : Nat → Nat) (n : Nat) (c' : OnceCall),
      Initialising isArm64 ctl c' (mem ctl) n →
        Sound isArm64 ctl { s with mem, calls := s.replaced c', started := n } :=
    fun mem n c' hc' =>
      .busy s.cur c' mem_cons_self only_replaced (waiting_replaced hothers) hc' hfinished hreturns
  cases hprogress with
  | zero _ hat =>
    obtain ⟨cpu', ⟨hstep, hzero⟩ | ⟨hstep, hstored⟩⟩ := once_zero s.mem hat
    · have hgoal := hbusy s.mem 0 ⟨cpu', false⟩ (by rw [hword]; exact .zero rfl hzero)
      simpa [resume, hstep, replaced, hstarts] using hgoal
    · have hgoal := hbusy (update s.mem ctl 1) 0 ⟨cpu', false⟩
        (by rw [update_self]; exact .stored rfl hstored)
      simpa [resume, hstep, replaced, hstarts] using hgoal
  | stored _ hat =>
    obtain ⟨target, cpu', hstep, hback⟩ := once_stored s.mem hat
    have hgoal := hbusy s.mem 1 ⟨cpu', true⟩ (by rw [hword]; exact .routine rfl hback)
    simpa [resume, hstep, replaced, hstarts] using hgoal
  | routine hin => exact absurd hin (by simp)

theorem Sound.resume_leaving (hat : OnceStage.leaving.At isArm64 ctl cpu)
    (hword : s.mem ctl = 1) (hstarted : s.started = 1) (hfinished : s.finished = 1)
    (hreturns : ∀ n ∈ s.returns, 1 ≤ n) (hcalls : ∀ e ∈ s.calls, Settled isArm64 ctl e.2) :
    (s.resume isArm64 cpu).Sound isArm64 ctl := by
  obtain ⟨cpu', ⟨hstep, hleaving⟩ | hstep⟩ := once_leaving s.mem hat
  · have hresume : s.resume isArm64 cpu = { s with calls := s.replaced ⟨cpu', false⟩ } := by
      simp [resume, hstep, replaced]
    have hsettled : Settled isArm64 ctl ⟨cpu', false⟩ := .inr ⟨rfl, hleaving⟩
    rw [hresume]
    exact .done hword hstarted hfinished hreturns
      (forall_replaced hsettled fun e he _ => hcalls e he)
  · simp only [resume, hstep]
    exact .done hword hstarted hfinished (forall_mem_cons.mpr ⟨hfinished.ge, hreturns⟩)
      fun e he => hcalls e (mem_others.mp he).1

section

variable (h : s.Sound isArm64 ctl)
include h

theorem Sound.resume (hmem : (s.cur, ⟨cpu, false⟩) ∈ s.calls)
    (hop : s.finished = 0 → cpu.pc = 1 → ∀ e ∈ s.others, ¬ e.2.PastLoad) :
    (s.resume isArm64 cpu).Sound isArm64 ctl := by
  have hwaits := fun hat => h.resume_waiting hmem hat hop
  cases h with
  | fresh _ _ _ _ hwaiting => exact hwaits (hwaiting _ hmem).2
  | busy tid c hinside honly hwaiting hprogress hfinished hreturns =>
    by_cases htid : s.cur = tid
    · subst htid
      obtain rfl := honly _ hmem rfl
      exact Sound.resume_initialising hwaiting hprogress rfl rfl hfinished hreturns
    · exact hwaits (hwaiting _ hmem htid).2
  | done hword hstarted hfinished hreturns hcalls =>
    rcases hcalls _ hmem with hw | hl
    · exact hwaits hw.2
    · exact Sound.resume_leaving hl.2 hword hstarted hfinished hreturns hcalls

theorem Sound.call (hfree : s.calls.lookup s.cur = none) (hw : Waiting isArm64 ctl c) :
    Sound isArm64 ctl { s with calls := (s.cur, c) :: s.calls } := by
  have hcur : ∀ e ∈ s.calls, e.1 ≠ s.cur := by
    intro e he heq
    have hne := lookup_eq_none_iff.mp hfree e he
    simp [heq] at hne
  cases h with
  | fresh hword hstarted hfinished hreturns hwaiting =>
    exact .fresh hword hstarted hfinished hreturns (forall_mem_cons.mpr ⟨hw, hwaiting⟩)
  | busy tid c' hinside honly hwaiting hprogress hfinished hreturns =>
    refine .busy tid c' (mem_cons_of_mem _ hinside) ?_ ?_ hprogress hfinished hreturns
    · exact forall_mem_cons.mpr ⟨fun htid => absurd htid.symm (hcur _ hinside), honly⟩
    · exact forall_mem_cons.mpr ⟨fun _ => hw, hwaiting⟩
  | done hword hstarted hfinished hreturns hcalls =>
    exact .done hword hstarted hfinished hreturns (forall_mem_cons.mpr ⟨.inl hw, hcalls⟩)

theorem Sound.routineReturns (hmem : (s.cur, ⟨cpu, true⟩) ∈ s.calls) (result : StubCpu) :
    Sound isArm64 ctl { s with
          calls := s.replaced ⟨{ result with pc := cpu.pc, stack := cpu.stack }, false⟩
          finished := s.finished + 1 } := by
  cases h with
  | fresh _ _ _ _ hwaiting => exact absurd (hwaiting _ hmem).1 (by simp)
  | busy tid c hinside honly hwaiting hprogress hfinished hreturns =>
    have htid : s.cur = tid := by
      by_contra hne
      exact absurd (hwaiting _ hmem hne).1 (by simp)
    subst htid
    obtain rfl := honly _ hmem rfl
    generalize hword : s.mem ctl = word at hprogress
    generalize hstarts : s.started = starts at hprogress
    cases hprogress with
    | zero hin | stored hin => exact absurd hin (by simp)
    | routine _ hback =>
      have hsettled : Settled isArm64 ctl
          ⟨{ result with pc := cpu.pc, stack := cpu.stack }, false⟩ := .inr ⟨rfl, hback result⟩
      refine .done hword rfl (congrArg _ hfinished) ?_
        (forall_replaced hsettled fun e he hne => .inl (hwaiting e he hne))
      exact fun n hn => absurd hn (hreturns ▸ not_mem_nil)
  | done _ _ _ _ hcalls =>
    rcases hcalls _ hmem with hw | hl
    · exact absurd hw.1 (by simp)
    · exact absurd hl.1 (by simp)

theorem Sound.step {op : OnceOp} (hop : s.Unobserved op) :
    (s.step isArm64 ctl op).Sound isArm64 ctl := by
  cases op with
  | switch tid =>
    cases h with
    | fresh hword hstarted hfinished hreturns hwaiting =>
      exact .fresh hword hstarted hfinished hreturns hwaiting
    | busy t c hinside honly hwaiting hprogress hfinished hreturns =>
      exact .busy t c hinside honly hwaiting hprogress hfinished hreturns
    | done hword hstarted hfinished hreturns hcalls =>
      exact .done hword hstarted hfinished hreturns hcalls
  | call caller =>
    simp only [OnceRun.step]
    split
    · exact h
    · rename_i hfree
      exact h.call hfree ⟨rfl, Nat.zero_le 1, by simp⟩
  | insn =>
    simp only [OnceRun.step]
    split
    · rename_i cpu hlookup
      refine h.resume (mem_of_lookup hlookup) fun hfinished hpc => ?_
      exact hop hfinished (by simp [aboutToLoad, hlookup, hpc])
    · exact h
  | routineReturns result =>
    simp only [OnceRun.step]
    split
    · rename_i cpu hlookup
      exact h.routineReturns (mem_of_lookup hlookup) result
    · exact h

end

/-- **In every run in which nobody looks at the control word while the routine is pending,
the routine is started once and every call returns after it.** -/
theorem once_of_run (isArm64 : Bool) (ctl : Nat) (mem : Nat → Nat) (hzero : mem ctl = 0)
    (ops : List OnceOp) (hops : StepsMeet Unobserved (step isArm64 ctl) (initial mem) ops) :
    (run (step isArm64 ctl) (initial mem) ops).Once := by
  have hstart : (initial mem).Sound isArm64 ctl :=
    .fresh hzero rfl rfl rfl fun e he => absurd he not_mem_nil
  exact (run_invariant (fun _ _ h hop => h.step hop) hstart hops).once

/-! ## Runs of both stubs -/

def blank : StubCpu := ⟨fun _ => 0, false, false, false, 0, []⟩

/-- The running thread calls `pthread_once` and executes the first `n` instructions. -/
def enters (n : Nat) : List OnceOp := .call blank :: List.replicate n .insn

/-- The main thread is switched out inside the routine while thread 2 enters the stub; both return.
-/
def inTurn : List OnceOp :=
  enters 7 ++ [.switch 2, .call blank, .insn, .switch 0, .routineReturns blank] ++
    List.replicate 3 .insn ++ [.switch 2] ++ List.replicate 6 .insn

theorem once_inTurn : (run (step false 0x20000) (initial fun _ => 0) inTurn).returns = [1, 1] ∧
      (run (step false 0x20000) (initial fun _ => 0) inTurn).Once :=
  ⟨by decide +kernel, once_of_run false 0x20000 _ rfl inTurn (by decide +kernel)⟩

/-- The main thread is switched out after `n` instructions; thread 2 runs the routine, and the main
thread goes on. -/
def startedTwice (n : Nat) : List OnceOp :=
  enters n ++ [.switch 2] ++ enters 7 ++ [.routineReturns blank] ++ List.replicate 3 .insn ++
    [.switch 0] ++ List.replicate 5 .insn

/-- The main thread is switched out inside the routine; thread 2 returns at once. -/
def returnsEarly : List OnceOp := enters 7 ++ [.switch 2] ++ enters 6

/-- Being switched out after the branch that follows the load, or inside the routine. -/
theorem not_once_interrupted :
    ¬ (run (step false 0x20000) (initial fun _ => 0) (startedTwice 4)).Once ∧
      ¬ (run (step true 0x20000) (initial fun _ => 0) (startedTwice 3)).Once ∧
      ¬ (run (step false 0x20000) (initial fun _ => 0) returnsEarly).Once ∧
      ¬ (run (step true 0x20000) (initial fun _ => 0) returnsEarly).Once := by
  refine ⟨fun h => ?_, fun h => ?_, fun h => ?_, fun h => ?_⟩
  · exact absurd h.started (by decide +kernel)
  · exact absurd h.started (by decide +kernel)
  · exact absurd (h.returns 0 (by decide +kernel)).1 (by decide)
  · exact absurd (h.returns 0 (by decide +kernel)).1 (by decide)

end OnceRun

end Lunaria
