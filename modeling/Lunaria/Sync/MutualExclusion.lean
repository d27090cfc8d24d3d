/-
# Mutual exclusion

Threads call the functions of one mutex, by guest stub or by supervisor call, and the
scheduler may switch threads after any instruction. Calls on other mutexes change other
words and are left out. A thread holds the mutex from the return of a successful lock
until it has called unlock as often.

Exclusion does not follow from the code alone: `lock` takes a mutex away from its owner,
and a stub that is interrupted between its load and its store overwrites what others did
meanwhile. It follows for runs in which nobody locks a mutex that someone else has and
nobody calls a function while another thread is inside a stub.
-/

import Lunaria.Sync.Mutex

namespace Lunaria

open Lib Function

/-! ## The machine -/

structure StubCall where
  fn : MutexFn
  cpu : StubCpu

/-- Guest memory, the running thread, the threads inside a stub, and how often each has locked more
than unlocked. -/
structure MutexRun where
  mem : Nat → Nat
  cur : Nat
  calls : List (Nat × StubCall)
  held : Nat → Nat

/-- The scheduler switches, or the running thread calls a stub, executes an instruction of it, makes
a supervisor call, or initialises or destroys the mutex. -/
inductive MutexOp where
  | switch (tid : Nat)
  | call (fn : MutexFn) (caller : StubCpu)
  | insn
  | svc (fn : MutexFn)
  | init

namespace MutexRun

/-- The main thread is running and nobody is in a stub. -/
def initial (mem : Nat → Nat) : MutexRun where
  mem := Function.update mem curTidVa 1
  cur := 0
  calls := []
  held := fun _ => 0

/-- What a call of unlock gives up. -/
def debit (fn : MutexFn) (tid : Nat) (held : Nat → Nat) : Nat → Nat :=
  if fn = .unlock then Function.update held tid (held tid - 1) else held

/-- What the return of a lock gains. -/
def credit (fn : MutexFn) (tid result : Nat) (held : Nat → Nat) : Nat → Nat :=
  if fn ≠ .unlock ∧ result = 0 then Function.update held tid (held tid + 1) else held

/-- The next instruction of the running thread, which is inside a stub. -/
def resume (s : MutexRun) (c : StubCall) : MutexRun :=
  let others := s.calls.filter fun e => e.1 ≠ s.cur
  match stubStep c.fn.program c.cpu s.mem with
  | .next cpu mem => { s with mem := mem, calls := (s.cur, { c with cpu := cpu }) :: others }
  | .ret cpu mem =>
    { s with mem := mem, calls := others, held := credit c.fn s.cur (cpu.regs 0) s.held }
  | .call _ _ _ | .stuck => s

/-- One event. A thread inside a stub does nothing but go on with it. -/
def step (m : Nat) (s : MutexRun) : MutexOp → MutexRun
  | .switch tid => { s with cur := tid, mem := Function.update s.mem curTidVa (u32 (tid + 1)) }
  | .insn =>
    match s.calls.lookup s.cur with
    | some c => s.resume c
    | none => s
  | .call fn caller =>
    match s.calls.lookup s.cur with
    | some _ => s
    | none =>
      let cpu := { caller with regs := Function.update caller.regs 0 m, pc := 0 }
      { s with calls := (s.cur, ⟨fn, cpu⟩) :: s.calls, held := debit fn s.cur s.held }
  | .svc fn =>
    match s.calls.lookup s.cur with
    | some _ => s
    | none =>
      let r := svcMutex (s.mem m) s.cur fn
      { s with
        mem := Function.update s.mem m r.1
        held := credit fn s.cur r.2 (debit fn s.cur s.held) }
  | .init =>
    match s.calls.lookup s.cur with
    | some _ => s
    | none => { s with mem := Function.update s.mem m 0 }

def Exclusive (held : Nat → Nat) : Prop := ∀ t u, 0 < held t → 0 < held u → t = u

/-- The word permits the call: locking a free or own mutex, not too often, and unlocking only the
own. -/
def Permits (w tid : Nat) : MutexFn → Prop
  | .lock => (w < 0x100 ∨ w % 0x100 = tid + 1) ∧ w < 2 ^ 31
  | .trylock => w < 2 ^ 31
  | .unlock => 0x100 ≤ w ∧ w % 0x100 = tid + 1

/-- The condition on the run. Ids fit into the owner byte; calls are made only while nobody is
inside a stub and the word permits; only a free mutex is initialised. -/
def Disciplined (m : Nat) (s : MutexRun) : MutexOp → Prop
  | .switch tid => tid + 1 < 0x100
  | .insn => True
  | .call fn _ | .svc fn => s.calls = [] ∧ Permits (s.mem m) s.cur fn
  | .init => s.calls = [] ∧ s.mem m < 0x100

instance permitsDecidable (w tid : Nat) : ∀ fn, Decidable (Permits w tid fn)
  | .lock => inferInstanceAs (Decidable (_ ∧ _))
  | .trylock => inferInstanceAs (Decidable (_ < _))
  | .unlock => inferInstanceAs (Decidable (_ ∧ _))

instance disciplinedDecidable (m : Nat) (s : MutexRun) : ∀ op, Decidable (s.Disciplined m op)
  | .switch _ => inferInstanceAs (Decidable (_ < _))
  | .insn => isTrue trivial
  | .call fn _ | .svc fn =>
    decidable_of_iff (s.calls.isEmpty = true ∧ Permits (s.mem m) s.cur fn)
      (and_congr_left' List.isEmpty_iff)
  | .init =>
    decidable_of_iff (s.calls.isEmpty = true ∧ s.mem m < 0x100)
      (and_congr_left' List.isEmpty_iff)

/-! ## The word and the holders -/

/-- The word says how often its owner holds the mutex, and nobody else holds it. -/
def Encodes (w : Nat) (held : Nat → Nat) : Prop :=
  (w = 0 ∧ ∀ t, held t = 0) ∨
    ∃ t, t + 1 < 0x100 ∧ 0 < held t ∧ w = 0x100 * held t + (t + 1) ∧ ∀ u, u ≠ t → held u = 0

variable {held : Nat → Nat}

theorem Encodes.exclusive {w : Nat} (h : Encodes w held) : Exclusive held := by
  intro t u ht hu
  rcases h with ⟨-, hzero⟩ | ⟨owner, -, -, -, hothers⟩
  · exact absurd ht (by simp [hzero t])
  have hto : t = owner := by
    by_contra hne
    exact absurd ht (by simp [hothers t hne])
  have huo : u = owner := by
    by_contra hne
    exact absurd hu (by simp [hothers u hne])
  exact hto.trans huo.symm

theorem Exclusive.debit (h : Exclusive held) (fn : MutexFn) (tid : Nat) :
    Exclusive (MutexRun.debit fn tid held) := by
  have hle : ∀ t, MutexRun.debit fn tid held t ≤ held t := by
    intro t
    simp only [MutexRun.debit]
    split
    · by_cases ht : t = tid
      · rw [ht, update_self]
        exact Nat.sub_le ..
      · rw [update_of_ne ht]
    · exact le_rfl
  exact fun t u ht hu => h t u (ht.trans_le (hle t)) (hu.trans_le (hle u))

/-- The word encodes the holders, and the count is one the unlock stub can handle. -/
def Settled (w : Nat) (held : Nat → Nat) : Prop := Encodes w held ∧ w < 2 ^ 31 + 0x100

theorem or_owner (count : Nat) {tid : Nat} (htid : tid + 1 < 0x100) :
    0x100 * count ||| (tid + 1) = 0x100 * count + (tid + 1) :=
  (Nat.two_pow_add_eq_or_of_lt (i := 8) htid count).symm

variable {w tid : Nat}

theorem lockedWord_of_permits (htid : tid + 1 < 0x100) (hw : w < 2 ^ 31) :
    lockedWord w tid = 0x100 * (w / 0x100 + 1) + (tid + 1) := by
  have hcount : u32 (roundDown w 0x100 + 0x100) = 0x100 * (w / 0x100 + 1) := by
    simp only [u32, roundDown]
    omega
  rw [lockedWord, hcount, u32_of_lt (by omega), or_owner _ htid]

theorem Settled.lock (h : Settled w held)
    (htid : tid + 1 < 0x100) (hmine : w < 0x100 ∨ w % 0x100 = tid + 1) (hw : w < 2 ^ 31) :
    Settled (lockedWord w tid) (update held tid (held tid + 1)) := by
  have hword := lockedWord_of_permits htid hw
  have hothers : (∀ u, u ≠ tid → held u = 0) ∧ held tid = w / 0x100 := by
    rcases h.1 with ⟨rfl, hzero⟩ | ⟨owner, howner, hpos, rfl, hrest⟩
    · exact ⟨fun u _ => hzero u, hzero tid⟩
    · have heq : owner = tid := by omega
      subst heq
      exact ⟨hrest, by omega⟩
  refine ⟨.inr ⟨tid, htid, ?_, ?_, ?_⟩, by omega⟩
  · rw [update_self]
    exact Nat.succ_pos _
  · rw [update_self, hword, hothers.2]
  · intro u hu
    rw [update_of_ne hu]
    exact hothers.1 u hu

theorem Settled.unlock (h : Settled w held) (hheld : 0x100 ≤ w) (hmine : w % 0x100 = tid + 1) :
    Settled (unlockedWord w) (update held tid (held tid - 1)) := by
  rcases h.1 with ⟨rfl, -⟩ | ⟨owner, howner, hpos, hword, hrest⟩
  · exact absurd hheld (by norm_num)
  have heq : owner = tid := by omega
  subst heq
  have hothers : ∀ u, u ≠ owner → update held owner (held owner - 1) u = 0 := by
    intro u hu
    rw [update_of_ne hu]
    exact hrest u hu
  have hunlocked : unlockedWord w = if held owner = 1 then 0 else w - 0x100 := by
    simp only [unlockedWord, if_pos hheld]
    by_cases hone : held owner = 1
    · rw [if_pos hone, if_pos (by omega)]
    · rw [if_neg hone, if_neg (by omega)]
  have hbound := h.2
  by_cases hone : held owner = 1
  · rw [hunlocked, if_pos hone]
    refine ⟨.inl ⟨rfl, fun t => ?_⟩, by norm_num⟩
    by_cases ht : t = owner
    · rw [ht, update_self, hone]
    · exact hothers t ht
  · rw [hunlocked, if_neg hone]
    refine ⟨.inr ⟨owner, howner, ?_, ?_, hothers⟩, by omega⟩
    · rw [update_self]
      omega
    · rw [update_self]
      omega

variable {fn : MutexFn}

theorem Settled.svcMutex (h : Settled w held) (htid : tid + 1 < 0x100) (hfn : Permits w tid fn) :
    Settled (svcMutex w tid fn).1
      (credit fn tid (Lunaria.svcMutex w tid fn).2 (debit fn tid held)) := by
  have hu32 : u32 (tid + 1) = tid + 1 := u32_of_lt (by omega)
  cases fn with
  | lock => exact h.lock htid hfn.1 hfn.2
  | trylock =>
    by_cases hbusy : 0x100 ≤ w ∧ w % 0x100 ≠ u32 (tid + 1)
    · have hres : svcMutex w tid .trylock = (w, eBusy) := if_pos hbusy
      rw [hres]
      exact h
    · have hres : svcMutex w tid .trylock = (lockedWord w tid, 0) := if_neg hbusy
      rw [hres]
      exact h.lock htid (by omega) hfn
  | unlock => exact h.unlock hfn.1 hfn.2

/-- The fast functions compute what the supervisor calls compute, in finitely many
instructions. -/
theorem stubFinish_call {m : Nat} {mem : Nat → Nat} (cpu : StubCpu) (hpc : cpu.pc = 0)
    (hr0 : cpu.regs 0 = m) (htid : mem curTidVa = u32 (tid + 1)) (hw : mem m < 2 ^ 31 + 0x100)
    (fn : MutexFn) : ∃ fuel final, stubFinish fn.program m fuel cpu mem =
      some (final, update mem m (svcMutex (mem m) tid fn).1) ∧
        final.regs 0 = (svcMutex (mem m) tid fn).2 := by
  cases fn with
  | lock => exact ⟨10, lock_finish hpc hr0 htid⟩
  | trylock => exact ⟨15, trylock_finish hpc hr0 htid⟩
  | unlock => exact ⟨8, unlock_finish hpc hr0 hw⟩

/-! ## The invariant -/

/-- The thread is inside a stub that will return, and then the word encodes the holders. -/
def Busy (m : Nat) (s : MutexRun) (tid : Nat) (c : StubCall) : Prop :=
  ∃ fuel final mem',
    stubFinish c.fn.program m fuel c.cpu (Function.update s.mem curTidVa (tid + 1)) =
      some (final, mem') ∧
    Settled (mem' m) (credit c.fn tid (final.regs 0) s.held)

/-- What every disciplined event keeps. -/
structure Sound (m : Nat) (s : MutexRun) : Prop where
  tidWord : s.mem curTidVa = s.cur + 1
  small : s.cur + 1 < 0x100
  exclusive : Exclusive s.held
  state : (s.calls = [] ∧ Settled (s.mem m) s.held) ∨
    ∃ tid c, s.calls = [(tid, c)] ∧ s.Busy m tid c

variable {m : Nat} {s : MutexRun}

/-- A call is made while nobody is inside a stub, so the word encodes the holders. -/
theorem Sound.settled (h : s.Sound m) (hcalls : s.calls = []) : Settled (s.mem m) s.held := by
  rcases h.state with ⟨-, hsettled⟩ | ⟨tid, c, hone, -⟩
  · exact hsettled
  · exact absurd hone (by simp [hcalls])

theorem Sound.switch (h : s.Sound m) (hm : m ≠ curTidVa)
    (htid : tid + 1 < 0x100) : (s.step m (.switch tid)).Sound m := by
  have hu32 : u32 (tid + 1) = tid + 1 := u32_of_lt (by omega)
  refine ⟨?_, htid, h.exclusive, ?_⟩
  · simp [step, hu32]
  rcases h.state with ⟨hcalls, hsettled⟩ | ⟨owner, c, hcalls, hbusy⟩
  · refine .inl ⟨hcalls, ?_⟩
    simpa [step, update_of_ne hm] using hsettled
  · refine .inr ⟨owner, c, hcalls, ?_⟩
    simpa [step, Busy] using hbusy

theorem Sound.call (h : s.Sound m) {caller : StubCpu}
    (hcalls : s.calls = []) (hfn : Permits (s.mem m) s.cur fn) :
    (s.step m (.call fn caller)).Sound m := by
  have hsettled := h.settled hcalls
  have hu32 : u32 (s.cur + 1) = s.cur + 1 := u32_of_lt (by have := h.small; omega)
  have hview : update s.mem curTidVa (s.cur + 1) = s.mem := by
    rw [← h.tidWord, update_eq_self]
  have hstep : s.step m (.call fn caller) = { s with
        calls := [(s.cur, ⟨fn, { caller with
          regs := update caller.regs 0 m, pc := 0 }⟩)]
        held := debit fn s.cur s.held } := by
    simp [step, hcalls]
  rw [hstep]
  refine ⟨h.tidWord, h.small, h.exclusive.debit fn s.cur, .inr ⟨s.cur, _, rfl, ?_⟩⟩
  obtain ⟨fuel, final, hfinish, hresult⟩ := stubFinish_call
    { caller with regs := update caller.regs 0 m, pc := 0 } rfl
    (update_self 0 m caller.regs) (h.tidWord.trans hu32.symm) hsettled.2 fn
  refine ⟨fuel, final, _, by rw [hview]; exact hfinish, ?_⟩
  rw [update_self, hresult]
  exact hsettled.svcMutex h.small hfn

section

variable (h : s.Sound m) (hm : m ≠ curTidVa)
include h hm

theorem Sound.svc (hcalls : s.calls = []) (hfn : Permits (s.mem m) s.cur fn) :
    (s.step m (.svc fn)).Sound m := by
  have hsettled := (h.settled hcalls).svcMutex h.small hfn
  simp only [step, hcalls]
  refine ⟨?_, h.small, hsettled.1.exclusive, .inl ⟨rfl, ?_⟩⟩
  · simpa [update_of_ne (Ne.symm hm)] using h.tidWord
  · simpa using hsettled

theorem Sound.init (hcalls : s.calls = []) (hfree : s.mem m < 0x100) :
    (s.step m .init).Sound m := by
  simp only [step, hcalls]
  have hnobody : ∀ t, s.held t = 0 := by
    rcases (h.settled hcalls).1 with ⟨-, hzero⟩ | ⟨owner, -, hpos, hword, -⟩
    · exact hzero
    · omega
  refine ⟨?_, h.small, h.exclusive, .inl ⟨rfl, .inl ⟨?_, hnobody⟩, ?_⟩⟩
  · simpa [update_of_ne (Ne.symm hm)] using h.tidWord
  · simp
  · simp

theorem Sound.insn : (s.step m .insn).Sound m := by
  rcases h.state with ⟨hcalls, -⟩ | ⟨tid, c, hcalls, hbusy⟩
  · simpa [step, hcalls] using h
  by_cases hcur : tid = s.cur
  · subst hcur
    have hothers : (s.calls.filter fun e => e.1 ≠ s.cur) = [] := by simp [hcalls]
    have hstep : s.step m .insn = s.resume c := by simp [step, hcalls]
    obtain ⟨fuel, final, mem', hfinish, hsettled⟩ := hbusy
    have hview : update s.mem curTidVa (s.cur + 1) = s.mem := by
      rw [← h.tidWord, update_eq_self]
    rw [hview] at hfinish
    rcases stubFinish_step hfinish with ⟨hret, rfl⟩ | ⟨fuel', cpu₁, mem₁, hnext, hframe, hrest⟩
    · rw [hstep, resume, hret]
      simp only [hothers]
      exact ⟨h.tidWord, h.small, hsettled.1.exclusive, .inl ⟨rfl, hsettled⟩⟩
    rw [hstep, resume, hnext]
    simp only [hothers]
    have htid : mem₁ curTidVa = s.cur + 1 := (hframe _ (Ne.symm hm)).trans h.tidWord
    refine ⟨htid, h.small, h.exclusive, .inr ⟨s.cur, _, rfl, fuel', final, mem', ?_, hsettled⟩⟩
    rw [← htid, update_eq_self]
    exact hrest
  · have hnone : s.calls.lookup s.cur = none := by simp [hcalls, Ne.symm hcur]
    simpa [step, hnone] using h

theorem Sound.step {op : MutexOp} (hop : s.Disciplined m op) : (s.step m op).Sound m := by
  cases op with
  | switch tid => exact h.switch hm hop
  | insn => exact h.insn hm
  | call fn caller => exact h.call hop.1 hop.2
  | svc fn => exact h.svc hm hop.1 hop.2
  | init => exact h.init hm hop.1 hop.2

end

end MutexRun

/-- **Mutual exclusion.** In every disciplined run of any threads on an initialised mutex, at most
one holds it. -/
theorem mutualExclusion_of_run (m : Nat) (hm : m ≠ curTidVa) (mem : Nat → Nat) (hmem : mem m = 0)
    (ops : List MutexOp)
    (hops : StepsMeet (MutexRun.Disciplined m) (MutexRun.step m) (MutexRun.initial mem) ops) :
    MutexRun.Exclusive (run (MutexRun.step m) (MutexRun.initial mem) ops).held := by
  have hstart : (MutexRun.initial mem).Sound m := by
    refine ⟨by simp [MutexRun.initial], by simp [MutexRun.initial], ?_, .inl ⟨rfl, ?_, ?_⟩⟩
    · exact fun t u ht _ => absurd ht (lt_irrefl 0)
    · exact .inl ⟨by simp [MutexRun.initial, update_of_ne hm, hmem], fun _ => rfl⟩
    · simp [MutexRun.initial, update_of_ne hm, hmem]
  exact (run_invariant (fun _ _ hs hop => hs.step hm hop) hstart hops).exclusive

def blankCpu : StubCpu := ⟨fun _ => 0, false, false, false, 0, []⟩

/-- A call of a stub and its first `n` instructions. -/
def enter (fn : MutexFn) (n : Nat) : List MutexOp := .call fn blankCpu :: List.replicate n .insn

def mutexVa : Nat := 0x20000

/-- The main thread locks and unlocks twice, switched out in between; thread 2 finds the mutex busy,
then gets it, and unlocks by supervisor call. -/
def handedOver : List MutexOp :=
  enter .lock 4 ++ [.switch 2, .switch 0] ++ List.replicate 6 .insn ++ enter .lock 10 ++
    [.switch 2] ++ enter .trylock 11 ++ [.switch 0] ++ enter .unlock 8 ++ enter .unlock 8 ++
    [.switch 2] ++ enter .trylock 12 ++ [.svc .unlock, .svc .lock]

theorem mutualExclusion_handedOver : MutexRun.Exclusive
      (run (MutexRun.step mutexVa) (MutexRun.initial fun _ => 0) handedOver).held ∧
    (run (MutexRun.step mutexVa) (MutexRun.initial fun _ => 0) handedOver).held 2 = 1 :=
  ⟨mutualExclusion_of_run mutexVa (by decide) _ rfl handedOver (by decide +kernel),
    by decide +kernel⟩

/-- The main thread locks the mutex and is switched out; thread 2 locks it as well. -/
def contended : List MutexOp := enter .lock 10 ++ [.switch 2] ++ enter .lock 10

/-- The main thread is switched out right after the branch with which `trylock` decides that
the mutex is free. -/
def interrupted : List MutexOp :=
  enter .trylock 6 ++ [.switch 2] ++ enter .trylock 12 ++ [.switch 0] ++ List.replicate 6 .insn

theorem not_mutualExclusion_contended : ¬ MutexRun.Exclusive
      (run (MutexRun.step mutexVa) (MutexRun.initial fun _ => 0) contended).held ∧
    ¬ MutexRun.Exclusive
      (run (MutexRun.step mutexVa) (MutexRun.initial fun _ => 0) interrupted).held :=
  ⟨fun h => absurd (h 0 2 (by decide +kernel) (by decide +kernel)) (by decide),
    fun h => absurd (h 0 2 (by decide +kernel) (by decide +kernel)) (by decide)⟩

end Lunaria
