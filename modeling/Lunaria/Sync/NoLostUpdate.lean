/-
# No lost update through exclusive stores

The monitor clears every mark at an address when an exclusive store to it goes ahead, so
a mark that is still there has seen no exclusive store since it was made. What it cannot
see is plain stores, and whose mark it is: all guest threads share one processor id. In
runs where neither matters, a successful exclusive store finds the address as its thread
left it, and loops that add one to a word add up.
-/

import Lunaria.Sync.Exclusives

namespace Lunaria

open Lib Function

/-! ## What one event does -/

section Callbacks

variable {V : Type} [DecidableEq V]

theorem writeExclusive_of_ne (g : GuestArch) (mem : Nat → V) {addr other : Nat}
    (value expected : V) (h : other ≠ addr) :
    (writeExclusive g mem addr value expected).2 other = mem other := by
  simp only [writeExclusive, writeExclusiveA64, writeExclusiveA32]
  split
  · split
    · rfl
    · exact update_of_ne h ..
  · split
    · exact update_of_ne h ..
    · rfl

variable {g : GuestArch} {mem : Nat → V} {addr : Nat} {value expected : V}

theorem expected_of_writeExclusive (hok : (writeExclusive g mem addr value expected).1) :
    g.isArm64 ∨ mem addr = expected := by
  simp only [writeExclusive, writeExclusiveA32] at hok
  by_cases harm : g.isArm64
  · exact .inl harm
  · rw [if_neg harm] at hok
    by_cases heq : mem addr = expected
    · exact .inr heq
    · simp [heq] at hok

/-- A callback that succeeds has stored the value, unless the range is read-only. -/
theorem writeExclusive_stored (hok : (writeExclusive g mem addr value expected).1)
    (hstores : g.stores addr) : (writeExclusive g mem addr value expected).2 addr = value := by
  simp only [writeExclusive, writeExclusiveA64, writeExclusiveA32] at hok ⊢
  by_cases harm : g.isArm64
  · have hro : g.readOnly addr = false := by simpa [GuestArch.stores, harm] using hstores
    simp [harm, hro]
  · by_cases heq : mem addr = expected
    · simp [harm, heq]
    · simp [harm, heq] at hok

theorem writeExclusive_failed (hok : (writeExclusive g mem addr value expected).1 = false) :
    (writeExclusive g mem addr value expected).2 = mem := by
  simp only [writeExclusive, writeExclusiveA64, writeExclusiveA32] at hok ⊢
  by_cases harm : g.isArm64
  · by_cases hro : g.readOnly addr = true <;> simp [harm, hro] at hok
  · by_cases heq : mem addr = expected
    · simp [harm, heq] at hok
    · simp [harm, heq]

end Callbacks

namespace ExclusiveRun

variable {V : Type}

theorem clear_addresses {m : ExclusiveMonitor V} {addr p a : Nat}
    (h : (m.clear addr).addresses p = some a) : m.addresses p = some a ∧ a ≠ addr := by
  simp only [ExclusiveMonitor.clear] at h
  split at h
  · exact absurd h (by simp)
  · rename_i hne
    exact ⟨h, fun heq => hne (by rw [h, heq])⟩

/-- Every mark is of the newest exclusive load on its JIT, and where a store could succeed, no other
thread has stored since. -/
structure Sound (g : GuestArch) (s : ExclusiveRun V) : Prop where
  marks : ∀ jit addr, s.mark g jit = some addr →
    ∃ tid, lastLoad jit s.log = some (tid, addr, s.marked g jit) ∧
      (g.isArm64 = true ∨ s.mem addr = s.marked g jit →
        Since (Access.SparedBy tid addr) (Access.LoadedBy tid addr) s.log)
  justified : Fitting Access.Justified s.log

variable {g : GuestArch}

theorem Sound.congr {s s' : ExclusiveRun V} (h : s.Sound g)
    (hmem : s'.mem = s.mem) (hmonitor : s'.monitor = s.monitor) (hlog : s'.log = s.log) :
    s'.Sound g := by
  refine ⟨?_, hlog ▸ h.justified⟩
  simp only [mark, marked, hmem, hmonitor, hlog]
  exact h.marks

/-- An access that is no exclusive load, under which the marks that stay spare its thread. -/
theorem Sound.append {s s' : ExclusiveRun V} (h : s.Sound g) {a : Access V}
    (hlog : s'.log = a :: s.log) (hloads : ∀ jit, lastLoad jit (a :: s.log) = lastLoad jit s.log)
    (hvalues : s'.monitor.values = s.monitor.values)
    (hmarks : ∀ jit addr, s'.mark g jit = some addr → s.mark g jit = some addr ∧
      (g.isArm64 ∨ s'.mem addr = s.marked g jit → (g.isArm64 ∨ s.mem addr = s.marked g jit) ∧
          ∀ tid value, lastLoad jit s.log = some (tid, addr, value) → a.SparedBy tid addr))
    (hjust : a.Justified s.log) : s'.Sound g := by
  refine ⟨?_, by rw [hlog]; exact ⟨hjust, h.justified⟩⟩
  intro jit addr hmark
  obtain ⟨hold, hspared⟩ := hmarks jit addr hmark
  obtain ⟨tid, hload, hsince⟩ := h.marks jit addr hold
  have hvalue : s'.marked g jit = s.marked g jit := by simp [marked, hvalues]
  rw [hlog, hloads, hvalue]
  refine ⟨tid, hload, fun hpass => ?_⟩
  obtain ⟨hbefore, hevent⟩ := hspared hpass
  exact (hsince hbefore).cons (hevent tid _ hload)

theorem sound_initial (g : GuestArch) (mem values : Nat → V) : (initial mem values).Sound g :=
  ⟨fun _ _ hmark => absurd hmark (by simp [initial, mark]), trivial⟩

variable {addr : Nat}

/-- The load a context has open is the newest one on its JIT, if that is a load of the same
thread from the same address. -/
theorem openLoad_eq {c : GuestContext} {v w : V} {log : List (Access V)}
    (hopen : openLoad c addr log = some v) (hlast : lastLoad c.jit log = some (c.tid, addr, w)) :
    v = w := by
  induction log with
  | nil => exact absurd hopen (by simp [openLoad])
  | cons a past ih =>
    cases a with
    | loaded c' a value =>
      by_cases hjit : c'.jit = c.jit
      · have hload : c'.tid = c.tid ∧ a = addr ∧ value = w := by
          simpa [lastLoad, hjit] using hlast
        have hc : c' = c := by
          cases c'
          simp only at hjit hload
          rw [hjit, hload.1]
        have hv : value = v := by simpa [openLoad, hc, hload.2.1] using hopen
        exact hv.symm.trans hload.2.2
      · have hc : c' ≠ c := fun heq => hjit (by rw [heq])
        simp only [openLoad, hc] at hopen
        simp only [lastLoad, hjit] at hlast
        exact ih hopen hlast
    | stored c' a => exact ih hopen hlast
    | exclusive c' a value ok =>
      simp only [openLoad] at hopen
      split at hopen
      · exact absurd hopen (by simp)
      · exact ih hopen hlast

/-- The word is what it was plus the loops completed, and a mark on it carries its value. -/
structure Counted [AddMonoidWithOne V] (g : GuestArch) (addr : Nat) (start : V)
    (s : ExclusiveRun V) : Prop where
  word : s.mem addr = start + s.completed addr
  marks : ∀ jit, s.mark g jit = some addr → s.marked g jit = s.mem addr

variable {start : V}

theorem Counted.congr [AddMonoidWithOne V] {s s' : ExclusiveRun V}
    (h : s.Counted g addr start) (hmem : s'.mem = s.mem) (hmonitor : s'.monitor = s.monitor)
    (hlog : s'.log = s.log) : s'.Counted g addr start := by
  refine ⟨by rw [hmem, completed, hlog]; exact h.word, ?_⟩
  simp only [mark, marked, hmem, hmonitor]
  exact h.marks

variable [DecidableEq V]

theorem step_switch (g : GuestArch) (s : ExclusiveRun V) (op : ExclusiveOp V)
    (hop : ∀ i, op ≠ .insn i) : (s.step g op).mem = s.mem ∧ (s.step g op).monitor = s.monitor ∧
      (s.step g op).log = s.log := by
  cases op with
  | insn i => exact absurd rfl (hop i)
  | beginSlice tid =>
    simp only [step]
    split <;> exact ⟨rfl, rfl, rfl⟩
  | enterCb tid =>
    simp only [step]
    cases s.nextCb with
    | none => exact ⟨rfl, rfl, rfl⟩
    | some jit =>
      simp only [clearOnA64]
      split <;> exact ⟨rfl, rfl, rfl⟩
  | leave =>
    simp only [step]
    cases s.suspended with
    | nil => exact ⟨rfl, rfl, rfl⟩
    | cons c rest =>
      simp only [clearOnA64]
      split <;> exact ⟨rfl, rfl, rfl⟩

/-- An exclusive store fails and changes nothing, or finds its mark, clears all marks there and asks
the callback. -/
theorem strex_cases (g : GuestArch) (s : ExclusiveRun V) (addr : Nat) (value : V) :
    ((s.strex g addr value).mem = s.mem ∧ (s.strex g addr value).monitor = s.monitor ∧
      (s.strex g addr value).log = .exclusive s.running addr value false :: s.log) ∨
    (s.mark g s.running.jit = some addr ∧ (s.strex g addr value).mem =
        (writeExclusive g s.mem addr value (s.marked g s.running.jit)).2 ∧
      (s.strex g addr value).monitor = s.monitor.clear addr ∧
      (s.strex g addr value).log = .exclusive s.running addr value
        (writeExclusive g s.mem addr value (s.marked g s.running.jit)).1 :: s.log) := by
  by_cases h : s.exclusiveState s.running.jit ∧ s.mark g s.running.jit = some addr
  · refine .inr ⟨h.2, ?_⟩
    simp [strex, if_pos h]
  · refine .inl ?_
    simp [strex, if_neg h]

/-! ## Every event keeps the marks sound -/

variable {s : ExclusiveRun V}

theorem Sound.ldrex (h : s.Sound g) (addr : Nat) : (s.insn g (.ldrex addr)).Sound g := by
  refine ⟨?_, trivial, h.justified⟩
  intro jit a hmark
  by_cases hjit : jit = s.running.jit
  · subst hjit
    have ha : a = addr := by simpa [insn, mark, ExclusiveMonitor.readAndMark, eq_comm] using hmark
    subst ha
    refine ⟨s.running.tid, ?_, fun _ => .inl ⟨rfl, rfl⟩⟩
    simp [insn, lastLoad, marked, ExclusiveMonitor.readAndMark]
  -- the mark of another JIT is where it was, and a load spares everybody
  have hid := (GuestJit.processorId_injective g.isArm64).ne hjit
  have hold : s.mark g jit = some a := by
    simpa [insn, mark, ExclusiveMonitor.readAndMark, hid] using hmark
  obtain ⟨tid, hload, hsince⟩ := h.marks jit a hold
  have hvalue : (s.insn g (.ldrex addr)).marked g jit = s.marked g jit := by
    simp [insn, marked, ExclusiveMonitor.readAndMark, hid]
  rw [hvalue]
  refine ⟨tid, ?_, fun hpass => (hsince hpass).cons trivial⟩
  simpa [insn, lastLoad, Ne.symm hjit] using hload

variable {value : V}

theorem Sound.strex (h : s.Sound g)
    (hop : s.Orderly g (.insn (.strex addr value))) : (s.strex g addr value).Sound g := by
  rcases s.strex_cases g addr value with ⟨hmem, hmonitor, hlog⟩ | ⟨hmark, hmem, hmonitor, hlog⟩
  · refine h.append hlog (fun _ => rfl) (by rw [hmonitor]) ?_ trivial
    intro jit a hm
    simp only [mark, hmonitor] at hm
    rw [hmem]
    exact ⟨hm, fun hpass => ⟨hpass, fun _ _ _ => .inr (.inr rfl)⟩⟩
  refine h.append hlog (fun _ => rfl) (by rw [hmonitor]; rfl) ?_ ?_
  · intro jit a hm
    simp only [mark, hmonitor] at hm
    obtain ⟨hold, hne⟩ := clear_addresses hm
    rw [hmem, writeExclusive_of_ne g s.mem _ _ hne]
    exact ⟨hold, fun hpass => ⟨hpass, fun _ _ _ => .inr (.inl (Ne.symm hne))⟩⟩
  · cases hok : (writeExclusive g s.mem addr value (s.marked g s.running.jit)).1 with
    | false => trivial
    | true =>
      obtain ⟨tid, hload, hsince⟩ := h.marks _ addr hmark
      have hown : tid = s.running.tid := (hop hmark).1 _ hload
      subst hown
      exact hsince (expected_of_writeExclusive hok)

theorem Sound.store (h : s.Sound g) (hop : s.Orderly g (.insn (.store addr value))) :
    (s.insn g (.store addr value)).Sound g := by
  simp only [insn]
  split
  · refine h.append rfl (fun _ => rfl) rfl ?_ trivial
    intro jit a hm
    refine ⟨hm, fun hpass => ?_⟩
    by_cases ha : a = addr
    · rw [ha] at hm hpass ⊢
      have hfair := hop jit hm
      by_cases harm : g.isArm64
      · rw [if_pos harm] at hfair
        exact ⟨.inl harm, fun tid v hload => .inl (hfair _ hload).symm⟩
      · rw [if_neg harm] at hfair
        rcases hpass with harm' | hsame
        · exact absurd harm' harm
        · exact absurd ((update_self addr value s.mem).symm.trans hsame) hfair
    · simp only [update_of_ne ha] at hpass
      exact ⟨hpass, fun _ _ _ => .inr (Ne.symm ha)⟩
  · exact h

theorem Sound.step (h : s.Sound g) {op : ExclusiveOp V}
    (hop : s.Orderly g op) : (s.step g op).Sound g := by
  have hswitch (op : ExclusiveOp V) (hop : ∀ i, op ≠ .insn i) : (s.step g op).Sound g := by
    obtain ⟨hmem, hmonitor, hlog⟩ := s.step_switch g op hop
    exact h.congr hmem hmonitor hlog
  cases op with
  | insn i =>
    cases i with
    | ldrex addr => exact h.ldrex addr
    | strex addr value => exact h.strex hop
    | store addr value => exact h.store hop
    | clrex => exact h.congr rfl rfl rfl
  | beginSlice _ | enterCb _ | leave => exact hswitch _ nofun

/-! ## Loops that add one -/

variable [AddMonoidWithOne V]

theorem Counted.ldrex
    (h : s.Counted g addr start) (a : Nat) : (s.insn g (.ldrex a)).Counted g addr start := by
  refine ⟨h.word, fun jit hmark => ?_⟩
  by_cases hjit : jit = s.running.jit
  · subst hjit
    have ha : a = addr := by simpa [insn, mark, ExclusiveMonitor.readAndMark] using hmark
    subst ha
    simp [insn, marked, ExclusiveMonitor.readAndMark]
  have hid := (GuestJit.processorId_injective g.isArm64).ne hjit
  have hold : s.mark g jit = some addr := by
    simpa [insn, mark, ExclusiveMonitor.readAndMark, hid] using hmark
  have hvalue : (s.insn g (.ldrex a)).marked g jit = s.marked g jit := by
    simp [insn, marked, ExclusiveMonitor.readAndMark, hid]
  rw [hvalue]
  exact h.marks jit hold

theorem Counted.strex (h : s.Counted g addr start) (hs : s.Sound g) {a : Nat}
    (hop : s.Orderly g (.insn (.strex a value)))
    (hinc : s.Increments addr (.insn (.strex a value))) :
    (s.strex g a value).Counted g addr start := by
  rcases s.strex_cases g a value with ⟨hmem, hmonitor, hlog⟩ | ⟨hmark, hmem, hmonitor, hlog⟩
  · have hcount : (s.strex g a value).completed addr = s.completed addr := by
      simp [completed, hlog, Access.completes]
    refine ⟨by rw [hmem, hcount]; exact h.word, fun jit hm => ?_⟩
    simp only [mark, marked, hmonitor, hmem] at hm ⊢
    exact h.marks jit hm
  by_cases ha : a = addr
  · subst ha
    refine ⟨?_, fun jit hm => ?_⟩
    · obtain ⟨v, hopen, rfl⟩ := hinc rfl
      obtain ⟨tid, hload, -⟩ := hs.marks _ a hmark
      obtain ⟨hown, hstores⟩ := hop hmark
      have htid : tid = s.running.tid := hown _ hload
      subst htid
      have hv : v = s.mem a := (openLoad_eq hopen hload).trans (h.marks _ hmark)
      cases hok : (writeExclusive g s.mem a (v + 1) (s.marked g s.running.jit)).1 with
      | false =>
        have hcount : (s.strex g a (v + 1)).completed a = s.completed a := by
          simp [completed, hlog, hok, Access.completes]
        rw [hmem, writeExclusive_failed hok, hcount]
        exact h.word
      | true =>
        have hcount : (s.strex g a (v + 1)).completed a = s.completed a + 1 := by
          simp [completed, hlog, hok, Access.completes]
        rw [hmem, writeExclusive_stored hok hstores, hcount, hv, h.word, Nat.cast_succ, add_assoc]
    · simp only [mark, hmonitor] at hm
      exact absurd rfl (clear_addresses hm).2
  · have hcount : (s.strex g a value).completed addr = s.completed addr := by
      simp [completed, hlog, Access.completes, ha]
    have hword : (s.strex g a value).mem addr = s.mem addr := by
      rw [hmem, writeExclusive_of_ne g s.mem _ _ (Ne.symm ha)]
    refine ⟨by rw [hword, hcount]; exact h.word, fun jit hm => ?_⟩
    rw [hword]
    simp only [mark, marked, hmonitor] at hm ⊢
    exact h.marks jit (clear_addresses hm).1

theorem Counted.step
    (h : s.Counted g addr start) (hs : s.Sound g) {op : ExclusiveOp V} (hop : s.Orderly g op)
    (hinc : s.Increments addr op) : (s.step g op).Counted g addr start := by
  have hswitch (op : ExclusiveOp V) (hop : ∀ i, op ≠ .insn i) :
    (s.step g op).Counted g addr start := by
    obtain ⟨hmem, hmonitor, hlog⟩ := s.step_switch g op hop
    exact h.congr hmem hmonitor hlog
  cases op with
  | insn i =>
    cases i with
    | ldrex a => exact h.ldrex a
    | strex a value => exact h.strex hs hop hinc
    | store a value =>
      simp only [ExclusiveRun.step, insn]
      split
      · have hword :=
          update_of_ne (Ne.symm hinc) value s.mem
        refine ⟨?_, fun jit hm => ?_⟩
        · simp only [hword]
          exact h.word
        · simp only [hword]
          exact h.marks jit hm
      · exact h
    | clrex => exact h.congr rfl rfl rfl
  | beginSlice _ | enterCb _ | leave => exact hswitch _ nofun

end ExclusiveRun

/-! ## Runs -/

section Runs

variable {V : Type} [DecidableEq V] [AddMonoidWithOne V]

/-- Whenever an exclusive store succeeded, its thread had loaded the address and no other had stored
since; and a word only changed by loops that add one has grown by the loops completed. -/
def NoLostUpdate (g : GuestArch) (mem values : Nat → V) (ops : List (ExclusiveOp V)) : Prop :=
  Fitting Access.Justified
      (run (ExclusiveRun.step g) (ExclusiveRun.initial mem values) ops).log ∧
    ∀ addr, StepsMeet (ExclusiveRun.Increments addr) (ExclusiveRun.step g)
        (ExclusiveRun.initial mem values) ops →
      (run (ExclusiveRun.step g) (ExclusiveRun.initial mem values) ops).mem addr =
        mem addr + (run (ExclusiveRun.step g) (ExclusiveRun.initial mem values) ops).completed addr

/-- **No lost update.** In every orderly run of slices, callbacks and accesses, no update through an
exclusive store is lost. -/
theorem noLostUpdate_of_run (g : GuestArch) (mem values : Nat → V) (ops : List (ExclusiveOp V))
    (hops : StepsMeet (ExclusiveRun.Orderly g) (ExclusiveRun.step g)
      (ExclusiveRun.initial mem values) ops) :
    NoLostUpdate g mem values ops := by
  have hsound := ExclusiveRun.sound_initial g mem values
  refine ⟨(run_invariant (fun _ _ hs hop => hs.step hop) hsound hops).justified, ?_⟩
  intro addr hincs
  have hstart : (ExclusiveRun.initial mem values).Counted g addr (mem addr) :=
    ⟨by simp [ExclusiveRun.initial, ExclusiveRun.completed],
      fun jit hmark => absurd hmark (by simp [ExclusiveRun.initial, ExclusiveRun.mark])⟩
  have preserved : ∀ (s : ExclusiveRun V) op,
      s.Sound g ∧ s.Counted g addr (mem addr) → s.Orderly g op ∧ s.Increments addr op →
        (s.step g op).Sound g ∧ (s.step g op).Counted g addr (mem addr) :=
    fun s op hs hop => ⟨hs.1.step hop.1, hs.2.step hs.1 hop.1 hop.2⟩
  exact (run_invariant preserved ⟨hsound, hstart⟩ (hops.and hincs)).2.word

end Runs

/-- The A32 guest, and an A64 guest with all of memory writable. -/
def archA32 : GuestArch := ⟨false, fun _ => false⟩
def archA64 : GuestArch := ⟨true, fun _ => false⟩

/-- A word of the guest at which the threads below meet. -/
def counterVa : Nat := 0x20000

/-- Thread 2 is switched out between load and store, thread 3 completes a loop, and the store of
thread 2 fails. -/
def retried : List (ExclusiveOp (BitVec 32)) :=
  [.beginSlice 2, .insn (.ldrex counterVa), .leave,
    .beginSlice 3, .insn (.ldrex counterVa), .insn (.strex counterVa 1), .leave,
    .beginSlice 2, .insn (.strex counterVa 1), .insn (.ldrex counterVa),
    .insn (.strex counterVa 2), .leave]

theorem noLostUpdate_retried :
    NoLostUpdate archA32 (fun _ => (0 : BitVec 32)) (fun _ => 0) retried ∧
    (run (ExclusiveRun.step archA32) (ExclusiveRun.initial (fun _ => 0) fun _ => 0)
      retried).mem counterVa = 2 :=
  ⟨noLostUpdate_of_run archA32 _ _ retried (by decide), by decide⟩

/-- As before, but thread 3 has begun another loop: the monitor takes its mark and value for those
of thread 2. -/
def overtaken : List (ExclusiveOp (BitVec 32)) :=
  [.beginSlice 2, .insn (.ldrex counterVa), .leave,
    .beginSlice 3, .insn (.ldrex counterVa), .insn (.strex counterVa 1),
    .insn (.ldrex counterVa), .leave, .beginSlice 2, .insn (.strex counterVa 1), .leave]

/-- A plain store of thread 3 between the load and the store of thread 2. -/
def overwritten : List (ExclusiveOp (BitVec 32)) :=
  [.beginSlice 2, .insn (.ldrex counterVa), .leave,
    .beginSlice 3, .insn (.store counterVa 7), .leave,
    .beginSlice 2, .insn (.strex counterVa 1), .leave]

/-- Two loops complete and the word is 1; and on A64 the stored 7 is overwritten. -/
theorem not_noLostUpdate_overtaken :
    ¬ NoLostUpdate archA32 (fun _ => (0 : BitVec 32)) (fun _ => 0) overtaken ∧
    ¬ NoLostUpdate archA64 (fun _ => (0 : BitVec 32)) (fun _ => 0) overwritten := by
  constructor
  · intro h
    have hword := h.2 counterVa (by decide)
    revert hword
    decide
  · intro h
    have hlog := h.1
    revert hlog
    decide

end Lunaria
