/-
# What a thread finds when it runs again

All A64 guest threads run on one auxiliary JIT. A slice loads `x0`–`x30`, `SP` and `PC`
from the record, runs, and saves the same registers. The flags, the vector registers
and the floating-point control and status registers stay in the JIT, so a thread finds
those of whichever thread ran last. Here the state each thread left behind is kept
beside the table, under the stack of the thread, which no other thread ever gets.
-/

import Lunaria.Threads.Slice
import Mathlib.Logic.Function.Basic

namespace Lunaria

open Lib List Option Function SliceRun

/-- The two states agree on everything a slice neither loads nor saves. -/
def Jit64.SameUnsaved (a b : Jit64) : Prop :=
  b.nzcv = a.nzcv ∧ b.v = a.v ∧ b.fpcr = a.fpcr ∧ b.fpsr = a.fpsr
  deriving Decidable

/-- The auxiliary JIT, the table, and what the JIT held when the thread with a given
stack last stopped running. -/
structure ContextRun where
  table : ThreadTable
  jit : Jit64
  last : Nat → Option Jit64

/-- A call of the main thread, on its own JIT, or a slice of the record at `i`, which takes the JIT
to another state and issues calls. -/
inductive ContextOp where
  | call (c : SliceCall)
  | slice (i : Nat) (guest : Jit64 → Jit64) (cs : List SliceCall) (ticks : Nat)

namespace ContextRun

variable (L : Layout) (r : ContextRun)

/-- No thread has been created, and the JIT is in any state. -/
def initial (jit : Jit64) : ContextRun := ⟨ThreadTable.initial L, jit, fun _ => none⟩

/-- One slice of the record `t` at `i`. -/
def slice (i : Nat) (t : ArmThread) (guest : Jit64 → Jit64)
    (cs : List SliceCall) (ticks : Nat) : ContextRun :=
  let stopped := guest (t.loadA64 r.jit)
  { table := (SliceRun.calls L r.table i t cs).table.endSlice L (r.table.threads.ref i)
      (.a64 stopped ticks)
    jit := stopped
    last := Function.update r.last t.stackBase (some stopped) }

/-- One event. The scheduler gives no slice to a finished thread. -/
def step : ContextOp → ContextRun
  | .call c => { r with table := r.table.step L (c.op 0) }
  | .slice i guest cs ticks =>
    match r.table.threads.items[i]? with
    | some t => if t.finished then r else r.slice L i t guest cs ticks
    | none => r

/-- If a thread that has run before were to run now, it would find the state in which
it stopped. -/
def Isolated : Prop :=
  ∀ t ∈ r.table.threads.items, t.finished = false →
    ∀ stopped, r.last t.stackBase = some stopped → t.loadA64 r.jit = stopped

/-- Some thread other than `t` has run and can run again. -/
def OtherStarted (t : ArmThread) : Prop :=
  ∃ u ∈ r.table.threads.items, u.finished = false ∧ u.stackBase ≠ t.stackBase ∧
    (r.last u.stackBase).isSome
  deriving Decidable

/-- The slice keeps its record in place, and the unsaved state if another thread has run and can run
again. -/
def Considerate : ContextOp → Prop
  | .call _ => True
  | .slice i guest cs _ =>
    ∀ t ∈ r.table.threads.items[i]?, t.finished = false →
      StepsMeet (SliceRun.Undisturbed i) (SliceRun.step L t.id) (SliceRun.start r.table i) cs ∧
        (r.OtherStarted t → (t.loadA64 r.jit).SameUnsaved (guest (t.loadA64 r.jit)))

instance considerateDecidable (L : Layout) (r : ContextRun) : ∀ op, Decidable (r.Considerate L op)
  | .call _ => isTrue trivial
  | .slice _ _ _ _ => inferInstanceAs (Decidable (∀ t ∈ _, _ → _ ∧ _))

end ContextRun

/-! ## Saving and loading -/

/-- What was saved is loaded again: a zero `SP` or `PC` falls back to the mirrored low
half, which is zero too. -/
theorem ArmThread.loadA64_endSlice (L : Layout) (t : ArmThread) (jit : Jit64) (ticks : Nat) :
    (t.endSlice L (.a64 jit ticks)).loadA64 jit = jit := by
  have hzero : u32 0 = 0 := rfl
  have hx : ∀ r : Fin 31, r.val ≤ 30 := fun r => by omega
  cases jit with
  | mk x sp pc nzcv v fpcr fpsr =>
    simp only [loadA64, endSlice, saveA64, Jit64.mk.injEq]
    refine ⟨?_, ?_, ?_⟩
    · funext r
      by_cases hr : r = 30
      · subst hr
        split
        · rfl
        · rfl
      · simp [hr, hx r]
    · by_cases hsp : sp = 0
      · simp [hsp, hzero]
      · simp [hsp]
    · by_cases hpc : pc = 0
      · simp [hpc, hzero]
      · simp [hpc]

theorem ArmThread.loadA64_congr (t : ArmThread) {a b : Jit64} (h : a.SameUnsaved b) :
    t.loadA64 b = t.loadA64 a := by
  obtain ⟨hnzcv, hv, hfpcr, hfpsr⟩ := h
  simp [loadA64, hnzcv, hv, hfpcr, hfpsr]

/-! ## Threads and their stacks -/

namespace ThreadTable

def stackBases (s : ThreadTable) : List Nat := s.threads.items.map ArmThread.stackBase

variable {L : Layout} {u : ArmThread}

theorem newThread_stackBase (hL : L.isArm64) (s : ThreadTable)
    (call : CreateCall) : (s.newThread L call).stackBase = a64GuestVa s.stackNext := by
  simp only [newThread, hL]
  rfl

theorem step_stackBases (hL : L.isArm64) (s : ThreadTable) (op : ThreadOp) :
    (∃ call, op = .create call ∧ s.Creates call ∧
      (s.step L op).stackBases = s.stackBases ++ [a64GuestVa s.stackNext] ∧
      (s.step L op).stackNext = u32 (s.stackNext + threadStackSize)) ∨
    ((s.step L op).stackBases.Sublist s.stackBases ∧ (s.step L op).stackNext = s.stackNext) := by
  have hkeys := step_keys (fun t t' (h : t.SameThread t') => h.2) L s op
  simp only [newThread_stackBase hL] at hkeys
  exact hkeys

/-- A record is there after a call because it was there before, or because the call made
it or marked it finished. -/
theorem mem_step_call {s : ThreadTable} {tid : Nat} {c : SliceCall}
    (hu : u ∈ (s.step L (c.op tid)).threads.items) :
    u ∈ s.threads.items ∨ u.finished ∨ ∃ call, u = s.newThread L call := by
  cases c with
  | create call =>
    rw [SliceCall.op, step] at hu
    rcases s.threads_svcPthreadCreate L call with ⟨-, hpush⟩ | ⟨-, hkept⟩
    · rw [hpush, CppVector.items_pushBack, mem_append, mem_singleton] at hu
      exact hu.imp_right fun hnew => .inr ⟨call, hnew⟩
    · rw [hkept] at hu
      exact .inl hu
  | exit =>
    rw [SliceCall.op, step] at hu
    rcases s.threads_svcPthreadExit tid with ⟨i, hretire⟩ | hkept
    · rw [hretire] at hu
      rcases CppVector.mem_modify hu with hmem | ⟨old, -, rfl⟩
      · exact .inl hmem
      · exact .inr (.inl rfl)
    · rw [hkept] at hu
      exact .inl hu
  | join target => exact .inl (mem_filter.mp hu).1

end ThreadTable

/-! ## Isolation along a run -/

namespace ContextRun

/-- What every considerate event keeps: each thread has its stack, and those not handed out are of
threads that have not run. -/
structure Sound (r : ContextRun) : Prop where
  apart : r.table.stackBases.Nodup
  below : ∀ stack ∈ r.table.stackBases, stack < a64GuestVa r.table.stackNext
  unstarted : ∀ stack, a64GuestVa r.table.stackNext ≤ stack → r.last stack = none
  room : r.table.stackNext ≤ heapBase
  isolated : r.Isolated

variable {L : Layout} {r : ContextRun}

/-- A call neither makes nor changes a record of a thread that has run and can run
again. -/
theorem Sound.mem_of_started (hL : L.isArm64) (h : r.Sound) {tid : Nat} {c : SliceCall}
    (hu : u ∈ (r.table.step L (c.op tid)).threads.items) (hrunning : u.finished = false)
    (hstarted : (r.last u.stackBase).isSome) : u ∈ r.table.threads.items := by
  rcases ThreadTable.mem_step_call hu with hmem | hfinished | ⟨call, rfl⟩
  · exact hmem
  · rw [hrunning] at hfinished
    cases hfinished
  · rw [ThreadTable.newThread_stackBase hL, h.unstarted _ (le_rfl)] at hstarted
    cases hstarted

theorem Sound.call (hL : L.isArm64) (h : r.Sound) (tid : Nat) (c : SliceCall) :
    Sound { r with table := r.table.step L (c.op tid) } := by
  have hisolated : Isolated { r with table := r.table.step L (c.op tid) } := by
    intro u hu hrunning stopped hstopped
    have hmem := h.mem_of_started hL hu hrunning (isSome_of_eq_some hstopped)
    exact h.isolated u hmem hrunning stopped hstopped
  rcases ThreadTable.step_stackBases hL r.table (c.op tid) with
    ⟨call, -, hcreates, hstacks, hnext⟩ | ⟨hsub, hnext⟩
  · have hheap := layoutConsts.2.1
    have hroom := h.room
    have hsize : threadStackSize = 0x100000 := rfl
    have hgrown : a64GuestVa r.table.stackNext <
        a64GuestVa (r.table.step L (c.op tid)).stackNext := by
      rw [hnext, u32_of_lt (by omega), a64GuestVa, a64GuestVa]
      omega
    refine ⟨?_, ?_, ?_, ?_, hisolated⟩
    · rw [hstacks]
      refine nodup_append.mpr ⟨h.apart, nodup_singleton _, ?_⟩
      intro stack hstack new hnew
      rw [mem_singleton.mp hnew]
      exact (h.below stack hstack).ne
    · intro stack hstack
      rw [hstacks, mem_append, mem_singleton] at hstack
      rcases hstack with hold | rfl
      · exact (h.below stack hold).trans hgrown
      · exact hgrown
    · intro stack hstack
      exact h.unstarted stack (hgrown.le.trans hstack)
    · rw [hnext]
      exact hcreates.2
  · refine ⟨h.apart.sublist hsub, ?_, ?_, hnext.trans_le h.room, hisolated⟩
    · intro stack hstack
      rw [hnext]
      exact h.below stack (hsub.subset hstack)
    · intro stack hstack
      rw [hnext] at hstack
      exact h.unstarted stack hstack

/-- The calls of a slice keep the invariant, and the records of the threads that have
run and can run again are as they were. -/
theorem Sound.calls (hL : L.isArm64) (h : r.Sound) (i : Nat) (t : ArmThread) (cs : List SliceCall) :
    Sound { r with table := (SliceRun.calls L r.table i t cs).table } ∧
      ∀ u ∈ (SliceRun.calls L r.table i t cs).table.threads.items, u.finished = false →
        (r.last u.stackBase).isSome → u ∈ r.table.threads.items := by
  have preserved : ∀ (q : SliceRun) (c : SliceCall),
      (Sound { r with table := q.table } ∧ ∀ u ∈ q.table.threads.items, u.finished = false →
        (r.last u.stackBase).isSome → u ∈ r.table.threads.items) →
      (Sound { r with table := (q.step L t.id c).table } ∧
        ∀ u ∈ (q.step L t.id c).table.threads.items, u.finished = false →
          (r.last u.stackBase).isSome → u ∈ r.table.threads.items) := by
    rintro q c ⟨hsound, hkept⟩
    refine ⟨hsound.call hL t.id c, fun u hu hrunning hstarted => ?_⟩
    exact hkept u (hsound.mem_of_started hL hu hrunning hstarted) hrunning hstarted
  exact run_always preserved ⟨h, fun u hu _ _ => hu⟩ cs

variable {i : Nat} {t : ArmThread} {guest : Jit64 → Jit64} {cs : List SliceCall}

theorem last_slice {ticks : Nat} :
    (r.slice L i t guest cs ticks).last t.stackBase = some (guest (t.loadA64 r.jit)) :=
  update_self ..

theorem last_slice_of_ne {ticks stack : Nat}
    (hne : stack ≠ t.stackBase) : (r.slice L i t guest cs ticks).last stack = r.last stack :=
  update_of_ne hne ..

/-- After the store of an undisturbed slice, a record is the one just stored or that of
another thread, which is as it was. -/
theorem mem_slice (ht : r.table.threads.items[i]? = some t)
    (hcs : StepsMeet (SliceRun.Undisturbed i) (SliceRun.step L t.id) (SliceRun.start r.table i) cs)
    (hapart : (SliceRun.calls L r.table i t cs).table.stackBases.Nodup) (e : SliceEnd)
    (hu : u ∈ ((SliceRun.calls L r.table i t cs).table.endSlice L
      (r.table.threads.ref i) e).threads.items) :
    (∃ t' : ArmThread, u = t'.endSlice L e ∧ u.stackBase = t.stackBase) ∨
      (u ∈ (SliceRun.calls L r.table i t cs).table.threads.items ∧ u.stackBase ≠ t.stackBase) := by
  have hheld := calls_held ht hcs
  obtain ⟨t', ht', hsame⟩ := calls_follows L ht cs i hheld.place
  obtain ⟨j, hj⟩ := getElem?_of_mem hu
  rw [hheld.items_endSlice] at hj
  by_cases hij : i = j
  · subst hij
    refine .inl ⟨t', ?_, ?_⟩
    · simpa [ht'] using hj.symm
    · obtain rfl : t'.endSlice L e = u := by simpa [ht'] using hj
      exact (t'.sameThread_endSlice L e).2.trans hsame.2
  have hju : (SliceRun.calls L r.table i t cs).table.threads.items[j]? = some u := by
    simpa [hij] using hj
  refine .inr ⟨mem_of_getElem? hju, fun hstack => hij ?_⟩
  -- the two records stand at different places, so they have different stacks
  have hlive : i < (SliceRun.calls L r.table i t cs).table.stackBases.length := by
    rw [ThreadTable.stackBases, length_map]
    exact hheld.live
  apply (getElem?_inj hlive hapart).mp
  rw [ThreadTable.stackBases, getElem?_map, getElem?_map, ht', hju, map_some,
    map_some, hstack, hsame.2]

theorem Sound.slice (hL : L.isArm64) (h : r.Sound) (ht : r.table.threads.items[i]? = some t)
    (ticks : Nat)
    (hcs : StepsMeet (SliceRun.Undisturbed i) (SliceRun.step L t.id) (SliceRun.start r.table i) cs)
    (hunsaved : r.OtherStarted t → (t.loadA64 r.jit).SameUnsaved (guest (t.loadA64 r.jit))) :
    (r.slice L i t guest cs ticks).Sound := by
  obtain ⟨hcalls, hkept⟩ := h.calls hL i t cs
  have hheld := calls_held ht hcs
  obtain ⟨t', ht', hsame⟩ := calls_follows L ht cs i hheld.place
  have hstacks : (r.slice L i t guest cs ticks).table.stackBases =
      (SliceRun.calls L r.table i t cs).table.stackBases := by
    rw [ThreadTable.stackBases, ContextRun.slice, hheld.items_endSlice]
    exact CppVector.map_modify_of_fixed (fun u => (u.sameThread_endSlice L _).2) ..
  have hmine := mem_map.mpr ⟨t', mem_of_getElem? ht', hsame.2⟩
  refine ⟨hstacks ▸ hcalls.apart, hstacks ▸ hcalls.below, ?_, hcalls.room, ?_⟩
  · intro stack hstack
    have hne : stack ≠ t.stackBase := ((hcalls.below _ hmine).trans_le hstack).ne'
    rw [last_slice_of_ne hne]
    exact hcalls.unstarted stack hstack
  intro u hu hrunning stopped hstopped
  rcases mem_slice ht hcs hcalls.apart _ hu with ⟨t'', rfl, hstack⟩ | ⟨hmem, hstack⟩
  · rw [hstack, last_slice] at hstopped
    rw [← some.inj hstopped]
    exact t''.loadA64_endSlice L _ ticks
  rw [last_slice_of_ne hstack] at hstopped
  have hstarted := isSome_of_eq_some hstopped
  have hsameUnsaved := hunsaved ⟨u, hkept u hmem hrunning hstarted, hrunning, hstack, hstarted⟩
  calc u.loadA64 (guest (t.loadA64 r.jit))
      = u.loadA64 _ := u.loadA64_congr hsameUnsaved
    _ = stopped := hcalls.isolated u hmem hrunning stopped hstopped

theorem Sound.step (hL : L.isArm64) (h : r.Sound)
    {op : ContextOp} (hop : r.Considerate L op) : (r.step L op).Sound := by
  cases op with
  | call c => exact h.call hL 0 c
  | slice i guest cs ticks =>
    simp only [ContextRun.step]
    cases ht : r.table.threads.items[i]? with
    | none => exact h
    | some t =>
      by_cases hfinished : t.finished
      · simpa [hfinished] using h
      · have hrunning : t.finished = false := by simpa using hfinished
        obtain ⟨hcs, hunsaved⟩ := hop t ht hrunning
        simpa [hrunning] using h.slice hL ht ticks hcs hunsaved

theorem sound_initial (heapMb mmap2Base mmap2End : Int) (jit : Jit64) :
    (initial (guestLayoutInit true heapMb mmap2Base mmap2End) jit).Sound where
  apart := nodup_nil
  below := fun _ hstack => absurd hstack not_mem_nil
  unstarted := fun _ _ => rfl
  room := show 0x0D400000 ≤ heapBase by decide
  isolated := fun _ ht => absurd ht not_mem_nil

end ContextRun

/-- **A64 context isolation.** In any interleaving of slices that leave their records in place, and
the unsaved registers as they were whenever another thread has run and can run again, each thread
finds the whole state in which it stopped. -/
theorem isolated_of_run (heapMb mmap2Base mmap2End : Int) (jit : Jit64) (ops : List ContextOp)
    (hops : StepsMeet (ContextRun.Considerate (guestLayoutInit true heapMb mmap2Base mmap2End))
      (ContextRun.step (guestLayoutInit true heapMb mmap2Base mmap2End))
      (ContextRun.initial (guestLayoutInit true heapMb mmap2Base mmap2End) jit) ops) :
    (run (ContextRun.step (guestLayoutInit true heapMb mmap2Base mmap2End))
      (ContextRun.initial (guestLayoutInit true heapMb mmap2Base mmap2End) jit) ops).Isolated := by
  have hL : (guestLayoutInit true heapMb mmap2Base mmap2End).isArm64 := rfl
  have hstart := ContextRun.sound_initial heapMb mmap2Base mmap2End jit
  exact (run_invariant (fun _ _ hr hop => hr.step hL hop) hstart hops).isolated

/-- The auxiliary JIT as it is created. -/
def freshJit64 : Jit64 := ⟨fun _ => 0, 0, 0, 0, fun _ => 0, 0, 0⟩

def fillV (value : Nat) (jit : Jit64) : Jit64 := { jit with v := fun _ => value }

/-- Guest code that writes every general register and moves on. -/
def fillX (value : Nat) (jit : Jit64) : Jit64 :=
  { jit with x := fun _ => value, pc := jit.pc + 8 }

/-- The first of three threads writes the vector registers; the second writes general ones and
starts a fourth thread. -/
def generalRegisterRun : List ContextOp :=
  [.call (.create startCall), .call (.create startCall), .call (.create startCall),
    .slice 0 (fillV 1) [] 100, .slice 1 (fillX 9) [.create startCall] 100]

theorem isolated_generalRegisterRun :
    StepsMeet (ContextRun.Considerate (defaultLayout true)) (ContextRun.step (defaultLayout true))
      (ContextRun.initial (defaultLayout true) freshJit64) generalRegisterRun ∧
    (run (ContextRun.step (defaultLayout true))
      (ContextRun.initial (defaultLayout true) freshJit64) generalRegisterRun).Isolated :=
  ⟨by decide, isolated_of_run 256 0 0 freshJit64 generalRegisterRun (by decide)⟩

/-- Two threads write the vector registers in turn. -/
def vectorRegisterRun : List ContextOp :=
  [.call (.create startCall), .call (.create startCall),
    .slice 0 (fillV 1) [] 100, .slice 1 (fillV 2) [] 100]

/-- The first thread stopped with 1 in `V0` and would go on with 2. -/
theorem not_isolated_vectorRegisterRun : ¬ (run (ContextRun.step (defaultLayout true))
      (ContextRun.initial (defaultLayout true) freshJit64) vectorRegisterRun).Isolated := by
  intro h
  generalize hr : run (ContextRun.step (defaultLayout true))
    (ContextRun.initial _ freshJit64) vectorRegisterRun = r at h
  have hlive : 0 < r.table.threads.items.length := by
    rw [← hr]
    decide
  have hrunning : (r.table.recordAt 0).finished = false := by
    rw [← hr]
    decide
  have hstopped : (r.last (r.table.recordAt 0).stackBase).map (fun jit => jit.v 0) = some 1 := by
    rw [← hr]
    decide
  have hfound : r.jit.v 0 = 2 := by
    rw [← hr]
    decide
  obtain ⟨stopped, hlast, hv⟩ := map_eq_some_iff.mp hstopped
  have hmem := mem_of_getElem? (ThreadTable.getElem?_recordAt hlive)
  have hload := congrArg (fun jit => jit.v 0) (h _ hmem hrunning stopped hlast)
  rw [hv] at hload
  exact absurd (hfound.symm.trans hload) (by decide)

end Lunaria
