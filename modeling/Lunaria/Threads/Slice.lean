/-
# The store at the end of a slice

`schedule_threads` takes a reference to a record when a slice begins and stores the
context through it when the slice ends. In between the running thread may create and
join threads, which appends to and erases from the vector the reference points into.
The slice is followed here together with the place its record really occupies, so that
the store can be compared with the store that was meant.
-/

import Lunaria.Threads.Records

namespace Lunaria

open Lib List Option CppVector

/-- What the running thread can do to the table during its slice. Every other SVC leaves
the records where and as they are. -/
inductive SliceCall where
  | create (call : CreateCall)
  | exit
  | join (target : Nat)

/-- The table change a call makes while the thread `tid` runs. -/
def SliceCall.op (tid : Nat) : SliceCall → ThreadOp
  | .create call => .create call
  | .exit => .exit tid
  | .join target => .join target

/-- A slice in progress: the table, and where the record of the running thread stands
in it, if it has not been erased. -/
structure SliceRun where
  table : ThreadTable
  place : Option Nat

namespace SliceRun

def start (s : ThreadTable) (i : Nat) : SliceRun := ⟨s, some i⟩

/-- A call of the running thread. Only a join can move or erase its record. -/
def step (L : Layout) (tid : Nat) (r : SliceRun) (c : SliceCall) : SliceRun where
  table := r.table.step L (c.op tid)
  place := match c with
    | .join target => r.place.bind (r.table.threads.survivor (ThreadTable.joined target))
    | .create _ | .exit => r.place

/-- The calls of a whole slice of the record `t` at `i`. -/
def calls (L : Layout) (s : ThreadTable) (i : Nat) (t : ArmThread) (cs : List SliceCall) :
    SliceRun :=
  run (step L t.id) (start s i) cs

end SliceRun

/-- The place followed through a slice holds the record of the thread that runs. -/
def SliceRun.Follows (t : ArmThread) (r : SliceRun) : Prop :=
  ∀ k, r.place = some k → ∃ t', r.table.threads.items[k]? = some t' ∧ t.SameThread t'

/-- The slice of the record at `i` issues the calls `cs`. However it ends, the store puts that end
into the record of the thread that ran, and into no other. -/
structure WritesBack (L : Layout) (s : ThreadTable) (i : Nat) (t : ArmThread)
    (cs : List SliceCall) : Prop where
  follows : (SliceRun.calls L s i t cs).Follows t
  stored : ∀ e : SliceEnd, e.isArm64 = t.isArm64 → ∀ j,
    ((SliceRun.calls L s i t cs).table.endSlice L (s.threads.ref i) e).threads.items[j]? =
      if (SliceRun.calls L s i t cs).place = some j then
        ((SliceRun.calls L s i t cs).table.threads.items[j]?).map fun t' => t'.endSlice L e
      else (SliceRun.calls L s i t cs).table.threads.items[j]?

/-- The call leaves the record at `i` in place: a creation finds room in the vector, a join erases
nothing up to `i`. -/
def SliceRun.Undisturbed (i : Nat) (r : SliceRun) : SliceCall → Prop
  | .create call => r.table.Creates call → r.table.threads.HasRoom
  | .exit => True
  | .join target => ∀ t ∈ r.table.threads.items.take (i + 1), ThreadTable.joined target t = false

/-- The thread has had its own record erased, and the reference reaches no other. -/
structure SliceRun.Gone (s : ThreadTable) (i : Nat) (r : SliceRun) : Prop where
  erased : r.place = none
  unreached : r.table.threads.storage = s.threads.storage → r.table.threads.items.length ≤ i

instance SliceRun.undisturbedDecidable (i : Nat) (r : SliceRun) : ∀ c, Decidable (r.Undisturbed i c)
  | .create _ => inferInstanceAs (Decidable (_ → _))
  | .exit => isTrue trivial
  | .join _ => inferInstanceAs (Decidable (∀ t ∈ _, _))

namespace SliceRun

/-! ## The place that is followed -/

variable {L : Layout} {t : ArmThread} {r : SliceRun}

theorem Follows.step (h : r.Follows t) (c : SliceCall) : (r.step L t.id c).Follows t := by
  intro k hk
  cases c with
  | create call =>
    obtain ⟨t', ht', hsame⟩ := h k hk
    refine ⟨t', ?_, hsame⟩
    rw [SliceRun.step, SliceCall.op, ThreadTable.step]
    rcases r.table.threads_svcPthreadCreate L call with ⟨-, hpush⟩ | ⟨-, hkept⟩
    · rw [hpush, items_pushBack, getElem?_append_left]
      · exact ht'
      · exact (List.getElem?_eq_some_iff.mp ht').1
    · rw [hkept]
      exact ht'
  | exit =>
    obtain ⟨t', ht', hsame⟩ := h k hk
    rw [SliceRun.step, SliceCall.op, ThreadTable.step]
    rcases r.table.threads_svcPthreadExit t.id with ⟨i, hretire⟩ | hkept
    · rw [hretire, items_modify, getElem?_modify, ht']
      by_cases hfound : i = k
      · exact ⟨t'.retire, by simp [hfound], hsame⟩
      · exact ⟨t', by simp [hfound], hsame⟩
    · rw [hkept]
      exact ⟨t', ht', hsame⟩
  | join target =>
    obtain ⟨i, hi, hsurvives⟩ := bind_eq_some_iff.mp hk
    obtain ⟨t', ht', hsame⟩ := h i hi
    exact ⟨t', (CppVector.getElem?_survivor hsurvives).trans ht', hsame⟩

variable {s : ThreadTable}

variable {i : Nat} {cs : List SliceCall}

/-- The right record is followed whatever the calls were. -/
theorem calls_follows (L : Layout)
    (ht : s.threads.items[i]? = some t) (cs : List SliceCall) : (calls L s i t cs).Follows t := by
  have hstart : (start s i).Follows t := by
    rintro k ⟨⟩
    exact ⟨t, ht, rfl, rfl⟩
  exact run_always (fun r c hr => hr.step c) hstart cs

/-! ## Undisturbed slices -/

/-- The reference taken when the slice began still points to the record of the thread
that runs. -/
structure Held (storage i : Nat) (r : SliceRun) : Prop where
  place : r.place = some i
  current : storage = r.table.threads.storage
  live : i < r.table.threads.items.length

variable {storage i tid : Nat}

theorem Held.step (h : r.Held storage i)
    {c : SliceCall} (hc : r.Undisturbed i c) : (r.step L tid c).Held storage i := by
  cases c with
  | create call =>
    rw [SliceRun.step, SliceCall.op, ThreadTable.step]
    rcases r.table.threads_svcPthreadCreate L call with ⟨hcreates, hpush⟩ | ⟨-, hkept⟩
    · refine ⟨h.place, ?_, ?_⟩
      · rw [hpush, storage_pushBack (hc hcreates)]
        exact h.current
      · rw [hpush, items_pushBack, length_append]
        exact Nat.lt_add_right _ h.live
    · rw [hkept]
      exact { h with }
  | exit =>
    rw [SliceRun.step, SliceCall.op, ThreadTable.step]
    rcases r.table.threads_svcPthreadExit tid with ⟨k, hretire⟩ | hkept
    · refine ⟨h.place, ?_, ?_⟩
      · rw [hretire]
        exact h.current
      · rw [hretire, items_modify, length_modify]
        exact h.live
    · rw [hkept]
      exact { h with }
  | join target =>
    have hsurvives := survivor_of_kept h.live hc
    refine ⟨?_, h.current, ?_⟩
    · simp only [SliceRun.step, h.place]
      exact hsurvives
    · have hfound := CppVector.getElem?_survivor hsurvives
      rw [getElem?_eq_getElem h.live] at hfound
      exact (List.getElem?_eq_some_iff.mp hfound).1

theorem start_held (ht : s.threads.items[i]? = some t) : (start s i).Held s.threads.storage i :=
  ⟨rfl, rfl, (List.getElem?_eq_some_iff.mp ht).1⟩

theorem calls_held (ht : s.threads.items[i]? = some t)
    (hcs : StepsMeet (Undisturbed i) (step L t.id) (start s i) cs) :
    (calls L s i t cs).Held s.threads.storage i :=
  run_invariant (fun _ _ hr hc => hr.step hc) (start_held ht) hcs

/-- A store through a reference that still holds reaches the record at its index. -/
theorem Held.items_endSlice {v : CppVector ArmThread}
    (h : r.Held v.storage i) (L : Layout) (e : SliceEnd) :
    (r.table.endSlice L (v.ref i) e).threads.items =
      r.table.threads.items.modify i fun t => t.endSlice L e := by
  have hcurrent := h.current
  rw [ThreadTable.endSlice, modifyRef_of_current hcurrent]
  rfl

theorem Gone.items_endSlice (h : r.Gone s i) (L : Layout) (e : SliceEnd) :
    (r.table.endSlice L (s.threads.ref i) e).threads.items = r.table.threads.items := by
  by_cases hcurrent : (s.threads.ref i).storage = r.table.threads.storage
  · rw [ThreadTable.endSlice, modifyRef_of_current hcurrent]
    exact modify_eq_self (h.unreached hcurrent.symm)
  · rw [ThreadTable.endSlice, modifyRef_of_stale hcurrent]

/-! ## What a slice cannot undo -/

/-- Storage that was given up is not taken again, and a record only moves down. -/
structure Later (r r' : SliceRun) : Prop where
  storage_le : r.table.threads.storage ≤ r'.table.threads.storage
  place_le : ∀ k', r'.place = some k' → ∃ k, r.place = some k ∧ k' ≤ k

theorem Later.refl (r : SliceRun) : r.Later r := ⟨le_rfl, fun k hk => ⟨k, hk, le_rfl⟩⟩

theorem Later.trans {r' r'' : SliceRun} (h : r.Later r') (h' : r'.Later r'') : r.Later r'' := by
  refine ⟨h.storage_le.trans h'.storage_le, fun k'' hk'' => ?_⟩
  obtain ⟨k', hk', hle'⟩ := h'.place_le k'' hk''
  obtain ⟨k, hk, hle⟩ := h.place_le k' hk'
  exact ⟨k, hk, hle'.trans hle⟩

theorem later_step (L : Layout) (tid : Nat) (r : SliceRun) (c : SliceCall) :
    r.Later (r.step L tid c) := by
  cases c with
  | create call =>
    refine ⟨?_, fun k hk => ⟨k, hk, le_rfl⟩⟩
    rw [SliceRun.step, SliceCall.op, ThreadTable.step]
    rcases r.table.threads_svcPthreadCreate L call with ⟨-, hpush⟩ | ⟨-, hkept⟩
    · rw [hpush]
      exact storage_le_pushBack ..
    · rw [hkept]
  | exit =>
    refine ⟨?_, fun k hk => ⟨k, hk, le_rfl⟩⟩
    rw [SliceRun.step, SliceCall.op, ThreadTable.step]
    rcases r.table.threads_svcPthreadExit tid with ⟨i, hretire⟩ | hkept
    · rw [hretire]
      exact le_rfl
    · rw [hkept]
  | join target =>
    refine ⟨le_rfl, fun k' hk' => ?_⟩
    obtain ⟨k, hk, hsurvives⟩ := bind_eq_some_iff.mp hk'
    exact ⟨k, hk, survivor_le hsurvives⟩

theorem later_run (L : Layout) (tid : Nat) (r : SliceRun) (cs : List SliceCall) :
    r.Later (run (step L tid) r cs) :=
  run_always (fun _ c hr => hr.trans (later_step L tid _ c)) (Later.refl r) cs

theorem Held.undisturbed
    (h : r.Held storage i) {c : SliceCall} (hplace : (r.step L tid c).place = some i)
    (hcurrent : (r.step L tid c).table.threads.storage = storage) : r.Undisturbed i c := by
  cases c with
  | create call =>
    intro hcreates
    by_contra hfull
    rw [SliceRun.step, SliceCall.op, ThreadTable.step] at hcurrent
    rcases r.table.threads_svcPthreadCreate L call with ⟨-, hpush⟩ | ⟨hnot, -⟩
    · rw [hpush, storage_pushBack_of_full hfull, h.current] at hcurrent
      omega
    · exact hnot hcreates
  | exit => trivial
  | join target =>
    simp only [SliceRun.step, h.place] at hplace
    exact kept_of_survivor hplace

/-- If the reference holds at the end, no call has disturbed the record: what one call
breaks, no later call repairs. -/
theorem Held.stepsMeet
    (h : r.Held storage i) (hplace : (run (SliceRun.step L tid) r cs).place = some i)
    (hcurrent : (run (SliceRun.step L tid) r cs).table.threads.storage = storage) :
    StepsMeet (Undisturbed i) (SliceRun.step L tid) r cs := by
  induction cs generalizing r with
  | nil => trivial
  | cons c cs ih =>
    have hfirst := later_step L tid r c
    have hrest := later_run L tid (r.step L tid c) cs
    obtain ⟨k, hk, hik⟩ := hrest.place_le i hplace
    obtain ⟨k', hk', hki⟩ := hfirst.place_le k hk
    obtain rfl : i = k' := some.inj (h.place.symm.trans hk')
    obtain rfl : i = k := le_antisymm hik hki
    have hstorage : (r.step L tid c).table.threads.storage = storage := by
      apply le_antisymm
      · exact hrest.storage_le.trans_eq hcurrent
      · exact h.current.trans_le hfirst.storage_le
    have hc := h.undisturbed hk hstorage
    exact ⟨hc, ih (h.step hc) hplace hcurrent⟩

end SliceRun

/-! ## The store -/

/-- An end of a slice that changes every record it is stored into. -/
def tickEnd (isArm64 : Bool) : SliceEnd :=
  if isArm64 then .a64 ⟨fun _ => 0, 0, 0, 0, fun _ => 0, 0, 0⟩ 1
  else .a32 ⟨fun _ => 0, fun _ => 0, 0, 0⟩ 1 false

theorem isArm64_tickEnd (isArm64 : Bool) : (tickEnd isArm64).isArm64 = isArm64 := by
  cases isArm64 <;> rfl

theorem endSlice_tickEnd_ne (L : Layout) (t : ArmThread) (isArm64 : Bool) :
    t.endSlice L (tickEnd isArm64) ≠ t := by
  have hticks : (t.endSlice L (tickEnd isArm64)).totalTicks = (t.totalTicks + 1) % 2 ^ 64 := by
    cases isArm64 <;> rfl
  intro heq
  rw [heq] at hticks
  omega

/-- A store that is written back reached a reference that holds, or had nothing to
reach. -/
theorem WritesBack.held_or_gone {L : Layout} {s : ThreadTable} {t : ArmThread}
    (h : WritesBack L s i t cs) : ((SliceRun.calls L s i t cs).place = some i ∧
      (SliceRun.calls L s i t cs).table.threads.storage = s.threads.storage) ∨
    (SliceRun.calls L s i t cs).Gone s i := by
  have hstored := h.stored _ (isArm64_tickEnd _)
  have hfollows := h.follows
  generalize SliceRun.calls L s i t cs = r at hstored hfollows ⊢
  by_cases hcurrent : r.table.threads.storage = s.threads.storage
  · have hcurrent' : (s.threads.ref i).storage = r.table.threads.storage := hcurrent.symm
    simp only [ThreadTable.endSlice, modifyRef_of_current hcurrent',
      items_modify, getElem?_modify] at hstored
    cases hplace : r.place with
    | some k =>
      obtain ⟨t', ht', -⟩ := hfollows k hplace
      by_cases hik : i = k
      · exact .inl ⟨by rw [hik], hcurrent⟩
      · have hk := hstored k
        simp only [CppVector.ref, hik, hplace, ht'] at hk
        exact absurd (some.inj hk).symm (endSlice_tickEnd_ne L t' _)
    | none =>
      refine .inr ⟨hplace, fun _ => ?_⟩
      by_contra hlt
      have hi := hstored i
      rw [getElem?_eq_getElem (by omega)] at hi
      simp only [CppVector.ref, hplace] at hi
      exact absurd (some.inj hi) (endSlice_tickEnd_ne L _ _)
  · have hstale : (s.threads.ref i).storage ≠ r.table.threads.storage := Ne.symm hcurrent
    simp only [ThreadTable.endSlice, modifyRef_of_stale hstale] at hstored
    cases hplace : r.place with
    | some k =>
      obtain ⟨t', ht', -⟩ := hfollows k hplace
      have hk := hstored k
      rw [hplace, if_pos rfl, ht'] at hk
      exact absurd (some.inj hk).symm (endSlice_tickEnd_ne L t' _)
    | none => exact .inr ⟨hplace, fun heq => absurd heq hcurrent⟩

/-- **Slice write-back.** The store at the end of a slice puts the context into the record of the
thread that ran and changes no other exactly when no creation reallocated the vector and no join
erased a record at or before it, or its own was erased and the reference reaches no other. -/
theorem writesBack_iff (L : Layout) (s : ThreadTable) (i : Nat) (t : ArmThread)
    (ht : s.threads.items[i]? = some t) (cs : List SliceCall) :
    WritesBack L s i t cs ↔
      StepsMeet (SliceRun.Undisturbed i) (SliceRun.step L t.id) (SliceRun.start s i) cs ∨
        (SliceRun.calls L s i t cs).Gone s i := by
  constructor
  · intro h
    rcases h.held_or_gone with ⟨hplace, hcurrent⟩ | hgone
    · exact .inl ((SliceRun.start_held ht).stepsMeet hplace hcurrent)
    · exact .inr hgone
  intro h
  refine ⟨SliceRun.calls_follows L ht cs, fun e _ j => ?_⟩
  rcases h with hcs | hgone
  · have hheld := SliceRun.calls_held ht hcs
    rw [hheld.items_endSlice L e, hheld.place]
    by_cases hj : i = j
    · simp [hj]
    · simp [hj]
  · rw [hgone.items_endSlice L e, hgone.erased]
    simp

/-- A table in which `n` threads have been created. -/
def threadsStarted (L : Layout) (n : Nat) : ThreadTable :=
  run (ThreadTable.step L) (ThreadTable.initial L)
    (List.replicate n (.create startCall))

/-- The record at a place of a table that has one there. -/
def ThreadTable.recordAt (s : ThreadTable) (i : Nat) : ArmThread :=
  (s.threads.items[i]?).getD {}

theorem ThreadTable.getElem?_recordAt {s : ThreadTable}
    (h : i < s.threads.items.length) : s.threads.items[i]? = some (s.recordAt i) := by
  rw [recordAt, getElem?_eq_getElem h, getD_some]

/-- An A64 slice of 100 ticks that ends at the given PC. -/
def sliceEnd64 (pc : Nat) : SliceEnd :=
  .a64 ⟨fun _ => 7, a64GuestVa 0xd4f0000, pc, 0, fun _ => 0, 0, 0⟩ 100

/-- An A32 slice of 100 ticks that ends with the PC and every other register as given. -/
def sliceEnd32 (pc : Nat) : SliceEnd := .a32 ⟨fun _ => pc, fun _ => 0, 0x10, 0⟩ 100 false

/-- The third of three threads exits after it has created a fourth, for which the vector
has room. -/
theorem writesBack_createAndExit : (threadsStarted (defaultLayout true) 3).threads.HasRoom ∧
    WritesBack (defaultLayout true) (threadsStarted (defaultLayout true) 3) 2
      ((threadsStarted (defaultLayout true) 3).recordAt 2) [.create startCall, .exit] :=
  ⟨by decide, (writesBack_iff _ _ 2 _ (ThreadTable.getElem?_recordAt (by decide)) _).mpr
    (.inl (by decide))⟩

/-- Three A32 threads, the first of which has exited. -/
def firstExited : ThreadTable :=
  (threadsStarted (defaultLayout false) 3).step (defaultLayout false) (.exit 2)

/-- An A64 thread creates a second, which reallocates the vector: its context is lost. The second of
three A32 threads joins the first: its context goes to the third. -/
theorem not_writesBack_createOrJoin :
    ¬ WritesBack (defaultLayout true) (threadsStarted (defaultLayout true) 1) 0
      ((threadsStarted (defaultLayout true) 1).recordAt 0) [.create startCall] ∧
    ¬ WritesBack (defaultLayout false) firstExited 1 (firstExited.recordAt 1) [.join 2] := by
  constructor
  · intro h
    have hstored := h.stored (sliceEnd64 (a64GuestVa 0x10040)) (by decide) 0
    exact absurd (congrArg (Option.map ArmThread.totalTicks) hstored) (by decide)
  · intro h
    have hstored := h.stored (sliceEnd32 0x10040) (by decide) 1
    exact absurd (congrArg (Option.map ArmThread.totalTicks) hstored) (by decide)

end Lunaria
