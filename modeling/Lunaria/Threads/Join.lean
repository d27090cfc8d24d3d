/-
# Joining a thread

`pthread_join` looks for the record of its target and calls `schedule_threads` until the
record is gone or finished, at most `LUNARIA_JOIN_SPINS` times; then it stores a zero word
through the result pointer, erases the finished records of the target and returns zero. The
program keeps no exit values. Called by a worker the loop does nothing, because a pass is
under way and `schedule_threads` refuses to be entered again.

The machine below has the table of records, how every thread ended, and what each join
found when it returned.
-/

import Lunaria.Threads.Ids
import Lunaria.Threads.Slice

namespace Lunaria

open Lib List CppVector

/-! ## The machine -/

/-- How a thread ended: its start function returned, it called `pthread_exit`, or the
scheduler gave it up. -/
inductive Ending where
  | returned (value : Nat)
  | exited (value : Nat)
  | retired
  deriving DecidableEq

/-- The exit value, if there is one. -/
def Ending.value : Ending → Option Nat
  | .returned value | .exited value => some value
  | .retired => none

/-- What the end of a slice says about a thread it finishes. -/
def SliceEnd.ending (L : Layout) (e : SliceEnd) : Ending :=
  match e.returnValue L with
  | some value => .returned value
  | none => .retired

/-- A join of the main thread under way: its target and whether that had a record, its result
pointer, and the passes left. -/
structure JoinWait where
  target : Nat
  existed : Bool
  retval : Nat
  left : Nat
  deriving DecidableEq

/-- A join that has returned: caller, target and whether that had a record, how it had ended, the
eight bytes at the result pointer before and after, and the passes made. -/
structure JoinReturn where
  caller : Nat
  target : Nat
  existed : Bool
  ending : Option Ending
  result : Option (Nat × Nat)
  passes : Nat
  deriving DecidableEq

/-- The table, the arena, whether a pass is under way, the join the main thread is in, how threads
ended, and the joins that have returned. -/
structure JoinRun where
  table : ThreadTable
  mem : ByteMemory
  inPass : Bool
  waiting : Option JoinWait
  endings : List (Nat × Ending)
  returns : List JoinReturn

/-- Something writes to memory, a pass begins or ends, the slice of `tid` ends, the pass gives up a
thread, a thread is created, exits or joins, or the main thread's join takes a turn. -/
inductive JoinOp where
  | store (mem : ByteMemory)
  | passBegins
  | passEnds
  | slice (tid : Nat) (held : CppVector.Ref) (e : SliceEnd)
  | retire (i : Nat)
  | create (call : CreateCall)
  | exit (caller value : Nat)
  | join (caller target retval : Nat)
  | poll

namespace JoinRun

variable (L : Layout) (limit : Nat)

def initial : JoinRun := ⟨ThreadTable.initial L, fun _ => 0, false, none, [], []⟩

variable (s : JoinRun)

/-- The first record of the thread exists and is not finished. -/
def stillRuns (target : Nat) : Bool :=
  (s.table.threads.items.find? fun t => t.id == target).any fun t => !t.finished

/-- The record a slice's end is stored into, unless the reference has become invalid. -/
def stored (held : CppVector.Ref) : Option ArmThread :=
  if held.storage = s.table.threads.storage then s.table.threads.items[held.index]? else none

/-- The end of a slice finishes the record it is stored into. -/
def finishes (held : CppVector.Ref) (e : SliceEnd) : Bool :=
  (s.stored held).any fun t => !t.finished && (t.endSlice L e).finished

/-- The part of `pthread_join` after its loop. -/
def finishJoin (caller target : Nat) (existed : Bool) (retval passes : Nat) :
    JoinRun :=
  let mem := if retval ≠ 0 then s.mem.write32 retval 0 else s.mem
  { s with
      table := s.table.svcPthreadJoin target
      mem := mem
      returns := ⟨caller, target, existed, s.endings.lookup target,
        if retval ≠ 0 then some (s.mem.readLE retval 8, mem.readLE retval 8) else none,
        passes⟩ :: s.returns }

def step : JoinOp → JoinRun
  | .store mem => { s with mem := mem }
  | .passBegins => if s.inPass then s else { s with inPass := true }
  | .passEnds => { s with inPass := false }
  | .slice tid held e =>
    { s with
        table := s.table.endSlice L held e
        endings := if s.finishes L held e then (tid, e.ending L) :: s.endings else s.endings }
  | .retire i =>
    { s with
        table := { s.table with threads := s.table.threads.modify i ArmThread.retire }
        endings := (s.table.threads.items[i]?.toList.map fun t => (t.id, .retired)) ++ s.endings }
  | .create call =>
    { s with
        table := s.table.svcPthreadCreate L call
        endings := if s.table.Creates call then
            s.endings.filter fun p => decide (p.1 ≠ s.table.nextId)
          else s.endings }
  | .exit caller value =>
    if caller ≠ 0 then
      { s with table := s.table.svcPthreadExit caller
               endings := (caller, .exited value) :: s.endings }
    else s
  | .join caller target retval =>
    -- a worker calls inside a pass, where `schedule_threads` returns at once
    if caller ≠ 0 then s.finishJoin caller target (s.table.ids.contains target) retval 0
    else if s.inPass ∨ s.waiting ≠ none then s
    else { s with waiting := some ⟨target, s.table.ids.contains target, retval, limit⟩ }
  | .poll =>
    match s.waiting with
    | some w =>
      if s.inPass then s
      else if w.left = 0 ∨ s.stillRuns w.target = false then
        { s.finishJoin 0 w.target w.existed w.retval (limit - w.left) with waiting := none }
      else { s with inPass := true, waiting := some { w with left := w.left - 1 } }
    | none => s

/-- Every join of another thread with a record returned after its end and delivered the exit value,
a pointer of the guest's width. -/
def Delivers : Prop :=
  ∀ r ∈ s.returns, r.existed = true → r.caller ≠ r.target →
    ∃ value, r.ending.bind Ending.value = some value ∧
      ∀ bytes ∈ r.result, bytes.2 % (if L.isArm64 then 2 ^ 64 else 2 ^ 32) = value

/-- Every join of the main thread on a record returned after the target's end, or after all its
passes, and stored the word zero if anything: the four bytes behind it are as before. -/
def Waits : Prop :=
  ∀ r ∈ s.returns, r.existed = true → r.caller = 0 →
    (r.passes = limit ∨ r.ending ≠ none) ∧
      ∀ bytes ∈ r.result, bytes.2 % 2 ^ 32 = 0 ∧ bytes.2 / 2 ^ 32 = bytes.1 / 2 ^ 32

/-- A new thread gets an id that no record has, and the end of a slice is stored into the
record of the thread that ran. -/
def Regular : JoinOp → Prop
  | .create call => s.table.Creates call → s.table.nextId ∉ s.table.ids
  | .slice tid held _ => ∀ t ∈ s.stored held, t.id = tid
  | _ => True

instance regularDecidable : ∀ op, Decidable (s.Regular op)
  | .create _ => inferInstanceAs (Decidable (_ → _ ∉ _))
  | .slice _ held _ => inferInstanceAs (Decidable (∀ t ∈ s.stored held, _))
  | .store _ | .passBegins | .passEnds | .retire _ | .exit _ _ | .join _ _ _ | .poll =>
    isTrue trivial

/-! ## A finished record is that of a thread that has ended -/

def Ended (tid : Nat) : Prop := ∃ e, (tid, e) ∈ s.endings

variable {L limit} {s s' : JoinRun} {tid : Nat}

theorem Ended.mono (h : s.Ended tid) (hsub : s.endings ⊆ s'.endings) : s'.Ended tid :=
  h.imp fun _ he => hsub he

theorem Ended.lookup_ne_none (h : s.Ended tid) : s.endings.lookup tid ≠ none := by
  obtain ⟨e, he⟩ := h
  intro hnone
  exact absurd (lookup_eq_none_iff.mp hnone _ he) (by simp)

/-- Finished records belong to threads that have ended, and the target of the main thread's
join has a record or has ended. -/
structure Sound (limit : Nat) (s : JoinRun) : Prop where
  finished : ∀ t ∈ s.table.threads.items, t.finished = true → s.Ended t.id
  target : ∀ w, s.waiting = some w → w.existed = true → w.target ∈ s.table.ids ∨ s.Ended w.target
  waits : s.Waits limit

theorem mem_ids : tid ∈ s.table.ids ↔ ∃ t ∈ s.table.threads.items, t.id = tid := mem_map

section

variable (h : s.Sound limit)
include h

theorem Sound.ended_of_not_stillRuns {w : JoinWait} (hw : s.waiting = some w) (hexisted : w.existed)
    (hstop : s.stillRuns w.target = false) : s.Ended w.target := by
  rcases h.target w hw hexisted with hmem | hended
  · obtain ⟨t, ht, htid⟩ := mem_ids.mp hmem
    cases hfind : s.table.threads.items.find? fun t => t.id == w.target with
    | none =>
      have hne := find?_eq_none.mp hfind t ht
      exact absurd htid (by simpa using hne)
    | some u =>
      have hfin : u.finished := by simpa [stillRuns, hfind] using hstop
      have huid : u.id = w.target := by simpa using find?_some hfind
      exact huid ▸ h.finished u (mem_of_find?_eq_some hfind) hfin
  · exact hended

/-- Events that neither erase nor append: the ids stay, and what is finished was so or has ended. -/
theorem Sound.modify {i : Nat} {write : ArmThread → ArmThread} (hid : ∀ t, (write t).id = t.id)
    (hitems : s'.table.threads.items = s.table.threads.items.modify i write)
    (hwaiting : s'.waiting = s.waiting) (hreturns : s'.returns = s.returns)
    (hsub : s.endings ⊆ s'.endings)
    (hended : ∀ t, s.table.threads.items[i]? = some t → t.finished = false →
      (write t).finished → s'.Ended t.id) : s'.Sound limit where
  finished := by
    intro u hu hfin
    rw [hitems] at hu
    rcases mem_modify hu with hold | ⟨t, ht, rfl⟩
    · exact (h.finished u hold hfin).mono hsub
    · rw [hid]
      cases hwas : t.finished with
      | true => exact (h.finished t (mem_of_getElem? ht) hwas).mono hsub
      | false => exact hended t ht hwas hfin
  target := by
    intro w hw hexisted
    have hids : s'.table.ids = s.table.ids := by
      rw [ThreadTable.ids, hitems, map_modify_of_fixed hid, ThreadTable.ids]
    rw [hids]
    exact (h.target w (hwaiting ▸ hw) hexisted).imp_right fun hw => hw.mono hsub
  waits := by
    intro r hr
    exact h.waits r (hreturns ▸ hr)

theorem Sound.slice {held : CppVector.Ref} {e : SliceEnd}
    (hreg : s.Regular (.slice tid held e)) : (s.step L limit (.slice tid held e)).Sound limit := by
  by_cases hcur : held.storage = s.table.threads.storage
  · have hitems : (s.table.endSlice L held e).threads.items =
        s.table.threads.items.modify held.index fun t => t.endSlice L e := by
      rw [ThreadTable.endSlice, modifyRef_of_current hcur, items_modify]
    refine h.modify (fun t => (t.sameThread_endSlice L e).1) hitems rfl rfl ?_ ?_
    · simp only [step]
      split
      · exact subset_cons_self ..
      · exact List.Subset.refl _
    · intro t ht hwas hfin
      have hstored : s.stored held = some t := by rw [stored, if_pos hcur, ht]
      have hfinishes : s.finishes L held e := by simp [finishes, hstored, hwas, hfin]
      rw [hreg t hstored]
      refine ⟨e.ending L, ?_⟩
      simp [step, hfinishes]
  · -- the reference is into storage the vector has left
    have hnone : s.stored held = none := if_neg hcur
    have hsame : s.step L limit (.slice tid held e) = s := by
      simp [step, finishes, hnone, ThreadTable.endSlice, modifyRef_of_stale hcur]
    rw [hsame]
    exact h

theorem Sound.retire (i : Nat) : (s.step L limit (.retire i)).Sound limit := by
  refine h.modify (fun t => t.sameThread_retire.1)
    (s.table.threads.items_modify i ArmThread.retire) rfl rfl (subset_append_right ..) ?_
  intro t ht _ _
  refine ⟨.retired, mem_append_left _ ?_⟩
  simp [ht]

theorem Sound.exit (caller value : Nat) : (s.step L limit (.exit caller value)).Sound limit := by
  simp only [step]
  split
  · rename_i hworker
    have hitems : (s.table.svcPthreadExit caller).threads.items =
        s.table.threads.items.modify (s.table.threads.items.findIdx fun t => t.id == caller)
          ArmThread.retire := by
      rw [ThreadTable.svcPthreadExit, if_pos hworker, CppVector.modifyFirst, items_modify]
    refine h.modify (fun t => t.sameThread_retire.1) hitems rfl rfl (subset_cons_self ..) ?_
    intro t ht _ _
    obtain ⟨hlt, rfl⟩ := List.getElem?_eq_some_iff.mp ht
    have hcaller := findIdx_getElem (w := hlt)
    rw [eq_of_beq hcaller]
    exact ⟨.exited value, mem_cons_self⟩
  · exact h

/-- A new thread has an id that no record has, so what is forgotten about that id is about no
thread in the table. -/
theorem Sound.create {call : CreateCall} (hreg : s.Regular (.create call)) :
    (s.step L limit (.create call)).Sound limit := by
  by_cases hcreates : s.table.Creates call
  · have hfresh : s.table.nextId ∉ s.table.ids := hreg hcreates
    have hitems : (s.table.svcPthreadCreate L call).threads.items =
        s.table.threads.items ++ [s.table.newThread L call] := by
      simp [ThreadTable.svcPthreadCreate, hcreates]
    have hkept : ∀ tid, tid ≠ s.table.nextId → s.Ended tid →
        (s.step L limit (.create call)).Ended tid := by
      rintro tid hne ⟨e, he⟩
      refine ⟨e, ?_⟩
      simp [step, hcreates, he, hne]
    refine ⟨?_, ?_, h.waits⟩
    · intro t ht hfin
      rw [step, hitems, mem_append, mem_singleton] at ht
      rcases ht with hold | rfl
      · have hne : t.id ≠ s.table.nextId := by
          intro heq
          exact hfresh (heq ▸ mem_ids.mpr ⟨t, hold, rfl⟩)
        exact hkept _ hne (h.finished t hold hfin)
      · rw [ThreadTable.newThread_finished] at hfin
        cases hfin
    · intro w hw hexisted
      have hids : (s.step L limit (.create call)).table.ids = s.table.ids ++ [s.table.nextId] := by
        simp [ThreadTable.ids, step, hitems]
      rw [hids, mem_append, mem_singleton]
      by_cases hnew : w.target = s.table.nextId
      · exact .inl (.inr hnew)
      · exact (h.target w hw hexisted).imp .inl (hkept _ hnew)
  · have hsame : s.step L limit (.create call) = s := by
      simp [step, ThreadTable.svcPthreadCreate, hcreates]
    rw [hsame]
    exact h

end

theorem readLE_write32_zero (m : ByteMemory) (p : Nat) :
    (m.write32 p 0).readLE p 8 % 2 ^ 32 = 0 ∧
      (m.write32 p 0).readLE p 8 / 2 ^ 32 = m.readLE p 8 / 2 ^ 32 := by
  have hnew : (m.write32 p 0).readLE p 8 = _ := (m.write32 p 0).readLE_add p 4 4
  have hold : m.readLE p 8 = _ := m.readLE_add p 4 4
  have hlow : (m.write32 p 0).readLE p 4 = 0 := m.readLE_writeLE p 4 0
  have hhigh : (m.write32 p 0).readLE (p + 4) 4 = m.readLE (p + 4) 4 :=
    m.readLE_writeLE_of_disjoint 0 (.inr le_rfl)
  have hlt : m.readLE p 4 < 256 ^ 4 := m.readLE_lt p 4
  omega

section

variable (h : s.Sound limit)
include h

/-- What a join erases are records of a thread that has ended. -/
theorem Sound.finishJoin {caller target retval passes : Nat} {existed : Bool}
    (hwaits : existed → caller = 0 → passes = limit ∨ s.Ended target) :
    (s.finishJoin caller target existed retval passes).Sound limit where
  finished := by
    intro t ht hfin
    exact h.finished t (mem_of_mem_filter ht) hfin
  target := by
    intro w hw hexisted
    rcases h.target w hw hexisted with hmem | hended
    · obtain ⟨t, ht, htid⟩ := mem_ids.mp hmem
      by_cases hgone : ThreadTable.joined target t
      · have hfin : t.finished := (Bool.and_eq_true_iff.mp hgone).2
        exact .inr (htid ▸ h.finished t ht hfin)
      · refine .inl (mem_ids.mpr ⟨t, ?_, htid⟩)
        exact mem_filter.mpr ⟨ht, by simpa using hgone⟩
    · exact .inr hended
  waits := by
    intro r hr hexisted hmain
    rcases mem_cons.mp hr with rfl | hold
    · refine ⟨(hwaits hexisted hmain).imp_right Ended.lookup_ne_none, fun bytes hbytes => ?_⟩
      by_cases hnull : retval = 0
      · simp [hnull] at hbytes
      · simp only [ne_eq, hnull, not_false_eq_true, if_true, Option.mem_some_iff] at hbytes
        exact hbytes ▸ readLE_write32_zero s.mem retval
    · exact h.waits r hold hexisted hmain

/-- The main thread's join starts with a target that has a record, goes on with one pass less
to make, or is over. -/
theorem Sound.await {waiting : Option JoinWait} {inPass : Bool}
    (hwaiting : ∀ w, waiting = some w → w.existed → w.target ∈ s.table.ids ∨ s.Ended w.target) :
    Sound limit { s with waiting, inPass } where
  finished := h.finished
  target := hwaiting
  waits := h.waits

theorem Sound.join (caller target retval : Nat) :
    (s.step L limit (.join caller target retval)).Sound limit := by
  simp only [step]
  split
  · rename_i hworker
    exact h.finishJoin fun _ hmain => absurd hmain hworker
  split
  · exact h
  · refine h.await ?_
    rintro w ⟨⟩ hexisted
    exact .inl (contains_iff_mem.mp hexisted)

theorem Sound.poll : (s.step L limit .poll).Sound limit := by
  simp only [step]
  split
  · rename_i w hw
    split
    · exact h
    split
    · rename_i hover
      have hjoined : (s.finishJoin 0 w.target w.existed w.retval (limit - w.left)).Sound limit := by
        refine h.finishJoin ?_
        intro hexisted _
        rcases hover with hleft | hstop
        · exact .inl (by rw [hleft, Nat.sub_zero])
        · exact .inr (h.ended_of_not_stillRuns hw hexisted hstop)
      exact hjoined.await nofun
    · refine h.await ?_
      rintro w' ⟨⟩ hexisted
      exact h.target w hw hexisted
  · exact h

end

theorem Sound.step {op : JoinOp} (h : s.Sound limit) (hreg : s.Regular op) :
    (s.step L limit op).Sound limit := by
  cases op with
  | store mem => exact ⟨h.finished, h.target, h.waits⟩
  | passBegins =>
    simp only [JoinRun.step]
    split
    · exact h
    · exact h.await h.target
  | passEnds => exact h.await h.target
  | slice tid held e => exact h.slice hreg
  | retire i => exact h.retire i
  | create call => exact h.create hreg
  | exit caller value => exact h.exit caller value
  | join caller target retval => exact h.join caller target retval
  | poll => exact h.poll

theorem sound_initial (L : Layout) (limit : Nat) : (initial L).Sound limit where
  finished := nofun
  target := nofun
  waits := nofun

/-! ## Joins along a run -/

/-- The main thread joins a thread that calls `pthread_exit(7)` in the first pass, with ones in the
result variable. -/
def exitsInFirstPass : List JoinOp :=
  [.store fun _ => 1, .create startCall, .join 0 2 0x8000, .poll, .exit 2 7,
    .slice 2 ⟨1, 0⟩ (sliceEnd32 0x10040), .passEnds, .poll]

/-- One worker joins another that is still running. -/
def workerJoins : List JoinOp :=
  [.create startCall, .create startCall, .passBegins, .join 2 3 0]

/-- The main thread joins a thread that does not end in the one pass the join makes. -/
def givesUp : List JoinOp :=
  [.create startCall, .join 0 2 0, .poll, .passEnds, .poll]

end JoinRun

end Lunaria
