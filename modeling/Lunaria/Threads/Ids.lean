/-
# Thread ids

TLS, `errno`, parking and mutex ownership are all keyed on the id of a record, so two
records in the table must never share one, nor may a record have an id the main thread
answers to. A new id is the length of the vector plus two. That is unused as long as
the records stand where they were created; a join that erases a record in front of a
surviving one breaks this, and the next thread gets the id of the survivor.
-/

import Lunaria.Threads.Records

namespace Lunaria

open Lib List

/-- The main thread runs with `g_current_tid` 0, and `pthread_self` tells it 1. -/
def mainIds : List Nat := [0, 1]

namespace ThreadTable

variable (s : ThreadTable)

def ids : List Nat := s.threads.items.map ArmThread.id

/-- The ids are pairwise different and none is an id of the main thread. -/
def UniqueIds : Prop := s.ids.Nodup ∧ ∀ id ∈ s.ids, id ∉ mainIds

/-- Every record stands where it was created: the ids count up from 2. A record behind
an erased one has moved down and breaks this. -/
def InPlace : Prop :=
  s.ids = (List.range s.threads.items.length).map (· + 2)

/-- A thread is only created while every record stands where it was created. -/
def CreatesInPlace : ThreadOp → Prop
  | .create call => s.Creates call → s.InPlace
  | _ => True

instance createsInPlaceDecidable (s : ThreadTable) : ∀ op, Decidable (s.CreatesInPlace op)
  | .create _ => inferInstanceAs (Decidable (_ → _ = _))
  | .exit _ | .join _ | .endSlice _ _ => isTrue trivial

theorem step_ids (L : Layout) (s : ThreadTable) (op : ThreadOp) :
    (∃ call, op = .create call ∧ s.Creates call ∧ (s.step L op).ids = s.ids ++ [s.nextId] ∧
      (s.step L op).stackNext = u32 (s.stackNext + threadStackSize)) ∨
    ((s.step L op).ids.Sublist s.ids ∧ (s.step L op).stackNext = s.stackNext) := by
  have hkeys := step_keys (fun t t' (h : t.SameThread t') => h.1) L s op
  simp only [newThread_id] at hkeys
  exact hkeys

/-- What every step keeps. Each record owns a stack below the heap, which bounds their number, so
the next id does not wrap around. -/
structure Numbered (s : ThreadTable) : Prop where
  foreign : ∀ id ∈ s.ids, id ∉ mainIds
  stacked : s.ids.length * threadStackSize ≤ s.stackNext
  below : s.stackNext ≤ heapBase

variable {s : ThreadTable}

theorem Numbered.nextId_eq (h : s.Numbered) : s.nextId = s.ids.length + 2 := by
  have hheap := layoutConsts.2.1
  have hbelow := h.below
  have hstacked := h.stacked
  rw [show threadStackSize = 0x100000 from rfl] at hstacked
  have hlen : s.threads.items.length = s.ids.length := (length_map _).symm
  rw [nextId, hlen, u32_of_lt (show s.ids.length < 2 ^ 32 by omega), u32_of_lt (by omega)]

theorem Numbered.step {L : Layout} (h : s.Numbered) (op : ThreadOp) : (s.step L op).Numbered := by
  rcases step_ids L s op with ⟨call, rfl, hcreates, hids, hnext⟩ | ⟨hsub, hnext⟩
  · have hroom : u32 (s.stackNext + threadStackSize) = s.stackNext + threadStackSize := by
      have hheap := layoutConsts.2.1
      have hsize : threadStackSize = 0x100000 := rfl
      have hbelow := h.below
      exact u32_of_lt (by omega)
    refine ⟨?_, ?_, hnext.trans_le hcreates.2⟩
    · intro id hid
      rw [hids, mem_append, mem_singleton] at hid
      rcases hid with hold | rfl
      · exact h.foreign id hold
      · simp [h.nextId_eq, mainIds]
    · rw [hids, hnext, hroom, length_append, length_singleton, Nat.succ_mul]
      exact Nat.add_le_add_right h.stacked _
  · refine ⟨fun id hid => h.foreign id (hsub.subset hid), ?_, hnext.trans_le h.below⟩
    rw [hnext]
    exact (Nat.mul_le_mul_right _ hsub.length_le).trans h.stacked

/-- Appending to records that stand where they were created numbers the new one too. -/
theorem Numbered.nodup_step {L : Layout} (h : s.Numbered)
    (hnodup : s.ids.Nodup) {op : ThreadOp} (hop : s.CreatesInPlace op) :
    (s.step L op).ids.Nodup := by
  rcases step_ids L s op with ⟨call, rfl, hcreates, hids, -⟩ | ⟨hsub, -⟩
  · have hrange : s.ids ++ [s.nextId] = (range (s.ids.length + 1)).map (· + 2) := by
      rw [h.nextId_eq, range_succ, map_append]
      congr 1
      rw [hop hcreates, length_map, length_range]
    rw [hids, hrange]
    exact nodup_range.map fun a b hab => add_right_cancel hab
  · exact hnodup.sublist hsub

theorem numbered_initial (isArm64 : Bool) (heapMb mmap2Base mmap2End : Int) :
    (initial (guestLayoutInit isArm64 heapMb mmap2Base mmap2End)).Numbered where
  foreign := fun _ hid => absurd hid not_mem_nil
  stacked := by
    rw [show (initial _).ids.length = 0 from rfl]
    exact Nat.zero_le _
  below := by
    have hheap := layoutConsts.2.1
    simp only [initial, guestLayoutInit]
    split <;> omega

end ThreadTable

theorem foreignIds_of_run (isArm64 : Bool) (heapMb mmap2Base mmap2End : Int) (ops : List ThreadOp) :
    ∀ id ∈ (run (ThreadTable.step (guestLayoutInit isArm64 heapMb mmap2Base mmap2End))
      (ThreadTable.initial (guestLayoutInit isArm64 heapMb mmap2Base mmap2End)) ops).ids,
      id ∉ mainIds := by
  have hstart := ThreadTable.numbered_initial isArm64 heapMb mmap2Base mmap2End
  exact (run_always (fun s op (hs : s.Numbered) => hs.step op) hstart ops).foreign

/-- **Thread-id uniqueness.** In every run of creations, exits, slice ends and joins in which
threads are created only while every record stands where it was created, the ids are pairwise
different and none is the main thread's. -/
theorem uniqueIds_of_run (isArm64 : Bool) (heapMb mmap2Base mmap2End : Int) (ops : List ThreadOp)
    (hops : StepsMeet ThreadTable.CreatesInPlace
      (ThreadTable.step (guestLayoutInit isArm64 heapMb mmap2Base mmap2End))
      (ThreadTable.initial (guestLayoutInit isArm64 heapMb mmap2Base mmap2End)) ops) :
    (run (ThreadTable.step (guestLayoutInit isArm64 heapMb mmap2Base mmap2End))
      (ThreadTable.initial (guestLayoutInit isArm64 heapMb mmap2Base mmap2End)) ops).UniqueIds := by
  refine ⟨?_, foreignIds_of_run isArm64 heapMb mmap2Base mmap2End ops⟩
  have hstart := ThreadTable.numbered_initial isArm64 heapMb mmap2Base mmap2End
  generalize guestLayoutInit isArm64 heapMb mmap2Base mmap2End = L at hops hstart ⊢
  have preserved : ∀ (s : ThreadTable) op, s.Numbered ∧ s.ids.Nodup → s.CreatesInPlace op →
      (s.step L op).Numbered ∧ (s.step L op).ids.Nodup :=
    fun s op hs hop => ⟨hs.1.step op, hs.1.nodup_step hs.2 hop⟩
  exact (run_invariant preserved ⟨hstart, nodup_nil⟩ hops).2

/-- Two threads, the younger of which exits, is joined and is replaced. -/
def youngestJoined : List ThreadOp :=
  [.create startCall, .create startCall, .exit 3, .join 3, .create startCall]

theorem uniqueIds_youngestJoined :
    (run (ThreadTable.step (defaultLayout true)) (ThreadTable.initial (defaultLayout true))
      youngestJoined).UniqueIds ∧
    (run (ThreadTable.step (defaultLayout true)) (ThreadTable.initial (defaultLayout true))
      youngestJoined).ids = [2, 3] :=
  ⟨uniqueIds_of_run true 256 0 0 youngestJoined (by decide), by decide⟩

/-- Two threads, the older of which exits, is joined and is replaced: the replacement
gets the id of the younger one. -/
def oldestJoined : List ThreadOp :=
  [.create startCall, .create startCall, .exit 2, .join 2, .create startCall]

theorem not_uniqueIds_oldestJoined :
    (run (ThreadTable.step (defaultLayout true)) (ThreadTable.initial (defaultLayout true))
      oldestJoined).ids = [3, 3] ∧
    ¬ (run (ThreadTable.step (defaultLayout true)) (ThreadTable.initial (defaultLayout true))
      oldestJoined).UniqueIds := by
  have hids : (run (ThreadTable.step (defaultLayout true))
      (ThreadTable.initial (defaultLayout true)) oldestJoined).ids = [3, 3] := by decide
  refine ⟨hids, fun h => ?_⟩
  have hnodup := h.1
  exact absurd hnodup (by decide)

end Lunaria
