/-
# What `arm_realloc` does to the bytes

The specifications of `arm_realloc` say which blocks there are afterwards. Here it is
the bytes: the payload arrives at the new address, every other live payload stays as
it is, the old block is free when the address has changed, and a refused call leaves
everything as it was. The copy goes through `arm_malloc`, which splits free blocks and
poisons fresh ones, and through `arm_free`, which rewrites a header; that neither
touches a live payload is the block invariant, so the result holds wherever the run
before it kept that invariant. A block of no bytes is where it ends: `arm_free`
takes such a block for a corrupt one and leaves it live.
-/

import Lunaria.Heap.Refusals

namespace Lunaria

open Lib List

def Allocation.SameBytes (a : Allocation) (m m' : ByteMemory) : Prop :=
  ∀ i < a.size, m' (a.payload + i) = m (a.payload + i)

def Allocation.IsLive (a : Allocation) (h : Heap) : Prop :=
  armHeapOwns h a.payload = true ∧ h.mem.read32 (a.payload - heapHdr) = a.size
  deriving Decidable

def Allocation.IsFree (a : Allocation) (h : Heap) : Prop :=
  armHeapOwns h a.payload = false ∧ (a.size, a.payload) ∈ h.freeList.entries
  deriving Decidable

/-- **`realloc` preserves data.** An answered address has the common bytes, other payloads are as
they were, and the old block is free if the address is new. A null answer leaves the allocation and
the heap pointer alone. -/
def PreservesData (L : Layout) (g : HeapRun) (a : Allocation) (n : Nat) : Prop :=
  let outcome := armRealloc L g.heap a.payload n
  (outcome.1 ≠ 0 ∧
      (∀ i < min a.size n, outcome.2.mem (outcome.1 + i) = g.heap.mem (a.payload + i)) ∧
      (∀ c ∈ g.live, c ≠ a → c.SameBytes g.heap.mem outcome.2.mem) ∧
      (outcome.1 ≠ a.payload → a.IsFree outcome.2)) ∨
    (outcome.1 = 0 ∧ a.IsLive outcome.2 ∧ a.SameBytes g.heap.mem outcome.2.mem ∧
      outcome.2.heapPtr = g.heap.heapPtr)

instance (a : Allocation) (m m' : ByteMemory) : Decidable (a.SameBytes m m') :=
  inferInstanceAs (Decidable (∀ i < a.size, _))

instance (L : Layout) (g : HeapRun) (a : Allocation) (n : Nat) :
    Decidable (PreservesData L g a n) :=
  inferInstanceAs (Decidable ((_ ∧ (∀ i < min a.size n, _) ∧ (∀ c ∈ g.live, _) ∧ _) ∨
    (_ ∧ _ ∧ _ ∧ _)))

variable {L : Layout} {h h' : Heap} {bs rest : List Block} {b nb : Block} {g : HeapRun}

section Moved

variable (halloc : Allocated L h bs h' nb rest) (hrest : b ∈ rest) (hlive : b.live = true)
  (hcover : b.size ≤ nb.size)

include halloc hrest hlive hcover

theorem moved_bytes (hb : b ∈ bs) {i : Nat} (hi : i < b.size) :
    (armFree { h' with mem := h'.mem.move nb.payload b.payload b.size } b.payload).mem
      (nb.payload + i) = h.mem (b.payload + i) := by
  have hapart := halloc.inv.apart_of_cons b hrest
  simp only [Interval.Apart, Block.span] at hapart
  rw [(halloc.move_release hrest hlive hcover).2 _ (by simp only [Block.span]; omega)]
  simp only [ByteMemory.move]
  rw [if_pos (by omega), Nat.add_sub_cancel_left]
  exact halloc.frame b hb hlive _ (by omega) (by omega)

theorem moved_frame {c : Block} (hc : c ∈ bs) (hclive : c.live) (hne : c ≠ b) {i : Nat}
    (hi : i < c.size) :
    (armFree { h' with mem := h'.mem.move nb.payload b.payload b.size } b.payload).mem
      (c.payload + i) = h.mem (c.payload + i) := by
  have hcrest : c ∈ rest :=
    halloc.mem_rest hc hclive
  have hnew := halloc.inv.apart_of_cons c hcrest
  -- `c` is none of the two blocks the call has written to
  obtain ⟨others, hperm, hcons⟩ := halloc.inv.exists_cons (mem_cons_of_mem nb hrest)
  have hcothers : c ∈ others := by
    rcases mem_cons.mp (hperm.mem_iff.mp (mem_cons_of_mem nb hcrest)) with rfl | hmem
    · exact absurd rfl hne
    · exact hmem
  have hold := hcons.apart_of_cons c hcothers
  simp only [Interval.Apart, Block.span] at hnew hold
  rw [(halloc.move_release hrest hlive hcover).2 _ (by simp only [Block.span]; omega)]
  rw [ByteMemory.move_agreeOutside _ _ _ _ _ (by omega)]
  exact halloc.frame c hc hclive _ (by omega) (by omega)

theorem moved_isFree : b.toAllocation.IsFree
      (armFree { h' with mem := h'.mem.move nb.payload b.payload b.size } b.payload) := by
  have hinv := (halloc.move_release hrest hlive hcover).1
  have hmem : b.release ∈ nb :: b.release :: rest.erase b :=
    mem_cons_of_mem _ mem_cons_self
  refine ⟨armHeapOwns_eq_live hinv hmem, ?_⟩
  exact hinv.entries.mem_iff.mpr (mem_freeEntries.mpr ⟨b.release, hmem, rfl, rfl, rfl⟩)

end Moved

/-- Where the record agrees with the blocks of the heap, `arm_realloc` preserves data. -/
theorem HeapRun.Tracks.preservesData (tracks : Tracks L g bs) {a : Allocation} (ha : a ∈ g.live)
    {n : Nat} (hpos : 0 < n) (hn : n ≤ 0xFFFFFFF8) : PreservesData L g a n := by
  obtain ⟨b, hb, rfl⟩ := mem_map.mp (tracks.live.mem_iff.mp ha)
  obtain ⟨hmem, hlive⟩ := mem_liveBlocks.mp hb
  have hplaced := tracks.inv.placed b hmem
  have hbase := hplaced.above_base
  have hl := layoutConsts
  have hne : n ≠ 0 := hpos.ne'
  by_cases hfits : armAlign8 n ≤ b.size
  · have hrealloc : armRealloc L g.heap b.toAllocation.payload n = (b.payload, g.heap) :=
      armRealloc_in_place tracks.inv hmem hlive hne hfits
    left
    rw [hrealloc]
    refine ⟨by simp only; omega, fun i _ => rfl, fun c _ _ i _ => rfl, fun hmoved => ?_⟩
    exact absurd rfl hmoved
  rcases armRealloc_moves tracks.inv hmem hlive hn hne (not_le.mp hfits) with
    hfail | ⟨nb, rest, -, -, hcover, halloc, hrest, hrealloc⟩
  · right
    rw [show armRealloc L g.heap b.toAllocation.payload n = (0, g.heap) from hfail]
    refine ⟨rfl, ⟨?_, hplaced.sizeWord⟩, fun i _ => rfl, rfl⟩
    exact (armHeapOwns_eq_live tracks.inv hmem).trans hlive
  have hnew := (halloc.inv.placed nb mem_cons_self).above_base
  left
  rw [show armRealloc L g.heap b.toAllocation.payload n = _ from hrealloc]
  refine ⟨by simp only; omega, fun i hi => ?_, fun c hc hother i hi => ?_, fun _ => ?_⟩
  · exact moved_bytes halloc hrest hlive hcover hmem (lt_of_lt_of_le hi (min_le_left ..))
  · obtain ⟨c', hc', rfl⟩ := mem_map.mp (tracks.live.mem_iff.mp hc)
    obtain ⟨hcmem, hclive⟩ := mem_liveBlocks.mp hc'
    have hblock : c' ≠ b := fun heq => hother (congrArg Block.toAllocation heq)
    exact moved_frame halloc hrest hlive hcover hcmem hclive hblock hi
  · exact moved_isFree halloc hrest hlive hcover

/-- **`arm_realloc` preserves data** in every layout and after every run whose sizes `arm_align8`
can round, or are refused, and in which no aligned address wraps. -/
theorem preservesData_of_run (L : Layout) (mem : ByteMemory) (ops : List HeapOp)
    (hops : StepsMeet (fun g op => g.Callable op ∧ HeapRun.Sized L g op) (HeapRun.step L)
      (HeapRun.initial mem) ops) :
    ∀ a ∈ (run (HeapRun.step L) (HeapRun.initial mem) ops).live, ∀ n, 0 < n → n ≤ 0xFFFFFFF8 →
      PreservesData L (run (HeapRun.step L) (HeapRun.initial mem) ops) a n := by
  have preserved : ∀ g op, (∃ bs, HeapRun.Tracks L g bs) →
      (g.Callable op ∧ HeapRun.Sized L g op) → ∃ bs, HeapRun.Tracks L (HeapRun.step L g op) bs := by
    rintro g op ⟨bs, tracks⟩ ⟨hcall, hsized⟩
    exact tracks.step_of_sized op hcall hsized
  obtain ⟨bs, tracks⟩ := run_invariant preserved ⟨[], HeapRun.tracks_initial L mem⟩ hops
  intro a ha n hpos hn
  exact tracks.preservesData ha hpos hn

theorem preservesData_splittingRun :
    StepsMeet (fun g op => g.Callable op ∧ HeapRun.Sized (defaultLayout false) g op)
        (HeapRun.step (defaultLayout false)) (HeapRun.initial fun _ => 0) splittingRun ∧
      ∀ a ∈ (run (HeapRun.step (defaultLayout false)) (HeapRun.initial fun _ => 0)
          splittingRun).live,
        PreservesData (defaultLayout false)
          (run (HeapRun.step (defaultLayout false)) (HeapRun.initial fun _ => 0) splittingRun)
          a 1000 := by
  refine (and_iff_left_of_imp fun hops a ha => ?_).mpr (by decide +kernel)
  exact preservesData_of_run _ _ splittingRun hops a ha 1000 (by norm_num) (by norm_num)

/-- Two heaps in which `arm_realloc` leaves the old block live: after `malloc(0xFFFFFFFF)` the block
has no bytes and counts as corrupt; after a `memalign` that wrapped, its address counts as foreign.
-/
theorem not_preservesData_wrapped : (StepsMeet HeapRun.Callable (HeapRun.step (defaultLayout false))
        (HeapRun.initial fun _ => 0) [.malloc 0xFFFFFFFF] ∧
      ⟨0x50000008, 0⟩ ∈ (run (HeapRun.step (defaultLayout false)) (HeapRun.initial fun _ => 0)
        [.malloc 0xFFFFFFFF]).live ∧ ¬ PreservesData (defaultLayout false)
        (run (HeapRun.step (defaultLayout false)) (HeapRun.initial fun _ => 0)
          [.malloc 0xFFFFFFFF]) ⟨0x50000008, 0⟩ 8) ∧
    (StepsMeet HeapRun.Callable (HeapRun.step (guestLayoutInit false 1024 0 0))
        (HeapRun.initial fun _ => 0) [.malloc 0x30000000, .memalign 0x80000000 8] ∧
      ⟨0x50000008, 0x30000000⟩ ∈ (run (HeapRun.step (guestLayoutInit false 1024 0 0))
        (HeapRun.initial fun _ => 0) [.malloc 0x30000000, .memalign 0x80000000 8]).live ∧
      ¬ PreservesData (guestLayoutInit false 1024 0 0)
        (run (HeapRun.step (guestLayoutInit false 1024 0 0)) (HeapRun.initial fun _ => 0)
          [.malloc 0x30000000, .memalign 0x80000000 8]) ⟨0x50000008, 0x30000000⟩ 16) := by
  refine ⟨⟨?_, ?_, ?_⟩, ?_, ?_, ?_⟩ <;> decide +kernel

end Lunaria
