/-
# The heap keeps to multiples of eight

Sizes are rounded to 8 before they reach the free list or the bump pointer, headers
are 8 bytes long, and free blocks are split behind a rounded size. So every address
and every size the allocator deals in is a multiple of 8, and a caller who asks for
an alignment of at most 8 needs nothing from `arm_memalign` but `arm_malloc`. The
block view says nothing about this; it is an invariant of its own beside it.
-/

import Lunaria.Heap.Refusals

namespace Lunaria

open Lib List ByteMemory

/-- The bump pointer and the free list keep to multiples of 8. -/
structure RoundedHeap (h : Heap) : Prop where
  ptr : 8 ∣ h.heapPtr
  entries : ∀ e ∈ h.freeList.entries, 8 ∣ e.1 ∧ 8 ∣ e.2

/-- The outcome of an allocating call, with the size its header announces. -/
structure Rounds (outcome : Nat × Heap) : Prop where
  heap : RoundedHeap outcome.2
  block : outcome.1 ≠ 0 → 8 ∣ outcome.1 ∧ 8 ∣ outcome.2.mem.read32 (outcome.1 - heapHdr)

/-- The same for what the caller has seen. -/
structure HeapRun.Rounded (g : HeapRun) : Prop where
  heap : RoundedHeap g.heap
  live : ∀ a ∈ g.live, 8 ∣ a.payload ∧ 8 ∣ a.size

variable {L : Layout} {h : Heap} {bs : List Block} {g : HeapRun}

theorem dvd_requestSize (request : Nat) : 8 ∣ requestSize request := by
  exact dvd_mul_left 8 _

theorem dvd_u32 {n : Nat} (hn : 8 ∣ n) : 8 ∣ u32 n := (Nat.dvd_mod_iff (by norm_num)).mpr hn

section

variable (hr : RoundedHeap h)
include hr

variable {size va : Nat}

theorem RoundedHeap.insert {m : ByteMemory} (hsize : 8 ∣ size) (hva : 8 ∣ va) :
    RoundedHeap ⟨m, h.heapPtr, h.freeList.insert size va⟩ where
  ptr := hr.ptr
  entries e he := by
    rcases mem_cons.mp ((Multimap.insert_perm ..).mem_iff.mp he) with rfl | hold
    · exact ⟨hsize, hva⟩
    · exact hr.entries e hold

theorem reuse_rounds {blk : Nat} (hblk : 8 ∣ blk) (hva : 8 ∣ va)
    (hsize : 8 ∣ size) (hlt : size < 2 ^ 32) (hlo : heapHdr ≤ va)
    (hword : h.mem.read32 (va - heapHdr) = blk) : Rounds (h.reuse blk va size) := by
  have hk := heapConsts
  have hhdr : 8 ∣ heapHdr := ⟨1, rfl⟩
  rw [Heap.reuse, Heap.splitBlock]
  split
  · have hleft : 8 ∣ u32 (u32 (va + size) + heapHdr) :=
      dvd_u32 (Nat.dvd_add (dvd_u32 (Nat.dvd_add hva hsize)) hhdr)
    refine ⟨hr.insert (Nat.dvd_sub (Nat.dvd_sub hblk hsize) hhdr) hleft, fun _ => ⟨hva, ?_⟩⟩
    rw [read32_write32_of_disjoint _ _ _ _ (by omega), read32_write32 _ _ _ hlt]
    exact hsize
  · refine ⟨⟨hr.ptr, hr.entries⟩, fun _ => ⟨hva, ?_⟩⟩
    rw [read32_write32_of_disjoint _ _ _ _ (by omega), hword]
    exact hblk

theorem bumpBlock_rounded {payload : Nat} (hpayload : 8 ∣ payload)
    (hsize : 8 ∣ size) : RoundedHeap (h.bumpBlock payload size) := by
  have hptr := dvd_u32 (Nat.dvd_add hpayload hsize)
  rw [Heap.bumpBlock]
  exact ⟨hptr, hr.entries⟩

theorem fresh_rounds {payload : Nat} {m : ByteMemory} (hpayload : 8 ∣ payload) (hsize : 8 ∣ size)
    (hword : m.read32 (payload - heapHdr) = size) : Rounds (payload, { h with mem := m }) := by
  refine ⟨⟨hr.ptr, hr.entries⟩, fun _ => ⟨hpayload, ?_⟩⟩
  simp only [hword]
  exact hsize

theorem bump_rounds (hsize : 8 ∣ size) (hlt : size < 2 ^ 32) : Rounds (h.bump L size) := by
  by_cases hroom : L.heapLimit < h.heapPtr + heapHdr + size
  · rw [Heap.bump, if_pos hroom]
    exact ⟨hr, absurd rfl⟩
  have hlimit := L.heapLimit_le_max
  have hpayload : 8 ∣ h.heapPtr + heapHdr := by
    exact Nat.dvd_add hr.ptr (dvd_refl 8)
  have hword := bump_word (h := h) (by omega) hlt
  rw [bump_of_room hroom]
  exact fresh_rounds (bumpBlock_rounded hr hpayload hsize) hpayload hsize hword

theorem armMalloc_rounds (request : Nat) : Rounds (armMalloc L h request) := by
  have hkept {found freeList} (hreap : h.freeList.reapFrom (requestSize request) h.staleEntry =
      (found, freeList)) : RoundedHeap { h with freeList } :=
    ⟨hr.ptr, fun e he => hr.entries e ((Multimap.reapFrom_sublist hreap).subset he)⟩
  rw [armMalloc]
  split
  · rename_i blk va freeList hreap
    obtain ⟨hmem, -, hstale⟩ := Multimap.reapFrom_some hreap
    simp only [Heap.staleEntry, Bool.or_eq_false_iff, decide_eq_false_iff_not,
      bne_eq_false_iff_eq] at hstale
    exact reuse_rounds (hkept hreap) (hr.entries _ hmem).1 (hr.entries _ hmem).2
      (dvd_requestSize request) (requestSize_lt request) (by omega) hstale.2
  · rename_i freeList hreap
    exact bump_rounds (hkept hreap) (dvd_requestSize request) (requestSize_lt request)

end

theorem dvd_alignedPayload (h : Heap) (align : Nat) : align ∣ alignedPayload h align := by
  exact dvd_mul_left align _

theorem dvd_of_alignedBump {align : Nat} (haligned : alignedBump align) : 8 ∣ align := by
  obtain ⟨hlt, hpow⟩ := alignedBump_iff.mp haligned
  obtain ⟨k, rfl⟩ := exists_eq_two_pow (by omega) hpow
  have hexp : 3 < k := by
    exact (Nat.pow_lt_pow_iff_right (by norm_num : 1 < 2)).mp hlt
  exact pow_dvd_pow 2 hexp.le

theorem armMemalign_rounds (hr : RoundedHeap h) (align request : Nat) :
    Rounds (armMemalign L h align request) := by
  rw [armMemalign_eq]
  split
  · rename_i haligned
    split
    · exact ⟨hr, absurd rfl⟩
    have hpayload : 8 ∣ alignedPayload h align :=
      (dvd_of_alignedBump haligned).trans (dvd_alignedPayload h align)
    have hlimit := L.heapLimit_le_max
    refine ⟨bumpBlock_rounded hr hpayload (dvd_requestSize request), fun hne => ⟨hpayload, ?_⟩⟩
    have hhdr : heapHdr ≤ alignedPayload h align := Nat.le_of_dvd (pos_of_ne_zero hne) hpayload
    rw [bumpBlock_word hhdr (by omega) (requestSize_lt request)]
    exact dvd_requestSize request
  · exact armMalloc_rounds hr request

theorem armFree_rounded (hr : RoundedHeap h)
    (hword : armHeapOwns h va → 8 ∣ va ∧ 8 ∣ h.mem.read32 (va - heapHdr)) :
    RoundedHeap (armFree h va) := by
  rw [armFree]
  split
  · exact hr
  rename_i hcond
  simp only [Bool.or_eq_true, Bool.not_eq_true', not_or, Bool.not_eq_false] at hcond
  simp only
  split
  · exact hr
  · exact hr.insert (hword hcond.2).2 (hword hcond.2).1

/-- Copying a block into one that was just handed out, and freeing it. -/
theorem Allocated.move_rounds {h' : Heap} {rest : List Block} {b nb : Block}
    (halloc : Allocated L h bs h' nb rest) (hb : b ∈ rest) (hlive : b.live)
    (hcover : b.size ≤ nb.size) (hr : Rounds (nb.payload, h'))
    (hblock : 8 ∣ b.payload ∧ 8 ∣ b.size) : Rounds (nb.payload,
      armFree { h' with mem := h'.mem.move nb.payload b.payload b.size } b.payload) := by
  have hmoved := (halloc.write_payload
    ((move_agreeOutside _ nb.payload b.size b.payload).mono le_rfl (by omega))).inv.placed b
    (mem_cons_of_mem _ hb)
  have hplaced := halloc.inv.placed nb mem_cons_self
  have hnew := (halloc.move_release hb hlive hcover).1.placed nb mem_cons_self
  have hcopied : RoundedHeap { h' with mem := h'.mem.move nb.payload b.payload b.size } :=
    ⟨hr.heap.ptr, hr.heap.entries⟩
  refine ⟨armFree_rounded hcopied fun _ => ?_, fun hne => ?_⟩
  · rw [hmoved.sizeWord]
    exact hblock
  · have hheader := hr.block hne
    simp only [hplaced.sizeWord] at hheader
    simp only [hnew.sizeWord]
    exact hheader

namespace HeapRun

theorem Rounded.handOut (hr : g.Rounded) {outcome : Nat × Heap} (ho : Rounds outcome) :
    (g.handOut outcome).Rounded := by
  rw [HeapRun.handOut]
  split
  · exact ⟨ho.heap, hr.live⟩
  · rename_i hne
    exact ⟨ho.heap, forall_mem_cons.mpr ⟨ho.block hne, hr.live⟩⟩

/-- Allocations the caller has given up do not matter. -/
theorem Rounded.drop (hr : g.Rounded) (va : Nat) :
    ({ g with live := HeapRun.drop g.live va } : HeapRun).Rounded :=
  ⟨hr.heap, fun a ha => hr.live a (mem_filter.mp ha).1⟩

section

variable (hr : g.Rounded) (tracks : Tracks L g bs)
include hr tracks

theorem Rounded.word (hva : va = 0 ∨ va ∈ g.returned) (howns : armHeapOwns g.heap va) :
    8 ∣ va ∧ 8 ∣ g.heap.mem.read32 (va - heapHdr) := by
  have hne : va ≠ 0 := by
    rintro rfl
    simp [armHeapOwns] at howns
    simp [layoutConsts] at howns
  obtain ⟨b, hb, rfl⟩ := (tracks.null_or_block hva).resolve_left hne
  have hlive := (armHeapOwns_eq_live tracks.inv hb).symm.trans howns
  rw [(tracks.inv.placed b hb).sizeWord]
  exact hr.live _ (tracks.mem_live hb hlive)

theorem Rounded.armRealloc (hva : va = 0 ∨ va ∈ g.returned) (hsize : size ≤ 0xFFFFFFF8) :
    Rounds (armRealloc L g.heap va size) := by
  have hmalloc := armMalloc_rounds (L := L) hr.heap size
  have hk := heapConsts
  by_cases hnull : va = 0
  · rw [Lunaria.armRealloc, if_pos hnull]
    exact hmalloc
  by_cases hzero : size = 0
  · rw [Lunaria.armRealloc, if_neg hnull, if_pos hzero]
    exact ⟨armFree_rounded hr.heap (hr.word tracks hva), absurd rfl⟩
  by_cases howns : armHeapOwns g.heap va
  · by_cases hfits : armAlign8 size ≤ g.heap.mem.read32 (va - heapHdr)
    · -- it fits in place
      rw [Lunaria.armRealloc, if_neg hnull, if_neg hzero, if_neg (by simp [howns])]
      simp only [if_pos hfits]
      exact ⟨hr.heap, fun _ => hr.word tracks hva howns⟩
    obtain ⟨b, hb, rfl⟩ := (tracks.null_or_block hva).resolve_left hnull
    have hlive := (armHeapOwns_eq_live tracks.inv hb).symm.trans howns
    rw [(tracks.inv.placed b hb).sizeWord] at hfits
    rcases armRealloc_moves tracks.inv hb hlive hsize hzero (not_le.mp hfits) with
      hfail | ⟨nb, rest, hpayload, -, hcover, halloc, hbrest, hrealloc⟩
    · rw [hfail]
      exact ⟨hr.heap, absurd rfl⟩
    have hbase := (halloc.inv.placed nb mem_cons_self).above_base
    have hblock := hmalloc.block (by omega)
    rw [hpayload] at hblock
    rw [hrealloc]
    exact halloc.move_rounds hbrest hlive hcover ⟨hmalloc.heap, fun _ => hblock⟩
      (hr.live _ (tracks.mem_live hb hlive))
  · rw [Lunaria.armRealloc, if_neg hnull, if_neg hzero, if_pos (by simp [howns])]
    simp only
    split
    · exact hmalloc
    rename_i hne
    have hlo := Nat.le_of_dvd (pos_of_ne_zero hne) (hmalloc.block hne).1
    -- what is copied lies behind the new header
    have hword := (move_agreeOutside (armMalloc L g.heap size).2.mem
      (armMalloc L g.heap size).1 size va).read32_eq
      (show (armMalloc L g.heap size).1 - heapHdr + 4 ≤ _ ∨ _ by omega)
    exact fresh_rounds hmalloc.heap (hmalloc.block hne).1 (hmalloc.block hne).2 hword

/-- **Every sized call keeps to multiples of 8.** -/
theorem Rounded.step (op : HeapOp)
    (hcall : g.Callable op) (hsized : Sized L g op) : (HeapRun.step L g op).Rounded := by
  cases op with
  | malloc size => exact hr.handOut (armMalloc_rounds hr.heap size)
  | free va =>
    have hheap := armFree_rounded hr.heap (hr.word tracks hcall)
    exact ⟨hheap, (hr.drop va).live⟩
  | realloc va size =>
    have hrounds : Rounds (Lunaria.armRealloc L g.heap va size) := by
      by_cases hsmall : size ≤ 0xFFFFFFF8
      · exact hr.armRealloc tracks hcall.1 hsmall
      · have hne : size ≠ 0 := by omega
        rw [tracks.armRealloc_of_refused hcall.1 hne (hsized.1.resolve_left hsmall)]
        exact ⟨hr.heap, absurd rfl⟩
    simp only [HeapRun.step]
    split
    · exact ⟨hrounds.heap, hr.live⟩
    · exact (hr.drop va).handOut hrounds
  | memalign align size => exact hr.handOut (armMemalign_rounds hr.heap align size)
  | store va value => exact ⟨⟨hr.heap.ptr, hr.heap.entries⟩, hr.live⟩

end

end HeapRun

end Lunaria
