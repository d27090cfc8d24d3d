/-
# The heap stays inside its arena whatever the guest writes

The block view needs intact headers. This weaker invariant needs nothing from the
guest: stores may hit headers, and any address may be freed. What remains true is
that the free list only ever names ranges behind the heap base and below the heap
pointer, since `arm_free` checks exactly that, and so every block handed out lies
there too.
-/

import Lunaria.Heap.Operations

namespace Lunaria

open Lib ByteMemory

/-- The heap pointer and the free list stay inside the heap. -/
structure Confined (L : Layout) (h : Heap) : Prop where
  base_le : heapBase ≤ h.heapPtr
  ptr_le : h.heapPtr ≤ L.heapLimit
  entries : ∀ e ∈ h.freeList.entries, heapBase + heapHdr ≤ e.2 ∧ e.2 + e.1 ≤ h.heapPtr

theorem confined_initial (L : Layout) (mem : ByteMemory) : Confined L (Heap.initial mem) where
  base_le := le_rfl
  ptr_le := by
    simp only [Heap.initial, Layout.heapLimit]
    split <;> omega
  entries := by simp [Heap.initial]

/-- Header and payload of the block an allocating call hands out, as its header
announces it. -/
def handedSpan (outcome : Nat × Heap) : Interval :=
  ⟨outcome.1 - heapHdr, outcome.1 + outcome.2.mem.read32 (outcome.1 - heapHdr)⟩

/-- An allocating call keeps the heap confined, and hands out a block inside it. -/
structure HandsOut (L : Layout) (h : Heap) (outcome : Nat × Heap) : Prop where
  confined : Confined L outcome.2
  ptr_mono : h.heapPtr ≤ outcome.2.heapPtr
  inside : outcome.1 ≠ 0 →
    heapBase ≤ (handedSpan outcome).lo ∧ (handedSpan outcome).hi ≤ outcome.2.heapPtr

variable {L : Layout} {h : Heap}

theorem HandsOut.fail (hc : Confined L h) : HandsOut L h (0, h) where
  confined := hc
  ptr_mono := le_rfl
  inside hne := absurd rfl hne

theorem Confined.sublist (hc : Confined L h) {freeList : Multimap Nat Nat}
    (hsub : freeList.entries.Sublist h.freeList.entries) :
    Confined L { h with freeList } :=
  ⟨hc.base_le, hc.ptr_le, fun e he => hc.entries e (hsub.subset he)⟩

theorem Confined.ptr_lt (hc : Confined L h) : h.heapPtr < 2 ^ 32 :=
  lt_of_le_of_lt (hc.ptr_le.trans L.heapLimit_le_max) (by norm_num)

theorem armFree_confined (hc : Confined L h) (va : Nat) : Confined L (armFree h va) := by
  rw [armFree]
  split
  · exact hc
  rename_i howns
  simp only
  split
  · exact hc
  rename_i hsize
  simp only [Bool.or_eq_true, decide_eq_true_eq, Bool.not_eq_true', not_or,
    Bool.not_eq_false, armHeapOwns, Bool.and_eq_true] at howns hsize
  refine ⟨hc.base_le, hc.ptr_le, fun e he => ?_⟩
  rcases List.mem_cons.mp ((Multimap.insert_perm ..).mem_iff.mp he) with rfl | hold
  · exact ⟨howns.2.1.1, not_lt.mp hsize.2⟩
  · exact hc.entries e hold

theorem armFree_heapPtr (h : Heap) (va : Nat) : (armFree h va).heapPtr = h.heapPtr := by
  rw [armFree]
  split
  · rfl
  · simp only
    split <;> rfl

variable {size payload : Nat}

/-- Handing out a free-list entry whose header is intact. -/
theorem reuse_handsOut (hc : Confined L h) {blk va : Nat}
    (hlo : heapBase + heapHdr ≤ va) (hhi : va + blk ≤ h.heapPtr) (hsize : size ≤ blk)
    (hword : h.mem.read32 (va - heapHdr) = blk) : HandsOut L h (h.reuse blk va size) := by
  have hptr := hc.ptr_lt
  have hk := heapConsts
  have hl := layoutConsts
  rw [Heap.reuse, Heap.splitBlock]
  split
  · rename_i hsplit
    rw [u32_of_lt (by omega)] at hsplit
    have hrem : u32 (va + size) = va + size := u32_of_lt (by omega)
    have hrem8 : u32 (va + size + 8) = va + size + 8 := u32_of_lt (by omega)
    simp only [hrem]
    refine ⟨⟨hc.base_le, hc.ptr_le, fun e he => ?_⟩, le_rfl, fun _ => ?_⟩
    · rcases List.mem_cons.mp ((Multimap.insert_perm ..).mem_iff.mp he) with rfl | hold
      · simp only [heapHdr]
        omega
      · exact hc.entries e hold
    · simp only [handedSpan]
      rw [read32_write32_of_disjoint _ _ _ _ (by omega), read32_write32 _ _ _ (by omega)]
      omega
  · refine ⟨{ hc with }, le_rfl, fun _ => ?_⟩
    simp only [handedSpan]
    rw [read32_write32_of_disjoint _ _ _ _ (by omega)]
    omega

theorem fresh_handsOut (hc : Confined L h) {h' : Heap}
    (hptr : h'.heapPtr = payload + size) (hlist : h'.freeList = h.freeList)
    (hlo : h.heapPtr + heapHdr ≤ payload) (hhi : payload + size ≤ L.heapLimit)
    (hword : h'.mem.read32 (payload - heapHdr) = size) : HandsOut L h (payload, h') := by
  have hbase := hc.base_le
  refine ⟨⟨by simp only; omega, by simp only; omega, fun e he => ?_⟩, by simp only; omega,
    fun _ => ?_⟩
  · have hentry := hc.entries e (hlist ▸ he)
    simp only
    omega
  · simp only [handedSpan]
    omega

theorem bumpBlock_freeList (payload size : Nat) :
    (h.bumpBlock payload size).freeList = h.freeList := by
  cases h
  rfl

theorem bumpBlock_heapPtr (hfits : payload + size ≤ L.heapLimit) :
    (h.bumpBlock payload size).heapPtr = payload + size := by
  have hlt := lt_of_le_of_lt (hfits.trans L.heapLimit_le_max) (show 0x90000000 < 2 ^ 32 by norm_num)
  simp [Heap.bumpBlock, u32_of_lt hlt]

theorem bumpBlock_word (hlo : heapHdr ≤ payload) (hlt : payload < 2 ^ 32)
    (hsize : size < 2 ^ 32) : (h.bumpBlock payload size).mem.read32 (payload - heapHdr) = size := by
  have hk := heapConsts
  simp only [Heap.bumpBlock, sub32_of_le hlo hlt, sub32_of_le (show 4 ≤ payload by omega) hlt]
  rw [read32_write32_of_disjoint _ _ _ _ (by omega), read32_write32 _ _ _ hsize]

theorem bump_word (hfits : h.heapPtr + heapHdr < 2 ^ 32) (hsize : size < 2 ^ 32) :
    ((h.bumpBlock (h.heapPtr + heapHdr) size).mem.fill (h.heapPtr + heapHdr) size 0xFF).read32
      (h.heapPtr + heapHdr - heapHdr) = size := by
  have hk := heapConsts
  have hword := (fill_agreeOutside (h.bumpBlock (h.heapPtr + heapHdr) size).mem
    (h.heapPtr + heapHdr) size 0xFF).read32_eq
    (show h.heapPtr + heapHdr - heapHdr + 4 ≤ h.heapPtr + heapHdr ∨ _ by omega)
  rw [hword]
  exact bumpBlock_word (by omega) hfits hsize

theorem requestSize_lt (n : Nat) : requestSize n < 2 ^ 32 :=
  lt_of_le_of_lt (roundDown_le ..) (u32_lt _)

/-- A bump fails and changes nothing, or hands out what lies behind the heap pointer. -/
theorem bump_handsOut (hc : Confined L h) (hsize : size < 2 ^ 32) : HandsOut L h (h.bump L size) ∧
      ((h.bump L size).2.heapPtr = h.heapPtr ∨ h.heapPtr + heapHdr + size ≤ L.heapLimit ∧
          (h.bump L size).2.heapPtr = h.heapPtr + heapHdr + size) := by
  by_cases hroom : L.heapLimit < h.heapPtr + heapHdr + size
  · rw [Heap.bump, if_pos hroom]
    exact ⟨.fail hc, .inl rfl⟩
  have hfits : h.heapPtr + heapHdr + size ≤ L.heapLimit := not_lt.mp hroom
  have hlimit := L.heapLimit_le_max
  have hnew := bumpBlock_heapPtr (h := h) hfits
  have hkept := bumpBlock_freeList (h := h) (h.heapPtr + heapHdr) size
  have hword := bump_word (h := h) (by omega) hsize
  rw [bump_of_room hroom]
  generalize h.bumpBlock (h.heapPtr + heapHdr) size = bumped at hnew hkept hword ⊢
  exact ⟨fresh_handsOut hc hnew hkept le_rfl hfits hword, .inr ⟨hfits, hnew⟩⟩

/-- The call takes fresh memory behind the heap pointer. -/
def BumpsHeap (L : Layout) (h : Heap) (request : Nat) : Prop :=
  (h.freeList.reapFrom (requestSize request) h.staleEntry).1 = none ∧
    h.heapPtr + heapHdr + requestSize request ≤ L.heapLimit
  deriving Decidable

/-- **Every block `arm_malloc` hands out lies inside the heap**, and the heap pointer
moves only when fresh memory is taken. -/
theorem armMalloc_handsOut (hc : Confined L h) (request : Nat) :
    HandsOut L h (armMalloc L h request) ∧
      ((armMalloc L h request).2.heapPtr = h.heapPtr ∨ BumpsHeap L h request ∧
          (armMalloc L h request).2.heapPtr = h.heapPtr + heapHdr + requestSize request) := by
  have hsize := requestSize_lt request
  rw [armMalloc]
  split
  · rename_i blk va freeList hreap
    obtain ⟨hmem, hle, hstale⟩ := Multimap.reapFrom_some hreap
    have hentry := hc.entries _ hmem
    simp only [Heap.staleEntry, Bool.or_eq_false_iff, bne_eq_false_iff_eq] at hstale
    have hreuse := reuse_handsOut (hc.sublist (Multimap.reapFrom_sublist hreap)) hentry.1 hentry.2
      hle hstale.2
    refine ⟨{ hreuse with }, .inl ?_⟩
    simp only [Heap.reuse, Heap.splitBlock]
    split <;> rfl
  · rename_i freeList hreap
    obtain ⟨hout, hptr⟩ := bump_handsOut (hc.sublist (Multimap.reapFrom_sublist hreap)) hsize
    refine ⟨{ hout with }, hptr.imp_right ?_⟩
    rintro ⟨hfits, hnew⟩
    exact ⟨⟨congrArg Prod.fst hreap, hfits⟩, hnew⟩

/-- The call is served by the aligned bump of `arm_memalign`. -/
def alignedBump (align : Nat) : Bool := !(align ≤ heapHdr || align &&& (align - 1) ≠ 0)

/-- Where the aligned bump places its payload. -/
def alignedPayload (h : Heap) (align : Nat) : Nat :=
  roundDown (u32 (h.heapPtr + heapHdr + align - 1)) align

theorem armMemalign_eq (L : Layout) (h : Heap) (align request : Nat) :
    armMemalign L h align request =
      if alignedBump align then
        if L.heapLimit < alignedPayload h align + requestSize request then (0, h)
        else (alignedPayload h align, h.bumpBlock (alignedPayload h align) (requestSize request))
      else armMalloc L h request := by
  rw [armMemalign, alignedBump]
  cases hcond : (decide (align ≤ heapHdr) || decide (align &&& (align - 1) ≠ 0)) with
  | true => simp
  | false => rfl

theorem alignedBump_iff {align : Nat} :
    alignedBump align ↔ heapHdr < align ∧ align &&& (align - 1) = 0 := by
  simp [alignedBump]

theorem le_alignedPayload {align : Nat} (hpos : 0 < align)
    (hwrap : h.heapPtr + heapHdr + align ≤ 2 ^ 32) :
    h.heapPtr + heapHdr ≤ alignedPayload h align := by
  have hround := lt_roundDown_add hpos (h.heapPtr + heapHdr + align - 1)
  rw [alignedPayload, u32_of_lt (by omega)]
  omega

/-- The aligned bump hands out memory behind the heap pointer, unless rounding up wraps
at 4 GiB. -/
theorem alignedBump_handsOut (hc : Confined L h) {align request : Nat}
    (haligned : alignedBump align) (hwrap : h.heapPtr + heapHdr + align - 1 < 2 ^ 32)
    (hfits : alignedPayload h align + requestSize request ≤ L.heapLimit) :
    HandsOut L h (alignedPayload h align,
        h.bumpBlock (alignedPayload h align) (requestSize request)) ∧
      (h.bumpBlock (alignedPayload h align) (requestSize request)).heapPtr =
        alignedPayload h align + requestSize request := by
  have hlimit := L.heapLimit_le_max
  have hsize := requestSize_lt request
  have halign := (alignedBump_iff.mp haligned).1
  have hlo : h.heapPtr + heapHdr ≤ alignedPayload h align :=
    le_alignedPayload (by omega) (by omega)
  have hword := bumpBlock_word (h := h) (show heapHdr ≤ alignedPayload h align by omega)
    (by omega) hsize
  have hptr := bumpBlock_heapPtr (h := h) hfits
  exact ⟨fresh_handsOut hc hptr (bumpBlock_freeList ..) hlo hfits hword, hptr⟩

end Lunaria
