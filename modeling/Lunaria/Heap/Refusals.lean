/-
# When the allocator refuses

The specifications of the allocator say that a call fails or hands out a block.
Which of the two happens is decided by the state before the call: whether the free
list holds a block that is large enough, and whether the bump pointer leaves room.
The same analysis covers the requests whose size wraps in `arm_align8` and the
alignments whose rounded address passes 4 GiB, which the specifications leave out.
A call that is refused changes nothing, so a run in which every call of that kind
is refused keeps the blocks of the heap as well as one that never makes it.
-/

import Lunaria.Heap.Runs
import Lunaria.Heap.Confinement

namespace Lunaria

open Lib

/-- No free block of `size` payload bytes, and no room for a fresh one. -/
def Full (L : Layout) (h : Heap) (size : Nat) : Prop :=
  (∀ e ∈ h.freeList.entries, e.1 < size) ∧ L.heapLimit < h.heapPtr + heapHdr + size
  deriving Decidable

variable {L : Layout} {h : Heap} {bs : List Block} {b : Block}

theorem armMalloc_of_full {request : Nat} (hfull : Full L h (requestSize request)) :
    armMalloc L h request = (0, h) := by
  simp [armMalloc, Multimap.reapFrom_of_lt hfull.1, Heap.bump, if_pos hfull.2]

/-- What `arm_malloc` hands out lies behind the heap base. -/
theorem heapBase_lt_armMalloc (inv : HeapInv L h bs) {request : Nat}
    (hroom : ¬ Full L h (requestSize request)) : heapBase < (armMalloc L h request).1 := by
  have hk := heapConsts
  rw [armMalloc]
  generalize requestSize request = size at hroom
  cases hreap : h.freeList.reapFrom size h.staleEntry with
  | mk found freeList =>
    cases found with
    | some entry =>
      -- an entry that is handed out lies behind the heap base
      obtain ⟨hmem, -, -⟩ := Multimap.reapFrom_some hreap
      obtain ⟨b, hb, -, -, hpayload⟩ := mem_freeEntries.mp (inv.entries.mem_iff.mp hmem)
      have hbase := (inv.placed b hb).above_base
      simp only [Heap.reuse]
      omega
    | none =>
      have hbase := inv.base_le_ptr
      have hbump : ¬ L.heapLimit < h.heapPtr + heapHdr + size :=
        fun hfull => hroom ⟨Multimap.lt_of_reapFrom_none inv.not_stale hreap, hfull⟩
      simp only [bump_of_room (h := { h with freeList }) hbump]
      omega

/-- **`arm_malloc` refuses exactly when the heap is full**, for every 32-bit request. -/
theorem armMalloc_eq_zero_iff (inv : HeapInv L h bs) (request : Nat) :
    (armMalloc L h request).1 = 0 ↔ Full L h (requestSize request) := by
  constructor
  · intro hzero
    by_contra hroom
    have hbase := heapBase_lt_armMalloc inv hroom
    omega
  · intro hfull
    rw [armMalloc_of_full hfull]

/-! ## Realloc -/

/-- The first component of `arm_realloc`: null, the address itself, or what
`arm_malloc` answers. -/
theorem armRealloc_fst (L : Layout) (h : Heap) (va request : Nat) : (armRealloc L h va request).1 =
      if va ≠ 0 ∧ request = 0 then 0
      else if va ≠ 0 ∧ armHeapOwns h va ∧
          armAlign8 request ≤ h.mem.read32 (va - heapHdr) then va
      else (armMalloc L h request).1 := by
  simp only [armRealloc]
  split_ifs <;> simp_all

theorem armRealloc_of_full {va request : Nat} (hrequest : request ≠ 0)
    (hfull : Full L h (requestSize request))
    (hgrow : va ≠ 0 → armHeapOwns h va → h.mem.read32 (va - heapHdr) < armAlign8 request) :
    armRealloc L h va request = (0, h) := by
  have hmalloc := armMalloc_of_full hfull
  rw [armRealloc]
  by_cases hnull : va = 0
  · rw [if_pos hnull, hmalloc]
  rw [if_neg hrequest, hmalloc]
  by_cases howns : armHeapOwns h va
  · simp [not_le.mpr (hgrow hnull howns)]
  · simp [howns]

/-! ## Memalign -/

/-- Rounding the bump pointer up to the alignment passes 4 GiB. -/
def RoundsPast (h : Heap) (align : Nat) : Prop := 2 ^ 32 < h.heapPtr + heapHdr + align
  deriving Decidable

theorem alignedPayload_of_roundsPast (inv : HeapInv L h bs) {align : Nat} (hlt : align < 2 ^ 32)
    (hpast : RoundsPast h align) : alignedPayload h align = 0 := by
  have hk := heapConsts
  have hptr := inv.ptr_le_limit
  have hlimit := L.heapLimit_le_max
  simp only [RoundsPast] at hpast
  have hcut : u32 (h.heapPtr + heapHdr + align - 1) = h.heapPtr + heapHdr + align - 1 - 2 ^ 32 := by
    rw [u32, Nat.mod_eq_sub_mod (by omega), Nat.mod_eq_of_lt (by omega)]
  rw [alignedPayload, roundDown, Nat.div_eq_of_lt (by omega), zero_mul]

/-- The condition under which `arm_memalign` refuses. -/
def AlignedFull (L : Layout) (h : Heap) (align request : Nat) : Prop :=
  if alignedBump align then
    RoundsPast h align ∨ L.heapLimit < alignedPayload h align + requestSize request
  else Full L h (requestSize request)
  deriving Decidable

/-- `arm_memalign` answers null although it takes memory: the rounded address is cut off to null. -/
def Wraps (L : Layout) (h : Heap) (align request : Nat) : Prop :=
  alignedBump align = true ∧ RoundsPast h align ∧ requestSize request ≤ L.heapLimit
  deriving Decidable

theorem armMemalign_eq_zero_iff (inv : HeapInv L h bs) {align : Nat} (hlt : align < 2 ^ 32)
    (request : Nat) : (armMemalign L h align request).1 = 0 ↔ AlignedFull L h align request := by
  rw [armMemalign_eq, AlignedFull]
  by_cases haligned : alignedBump align
  · have hbase := inv.base_le_ptr
    have hl := layoutConsts
    have hpos : 0 < align := Nat.zero_lt_of_lt (alignedBump_iff.mp haligned).1
    rw [if_pos haligned, if_pos haligned]
    by_cases hroom : L.heapLimit < alignedPayload h align + requestSize request
    · simp [hroom]
    rw [if_neg hroom]
    constructor
    · intro hzero
      by_contra hnot
      have hbehind := le_alignedPayload hpos (not_lt.mp (not_or.mp hnot).1)
      omega
    · intro hrefused
      exact alignedPayload_of_roundsPast inv hlt (hrefused.resolve_right hroom)
  · rw [if_neg haligned, if_neg haligned]
    exact armMalloc_eq_zero_iff inv request

theorem armMemalign_of_alignedFull {align request : Nat} (hwrap : ¬ Wraps L h align request)
    (hrefused : AlignedFull L h align request) : armMemalign L h align request = (0, h) := by
  rw [armMemalign_eq]
  rw [AlignedFull] at hrefused
  by_cases haligned : alignedBump align
  · rw [if_pos haligned] at hrefused ⊢
    rw [if_pos]
    rcases hrefused with hpast | hroom
    · have hlarge : ¬ requestSize request ≤ L.heapLimit := fun hle => hwrap ⟨haligned, hpast, hle⟩
      omega
    · exact hroom
  · rw [if_neg haligned] at hrefused ⊢
    exact armMalloc_of_full hrefused

/-! ## Runs -/

namespace HeapOp

/-- The size a call asks for. -/
def request : HeapOp → Nat
  | .malloc size | .realloc _ size | .memalign _ size => size
  | .free _ | .store _ _ => 0

/-- The state in which a call hands out nothing. -/
def Refused (L : Layout) (g : HeapRun) : HeapOp → Prop
  | .malloc size => Full L g.heap (requestSize size)
  | .realloc va size =>
    (va ≠ 0 ∧ size = 0) ∨
      (Full L g.heap (requestSize size) ∧ ∀ a ∈ g.live, a.payload = va → a.size < armAlign8 size)
  | .memalign align size => AlignedFull L g.heap align size
  | .free _ | .store _ _ => True

/-- The call is a `memalign` whose address wraps. -/
def Overruns (L : Layout) (h : Heap) : HeapOp → Prop
  | .memalign align size => Wraps L h align size
  | _ => False

instance (L : Layout) (g : HeapRun) : ∀ op : HeapOp, Decidable (op.Refused L g)
  | .malloc _ => inferInstanceAs (Decidable (Full L g.heap _))
  | .realloc _ _ => inferInstanceAs (Decidable (_ ∨ (_ ∧ ∀ a ∈ g.live, _)))
  | .memalign align size => inferInstanceAs (Decidable (AlignedFull L g.heap align size))
  | .free _ | .store _ _ => inferInstanceAs (Decidable True)

instance (L : Layout) (h : Heap) : ∀ op : HeapOp, Decidable (op.Overruns L h)
  | .memalign align size => inferInstanceAs (Decidable (Wraps L h align size))
  | .malloc _ | .realloc _ _ | .free _ | .store _ _ => inferInstanceAs (Decidable False)

end HeapOp

namespace HeapRun

/-- What any caller can do: 32-bit sizes and alignments, null or addresses handed out, stores into
live payloads. -/
def Callable (g : HeapRun) : HeapOp → Prop
  | .malloc size => size < 2 ^ 32
  | .free va => va = 0 ∨ va ∈ g.returned
  | .realloc va size => (va = 0 ∨ va ∈ g.returned) ∧ size < 2 ^ 32
  | .memalign align size => align < 2 ^ 32 ∧ size < 2 ^ 32
  | .store va _ => ∃ a ∈ g.live, a.payload ≤ va ∧ va < a.payload + a.size

/-- The call asks for a size that `arm_align8` can round, or is refused anyway, and
no aligned address wraps. -/
def Sized (L : Layout) (g : HeapRun) (op : HeapOp) : Prop :=
  (op.request ≤ 0xFFFFFFF8 ∨ op.Refused L g) ∧ ¬ op.Overruns L g.heap
  deriving Decidable

instance (g : HeapRun) : ∀ op, Decidable (g.Callable op)
  | .malloc _ => inferInstanceAs (Decidable (_ < _))
  | .free _ => inferInstanceAs (Decidable (_ ∨ _))
  | .realloc _ _ | .memalign _ _ => inferInstanceAs (Decidable (_ ∧ _))
  | .store _ _ => inferInstanceAs (Decidable (∃ a ∈ g.live, _))

variable {g : HeapRun}

section

variable (tracks : Tracks L g bs)
include tracks

/-- A caller's live allocation is a live block, under the address and the size it knows. -/
theorem Tracks.exists_block {a : Allocation} (ha : a ∈ g.live) :
    ∃ b ∈ bs, b.live ∧ b.payload = a.payload ∧ b.size = a.size := by
  obtain ⟨b, hb, rfl⟩ := List.mem_map.mp (tracks.live.mem_iff.mp ha)
  obtain ⟨hmem, hlive⟩ := mem_liveBlocks.mp hb
  exact ⟨b, hmem, hlive, rfl, rfl⟩

theorem Tracks.mem_live (hb : b ∈ bs) (hlive : b.live) : b.toAllocation ∈ g.live :=
  tracks.live.mem_iff.mpr (List.mem_map_of_mem (mem_liveBlocks.mpr ⟨hb, hlive⟩))

/-- `arm_heap_owns` and the header word: an address the caller may pass is owned exactly when it is
live. -/
theorem Tracks.owned_iff {va : Nat} (hva : va = 0 ∨ va ∈ g.returned) (size : Nat) :
    (va ≠ 0 ∧ armHeapOwns g.heap va ∧ size ≤ g.heap.mem.read32 (va - heapHdr)) ↔
      ∃ a ∈ g.live, a.payload = va ∧ size ≤ a.size := by
  constructor
  · rintro ⟨hne, howns, hfits⟩
    obtain ⟨b, hb, rfl⟩ := (tracks.null_or_block hva).resolve_left hne
    have hlive := (armHeapOwns_eq_live tracks.inv hb).symm.trans howns
    rw [(tracks.inv.placed b hb).sizeWord] at hfits
    exact ⟨b.toAllocation, tracks.mem_live hb hlive, rfl, hfits⟩
  · rintro ⟨a, ha, rfl, hfits⟩
    obtain ⟨b, hb, hlive, hpayload, hsize⟩ := tracks.exists_block ha
    have hbase := (tracks.inv.placed b hb).above_base
    have hl := layoutConsts
    rw [← hpayload, (tracks.inv.placed b hb).sizeWord, hsize]
    exact ⟨by omega, (armHeapOwns_eq_live tracks.inv hb).trans hlive, hfits⟩

/-- **`arm_realloc` refuses** a size of zero, and what neither fits in place nor finds
a block. -/
theorem Tracks.armRealloc_eq_zero_iff {va : Nat} (hva : va = 0 ∨ va ∈ g.returned) (size : Nat) :
    (armRealloc L g.heap va size).1 = 0 ↔ (HeapOp.realloc va size).Refused L g := by
  rw [armRealloc_fst, HeapOp.Refused]
  by_cases hfreed : va ≠ 0 ∧ size = 0
  · simp [hfreed]
  rw [if_neg hfreed]
  by_cases hplace : va ≠ 0 ∧ armHeapOwns g.heap va ∧
      armAlign8 size ≤ g.heap.mem.read32 (va - heapHdr)
  · obtain ⟨a, ha, hpayload, hfits⟩ := (tracks.owned_iff hva _).mp hplace
    rw [if_pos hplace]
    constructor
    · intro hzero
      exact absurd hzero hplace.1
    · rintro (hzero | ⟨-, hgrow⟩)
      · exact absurd hzero hfreed
      · exact absurd hfits (not_le.mpr (hgrow a ha hpayload))
  · have hgrow : ∀ a ∈ g.live, a.payload = va → a.size < armAlign8 size := by
      intro a ha hpayload
      by_contra hfits
      exact hplace ((tracks.owned_iff hva _).mpr ⟨a, ha, hpayload, not_lt.mp hfits⟩)
    rw [if_neg hplace, armMalloc_eq_zero_iff tracks.inv]
    constructor
    · intro hfull
      exact .inr ⟨hfull, hgrow⟩
    · rintro (hzero | ⟨hfull, -⟩)
      · exact absurd hzero hfreed
      · exact hfull

/-- A request too large to round, refused by `arm_realloc`, leaves the heap alone. -/
theorem Tracks.armRealloc_of_refused {va size : Nat}
    (hva : va = 0 ∨ va ∈ g.returned) (hsize : size ≠ 0)
    (hrefused : (HeapOp.realloc va size).Refused L g) :
    armRealloc L g.heap va size = (0, g.heap) := by
  obtain ⟨hfull, hgrow⟩ := hrefused.resolve_left fun hzero => hsize hzero.2
  apply armRealloc_of_full hsize hfull
  intro hne howns
  by_contra hfits
  obtain ⟨a, ha, hpayload, hle⟩ := (tracks.owned_iff hva _).mp ⟨hne, howns, not_lt.mp hfits⟩
  exact absurd hle (not_le.mpr (hgrow a ha hpayload))

end

theorem armMemalign_spec_of_not_wraps (inv : HeapInv L h bs) {align size : Nat}
    (hsize : size ≤ 0xFFFFFFF8) (hwrap : ¬ Wraps L h align size) :
    armMemalign L h align size = (0, h) ∨
      ∃ b rest, (armMemalign L h align size).1 = b.payload ∧ requestSize size ≤ b.size ∧
        Allocated L h bs (armMemalign L h align size).2 b rest := by
  by_cases hpast : alignedBump align ∧ RoundsPast h align
  · refine .inl (armMemalign_of_alignedFull hwrap ?_)
    rw [AlignedFull, if_pos hpast.1]
    exact .inl hpast.2
  apply armMemalign_spec inv hsize
  intro hpow
  by_contra hwide
  -- a small alignment never reaches 4 GiB
  have hk := heapConsts
  have hptr := inv.ptr_le_limit
  have hlimit := L.heapLimit_le_max
  exact hpast ⟨alignedBump_iff.mpr ⟨by omega, hpow⟩, not_le.mp hwide⟩

/-- **The step lemma for every layout.** A sized call keeps the record in agreement
with some list of blocks. -/
theorem Tracks.step_of_sized (tracks : Tracks L g bs) (op : HeapOp) (hcall : g.Callable op)
    (hsized : Sized L g op) : ∃ bs', Tracks L (HeapRun.step L g op) bs' := by
  cases op with
  | malloc size =>
    rcases hsized.1 with hsmall | hfull
    · exact tracks.handOut_spec (armMalloc_spec tracks.inv hsmall)
    · exact ⟨bs, tracks.handOut_fail (armMalloc_of_full hfull)⟩
  | free va => exact tracks.free hcall
  | realloc va size =>
    by_cases hsmall : size ≤ 0xFFFFFFF8
    · exact tracks.realloc hcall.1 hsmall
    have hne : size ≠ 0 := by omega
    have hfail := tracks.armRealloc_of_refused hcall.1 hne (hsized.1.resolve_left hsmall)
    refine ⟨bs, ?_⟩
    simp only [HeapRun.step, hfail]
    rw [if_pos ⟨trivial, hne⟩]
    exact tracks
  | memalign align size =>
    rcases hsized.1 with hsmall | hrefused
    · exact tracks.handOut_spec (armMemalign_spec_of_not_wraps tracks.inv hsmall hsized.2)
    · exact ⟨bs, tracks.handOut_fail (armMemalign_of_alignedFull hsized.2 hrefused)⟩
  | store va value => exact tracks.store hcall

end HeapRun

end Lunaria
