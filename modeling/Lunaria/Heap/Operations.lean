/-
# What each allocator operation does to the blocks

One specification per allocator entry point, stated over the block view. Blocks
are only ever split, flipped between live and free, or added behind the bump
pointer; none is merged or moved. A payload address that was handed out once
therefore remains the payload address of a block for the rest of the run, which
is what makes stale frees and stale reallocs harmless.
-/

import Lunaria.Heap.Blocks

namespace Lunaria

open Lib List ByteMemory Multimap

variable {L : Layout} {h h' : Heap} {bs rest : List Block} {b : Block}

variable {n : Nat}

theorem armAlign8_bounds (hn : n ≤ 0xFFFFFFF8) : n ≤ armAlign8 n ∧ armAlign8 n < n + 8 := by
  have hu : u32 (n + 7) = n + 7 := u32_of_lt (by omega)
  simp only [armAlign8, roundDown]
  omega

theorem requestSize_bounds (hn : n ≤ 0xFFFFFFF8) : n ≤ requestSize n ∧ 0 < requestSize n := by
  rw [requestSize]
  split
  · have h1 := armAlign8_bounds (show 1 ≤ 0xFFFFFFF8 by norm_num)
    omega
  · have h1 := armAlign8_bounds hn
    omega

/-- An allocation step: `b` is live, what was live still is, payload addresses stay, and no byte of
a live payload has changed. -/
structure Allocated (L : Layout) (h : Heap) (bs : List Block) (h' : Heap) (b : Block)
    (rest : List Block) : Prop where
  inv : HeapInv L h' (b :: rest)
  live : b.live = true
  liveRest : (liveBlocks rest).Perm (liveBlocks bs)
  payloads : ∀ c ∈ bs, ∃ c' ∈ b :: rest, c'.payload = c.payload
  frame : ∀ c ∈ bs, c.live = true → ∀ x, c.payload ≤ x → x < c.payload + c.size →
    h'.mem x = h.mem x

/-! ## Reuse from the free list -/

/-- The state after a free block has been handed out, with `freeList` left. -/
def Heap.reused (h : Heap) (freeList : Multimap Nat Nat) (blk va size : Nat) : Heap :=
  (({ h with freeList := freeList } : Heap).reuse blk va size).2

variable {freeList : Multimap Nat Nat} {size : Nat}

theorem reuse_whole (inv : HeapInv L h (b :: rest)) (hfree : b.live = false)
    (hnosplit : ¬ u32 (size + heapHdr + 8) ≤ b.size)
    (hlist : h.freeList.entries.Perm ((b.size, b.payload) :: freeList.entries)) :
    HeapInv L (h.reused freeList b.size b.payload size) (b.allocate :: rest) ∧
      h.mem.AgreeOutside (h.reused freeList b.size b.payload size).mem b.span.lo b.span.hi := by
  have hbase := (inv.placed b mem_cons_self).above_base
  have hk := heapConsts
  have hentries := hlist.symm.trans inv.entries
  rw [freeEntries_cons_free hfree] at hentries
  have hreuse : h.reused freeList b.size b.payload size =
      ⟨h.mem.write32 (b.payload - 4) allocMagic, h.heapPtr, freeList⟩ := by
    simp [Heap.reused, Heap.reuse, Heap.splitBlock, if_neg hnosplit]
  rw [hreuse]
  have hmem := write32_agreeOutside h.mem (b.payload - 4) allocMagic
  refine ⟨inv.mark true ((perm_cons _).mp hentries), hmem.mono ?_ ?_⟩
  · simp only [Block.span]
    omega
  · simp only [Block.span]
    omega

/-- The heap after a split: two headers are written, and the leftover block is listed. -/
theorem reused_of_split
    (hsplit : size + heapHdr + 8 ≤ b.size) (hend : b.payload + b.size < 2 ^ 32) :
    h.reused freeList b.size b.payload size = ⟨writeHeader (writeHeader h.mem
          ⟨b.payload + size + heapHdr, b.size - size - heapHdr, false⟩) ⟨b.payload, size, true⟩,
        h.heapPtr, freeList.insert (b.size - size - heapHdr) (b.payload + size + heapHdr)⟩ := by
  simp only [Heap.reused, Heap.reuse, Heap.splitBlock]
  rw [u32_of_lt (by omega), if_pos hsplit, u32_of_lt (by omega), u32_of_lt (by omega),
    u32_of_lt (by omega)]
  rfl

/-- Reusing the front of a free block and returning the rest of it to the list. -/
theorem reuse_split (inv : HeapInv L h (b :: rest)) (hfree : b.live = false) (hpos : 0 < size)
    (hsplit : size + heapHdr + 8 ≤ b.size)
    (hlist : h.freeList.entries.Perm ((b.size, b.payload) :: freeList.entries)) :
    HeapInv L (h.reused freeList b.size b.payload size) (⟨b.payload, size, true⟩ ::
          ⟨b.payload + size + heapHdr, b.size - size - heapHdr, false⟩ :: rest) ∧
      h.mem.AgreeOutside (h.reused freeList b.size b.payload size).mem b.span.lo b.span.hi := by
  have hb := inv.placed b mem_cons_self
  have hbase := hb.above_base
  have hbelow := hb.below_ptr
  have hptr := inv.ptr_lt
  -- the leftover block, and the two headers the split writes
  let front : Block := ⟨b.payload, size, true⟩
  let left : Block := ⟨b.payload + size + heapHdr, b.size - size - heapHdr, false⟩
  let m := writeHeader (writeHeader h.mem left) front
  let list := freeList.insert left.size left.payload
  have hreuse : h.reused freeList b.size b.payload size = ⟨m, h.heapPtr, list⟩ :=
    reused_of_split hsplit (by omega)
  have hleft := writeHeader_agreeOutside h.mem (show heapHdr ≤ left.payload by simp [left])
  have hfront := writeHeader_agreeOutside (writeHeader h.mem left)
    (show heapHdr ≤ front.payload by simp only [front]; omega)
  have hspan : h.mem.AgreeOutside m b.span.lo b.span.hi := by
    simp only [left, front] at hleft hfront
    simp only [Block.span]
    exact (hleft.mono (by omega) (by omega)).trans (hfront.mono (by omega) (by omega))
  have hplacedLeft : Placed ⟨m, h.heapPtr, list⟩ left := by
    have h₀ : Placed ⟨writeHeader h.mem left, h.heapPtr, list⟩ left :=
      placed_writeHeader rfl (by simp only [left]; omega) (by simp only [left]; omega) hptr
        (by simp only [left]; omega)
    exact h₀.of_agreeOutside hfront le_rfl (.inr (by simp only [left, front]; omega))
  have hplacedFront : Placed ⟨m, h.heapPtr, list⟩ front :=
    placed_writeHeader rfl hbase (by simp only [front]; omega) hptr hpos
  rw [hreuse]
  refine ⟨?_, hspan⟩
  have hinv : HeapInv L h ([b] ++ rest) := inv
  show HeapInv L _ ([front, left] ++ rest)
  refine hinv.replace le_rfl inv.ptr_le_limit hspan inv.apart_of_cons ?_ ?_ ?_ ?_
  · simp [hplacedFront, hplacedLeft]
  · simp only [mem_cons, not_mem_nil, or_false, forall_eq_or_imp, forall_eq,
      Interval.Within, Block.span, front, left]
    omega
  · simp only [Interval.Apart, Block.span, front, left]
    simp
  have hentries := hlist.symm.trans inv.entries
  rw [freeEntries_cons_free hfree] at hentries
  exact (insert_perm ..).trans (((perm_cons _).mp hentries).cons _)

/-- A free block of sufficient size becomes a live one, split or not. -/
theorem reuse_allocated
    (inv : HeapInv L h (b :: rest)) (hperm : bs.Perm (b :: rest)) (hfree : b.live = false)
    (hpos : 0 < size) (hfits : size ≤ b.size)
    (hlist : h.freeList.entries.Perm ((b.size, b.payload) :: freeList.entries)) :
    ∃ b' rest', b'.payload = b.payload ∧ size ≤ b'.size ∧
      Allocated L h bs (h.reused freeList b.size b.payload size) b' rest' := by
  have hb := inv.placed b mem_cons_self
  have hbase := hb.above_base
  have hbelow := hb.below_ptr
  have hptr := inv.ptr_lt
  have hl := layoutConsts
  have hlive : (liveBlocks bs).Perm (liveBlocks rest) := by
    have hfilter : (liveBlocks bs).Perm (liveBlocks (b :: rest)) := hperm.filter _
    rwa [liveBlocks_cons_free hfree] at hfilter
  -- a live block is not `b`, so it lies apart from the bytes that changed
  have hframe {m : ByteMemory} (hmem : h.mem.AgreeOutside m b.span.lo b.span.hi) :
      ∀ c ∈ bs, c.live → ∀ x, c.payload ≤ x → x < c.payload + c.size → m x = h.mem x := by
    intro c hc hclive x hlo hhi
    rcases mem_cons.mp (hperm.mem_iff.mp hc) with rfl | hrest
    · simp [hfree] at hclive
    have hapart := inv.apart_of_cons c hrest
    simp only [Interval.Apart, Block.span] at hapart
    refine hmem x ?_
    simp only [Block.span]
    omega
  -- every old block still has its place, `b` that of the block handed out
  have hkept (b' : Block) {rest' : List Block} (hpayload : b'.payload = b.payload)
      (hsub : ∀ c ∈ rest, c ∈ rest') :
      ∀ c ∈ bs, ∃ c' ∈ b' :: rest', c'.payload = c.payload := by
    intro c hc
    rcases mem_cons.mp (hperm.mem_iff.mp hc) with rfl | hrest
    · exact ⟨b', mem_cons_self, hpayload⟩
    · exact ⟨c, mem_cons_of_mem _ (hsub c hrest), rfl⟩
  by_cases hsplit : size + heapHdr + 8 ≤ b.size
  · obtain ⟨hinv, hmem⟩ := reuse_split inv hfree hpos hsplit hlist
    refine ⟨⟨b.payload, size, true⟩, _, rfl, le_rfl, hinv, rfl, ?_, ?_, hframe hmem⟩
    · exact hlive.symm
    · exact hkept _ rfl fun c hc => mem_cons_of_mem _ hc
  · have hnosplit : ¬ u32 (size + heapHdr + 8) ≤ b.size := by
      rwa [u32_of_lt (by omega)]
    obtain ⟨hinv, hmem⟩ := reuse_whole inv hfree hnosplit hlist
    exact ⟨b.allocate, rest, rfl, hfits, hinv, rfl, hlive.symm, hkept _ rfl fun _ hc => hc,
      hframe hmem⟩

/-! ## Bump allocation -/

/-- A block bumped behind the heap pointer. The gap `memalign` may leave belongs to no block. -/
theorem bump_allocated {payload : Nat} (inv : HeapInv L h bs)
    (hlo : h.heapPtr + heapHdr ≤ payload) (hhi : payload + size ≤ L.heapLimit) (hpos : 0 < size) :
    Allocated L h bs (h.bumpBlock payload size) ⟨payload, size, true⟩ bs := by
  have hk := heapConsts
  have hlimit := L.heapLimit_le_max
  have hbase := inv.base_le_ptr
  let fresh : Block := ⟨payload, size, true⟩
  have hbump : h.bumpBlock payload size =
      ⟨writeHeader h.mem fresh, payload + size, h.freeList⟩ := by
    simp only [Heap.bumpBlock]
    rw [u32_of_lt (by omega), sub32_of_le (by omega) (by omega), sub32_of_le (by omega) (by omega)]
    rfl
  have hmem := writeHeader_agreeOutside h.mem (b := fresh) (show heapHdr ≤ payload by omega)
  have hrange : h.mem.AgreeOutside (writeHeader h.mem fresh) (payload - heapHdr)
      (payload + size) := hmem.mono le_rfl (show payload ≤ payload + size by omega)
  rw [hbump]
  refine ⟨?_, rfl, List.Perm.refl _, fun c hc => ⟨c, by simp [hc], rfl⟩, ?_⟩
  · have hinv : HeapInv L h ([] ++ bs) := inv
    refine hinv.replace ?_ hhi hrange ?_ ?_ ?_ (pairwise_singleton ..) ?_
    · show h.heapPtr ≤ payload + size
      omega
    · intro c hc
      have hbelow := (inv.placed c hc).below_ptr
      exact .inl (by simp only [Block.span]; omega)
    · simp only [mem_singleton, forall_eq]
      exact placed_writeHeader rfl (by simp only; omega) le_rfl
        (show payload + size < 2 ^ 32 by omega) hpos
    · simp only [mem_singleton, forall_eq]
      exact ⟨le_rfl, le_rfl⟩
    · show h.freeList.entries.Perm (freeEntries (fresh :: bs))
      exact inv.entries
  · intro c hc _ x _ hxhi
    have hbelow := (inv.placed c hc).below_ptr
    refine hmem x (.inl ?_)
    simp only [fresh]
    omega

theorem Allocated.mem_rest (alloc : Allocated L h bs h' b rest) {c : Block} (hc : c ∈ bs)
    (hlive : c.live) : c ∈ rest :=
  (mem_liveBlocks.mp (alloc.liveRest.symm.mem_iff.mp (mem_liveBlocks.mpr ⟨hc, hlive⟩))).1

theorem Allocated.write_payload {m : ByteMemory} (alloc : Allocated L h bs h' b rest)
    (hmem : h'.mem.AgreeOutside m b.payload (b.payload + b.size)) :
    Allocated L h bs { h' with mem := m } b rest where
  inv := alloc.inv.write_payload mem_cons_self hmem
  live := alloc.live
  liveRest := alloc.liveRest
  payloads := alloc.payloads
  frame c hc hlive x hlo hhi := by
    rw [← alloc.frame c hc hlive x hlo hhi]
    have hapart := alloc.inv.apart_of_cons c (alloc.mem_rest hc hlive)
    simp only [Interval.Apart, Block.span] at hapart
    refine hmem x ?_
    omega

theorem bump_of_room (hroom : ¬ L.heapLimit < h.heapPtr + heapHdr + size) : h.bump L size =
      (h.heapPtr + heapHdr, { h.bumpBlock (h.heapPtr + heapHdr) size with
        mem := (h.bumpBlock (h.heapPtr + heapHdr) size).mem.fill (h.heapPtr + heapHdr) size
          0xFF }) := by
  have hlimit := L.heapLimit_le_max
  rw [Heap.bump, if_neg hroom, u32_of_lt (by omega)]

/-- The bump path of `arm_malloc`. -/
theorem bump_spec (inv : HeapInv L h bs) (hpos : 0 < size) : h.bump L size = (0, h) ∨
      (h.bump L size).1 = h.heapPtr + heapHdr ∧
        Allocated L h bs (h.bump L size).2 ⟨h.heapPtr + heapHdr, size, true⟩ bs := by
  by_cases hroom : L.heapLimit < h.heapPtr + heapHdr + size
  · exact .inl (by rw [Heap.bump, if_pos hroom])
  have halloc := bump_allocated inv le_rfl (not_lt.mp hroom) hpos
  rw [bump_of_room hroom]
  exact .inr ⟨rfl, halloc.write_payload (fill_agreeOutside _ _ _ _)⟩

/-! ## The four entry points -/

/-- `arm_malloc` either fails and changes nothing, or hands out a live block that
covers the request. -/
theorem armMalloc_spec (inv : HeapInv L h bs) (hn : n ≤ 0xFFFFFFF8) : armMalloc L h n = (0, h) ∨
      ∃ b rest, (armMalloc L h n).1 = b.payload ∧ requestSize n ≤ b.size ∧
        Allocated L h bs (armMalloc L h n).2 b rest := by
  have hpos := (requestSize_bounds hn).2
  simp only [armMalloc]
  generalize requestSize n = size at hpos
  cases hreap : h.freeList.reapFrom size h.staleEntry with
  | mk found freeList =>
    cases found with
    | some entry =>
      obtain ⟨hmem, hfits, -⟩ := reapFrom_some hreap
      have hlist := reapFrom_perm inv.not_stale hreap
      obtain ⟨b, hb, hfree, hsize, hpayload⟩ := mem_freeEntries.mp (inv.entries.mem_iff.mp hmem)
      obtain ⟨blk, va⟩ := entry
      obtain rfl : b.size = blk := hsize
      obtain rfl : b.payload = va := hpayload
      obtain ⟨rest, hperm, hcons⟩ := inv.exists_cons hb
      obtain ⟨b', rest', hpayload', hfits', halloc⟩ :=
        reuse_allocated hcons hperm hfree hpos hfits hlist
      exact .inr ⟨b', rest', hpayload'.symm, hfits', halloc⟩
    | none =>
      obtain rfl := reapFrom_none inv.not_stale hreap
      rcases bump_spec inv hpos with hfail | ⟨hva, halloc⟩
      · exact .inl hfail
      · exact .inr ⟨⟨h.heapPtr + heapHdr, size, true⟩, bs, hva, le_rfl, halloc⟩

/-- `arm_free` of the payload address of a live block releases that block. -/
theorem armFree_live (inv : HeapInv L h (b :: rest)) (hlive : b.live) :
    HeapInv L (armFree h b.payload) (b.release :: rest) ∧
      ∀ x, x < b.span.lo ∨ b.payload ≤ x → (armFree h b.payload).mem x = h.mem x := by
  have hb := inv.placed b mem_cons_self
  have hbase := hb.above_base
  have hbelow := hb.below_ptr
  have hpos := hb.positive
  have hk := heapConsts
  have hmagic : h.mem.read32 (b.payload - 4) = allocMagic := by
    rw [hb.magicWord, Block.magic, if_pos hlive]
  have hfree : armFree h b.payload =
      ⟨h.mem.write32 (b.payload - 4) freeMagic, h.heapPtr, h.freeList.insert b.size b.payload⟩ := by
    have howns : armHeapOwns h b.payload := by
      simp only [armHeapOwns, hmagic, beq_self_eq_true, Bool.and_true, Bool.and_eq_true,
        decide_eq_true_eq]
      omega
    rw [armFree, if_neg (by simp [howns]; omega)]
    simp only [hb.sizeWord]
    rw [if_neg (by simp; omega)]
  have hentries := inv.entries
  rw [freeEntries_cons_live hlive] at hentries
  rw [hfree]
  refine ⟨inv.mark false ((insert_perm ..).trans (hentries.cons _)), fun x hx => ?_⟩
  apply write32_agreeOutside h.mem
  simp only [Block.span] at hx
  omega

section

variable (inv : HeapInv L h bs) (hb : b ∈ bs)
include inv hb

theorem armFree_free (hfree : b.live = false) : armFree h b.payload = h := by
  have hmagic : h.mem.read32 (b.payload - 4) = freeMagic := by
    rw [(inv.placed b hb).magicWord, Block.magic, if_neg (by simp [hfree])]
  have howns : armHeapOwns h b.payload = false := by
    simp [armHeapOwns, hmagic, allocMagic, freeMagic]
  rw [armFree, if_pos (by simp [howns])]

theorem armHeapOwns_eq_live : armHeapOwns h b.payload = b.live := by
  have hplaced := inv.placed b hb
  have hbase := hplaced.above_base
  have hbelow := hplaced.below_ptr
  have hpos := hplaced.positive
  have hlo := decide_eq_true hbase
  have hhi : decide (b.payload < h.heapPtr) := decide_eq_true (by omega)
  rw [armHeapOwns, hplaced.magicWord, hlo, hhi, Block.magic]
  cases b.live <;> rfl

/-- `arm_realloc` of a freed address allocates afresh; the bytes it copies land in
the new payload only. -/
theorem armRealloc_freed (hfree : b.live = false) (hn : n ≤ 0xFFFFFFF8) (hn0 : n ≠ 0) :
    armRealloc L h b.payload n = (0, h) ∨
      ∃ nb rest, (armRealloc L h b.payload n).1 = nb.payload ∧ requestSize n ≤ nb.size ∧
        Allocated L h bs (armRealloc L h b.payload n).2 nb rest := by
  have hbase := (inv.placed b hb).above_base
  have hl := layoutConsts
  have howns : armHeapOwns h b.payload = false := (armHeapOwns_eq_live inv hb).trans hfree
  have hrealloc : armRealloc L h b.payload n = if (armMalloc L h n).1 = 0 then armMalloc L h n
      else ((armMalloc L h n).1, { (armMalloc L h n).2 with
          mem := (armMalloc L h n).2.mem.move (armMalloc L h n).1 b.payload n }) := by
    rw [armRealloc, if_neg (by omega), if_neg hn0, if_pos (by simp [howns])]
  rcases armMalloc_spec inv hn with hfail | ⟨nb, rest, hva, hfits, halloc⟩
  · exact .inl (by rw [hrealloc, hfail, if_pos rfl])
  have hnb := (halloc.inv.placed nb mem_cons_self).above_base
  have hsize := (requestSize_bounds hn).1
  rw [hrealloc, if_neg (by omega)]
  refine .inr ⟨nb, rest, hva, hfits, halloc.write_payload ?_⟩
  rw [hva]
  exact (move_agreeOutside _ _ _ _).mono le_rfl (by omega)

theorem armRealloc_in_place (hlive : b.live) (hn0 : n ≠ 0) (hfits : armAlign8 n ≤ b.size) :
    armRealloc L h b.payload n = (b.payload, h) := by
  have hbase := (inv.placed b hb).above_base
  have hl := layoutConsts
  have howns := (armHeapOwns_eq_live inv hb).trans hlive
  rw [armRealloc, if_neg (by omega), if_neg hn0, if_neg (by simp [howns])]
  simp only [(inv.placed b hb).sizeWord]
  rw [if_pos hfits]

/-- `arm_realloc` of a live block that has to grow fails and changes nothing, or allocates, copies
and frees, in that order. -/
theorem armRealloc_moves (hlive : b.live) (hn : n ≤ 0xFFFFFFF8) (hn0 : n ≠ 0)
    (hgrow : b.size < armAlign8 n) : armRealloc L h b.payload n = (0, h) ∨
      ∃ nb rest, (armMalloc L h n).1 = nb.payload ∧ requestSize n ≤ nb.size ∧
        b.size ≤ nb.size ∧ Allocated L h bs (armMalloc L h n).2 nb rest ∧ b ∈ rest ∧
        armRealloc L h b.payload n = (nb.payload, armFree { (armMalloc L h n).2 with
            mem := (armMalloc L h n).2.mem.move nb.payload b.payload b.size } b.payload) := by
  have hbase := (inv.placed b hb).above_base
  have hsizeWord := (inv.placed b hb).sizeWord
  have hl := layoutConsts
  have howns : armHeapOwns h b.payload := (armHeapOwns_eq_live inv hb).trans hlive
  have hrealloc : armRealloc L h b.payload n = if (armMalloc L h n).1 = 0 then armMalloc L h n
      else ((armMalloc L h n).1, armFree { (armMalloc L h n).2 with
          mem := (armMalloc L h n).2.mem.move (armMalloc L h n).1 b.payload b.size }
        b.payload) := by
    rw [armRealloc, if_neg (by omega), if_neg hn0, if_neg (by simp [howns])]
    simp only [hsizeWord]
    rw [if_neg (by omega)]
  rcases armMalloc_spec inv hn with hfail | ⟨nb, rest, hva, hfits, halloc⟩
  · exact .inl (by rw [hrealloc, hfail, if_pos rfl])
  have hnb := (halloc.inv.placed nb mem_cons_self).above_base
  have hcover : b.size ≤ nb.size := by
    rw [requestSize, if_neg hn0] at hfits
    omega
  refine .inr ⟨nb, rest, hva, hfits, hcover, halloc, halloc.mem_rest hb hlive, ?_⟩
  rw [hrealloc, if_neg (by omega), hva]

end

/-- Copying a live block into the one just handed out and releasing it: no byte changes but the copy
and the old header. -/
theorem Allocated.move_release {nb : Block} (halloc : Allocated L h bs h' nb rest)
    (hb : b ∈ rest) (hlive : b.live) (hcover : b.size ≤ nb.size) :
    HeapInv L (armFree { h' with mem := h'.mem.move nb.payload b.payload b.size } b.payload)
        (nb :: b.release :: rest.erase b) ∧ ∀ x, x < b.span.lo ∨ b.payload ≤ x →
        (armFree { h' with mem := h'.mem.move nb.payload b.payload b.size } b.payload).mem x =
          h'.mem.move nb.payload b.payload b.size x := by
  have hmoved := halloc.write_payload
    ((move_agreeOutside _ nb.payload b.size b.payload).mono le_rfl (by omega))
  -- the old block is still live behind the new one, and is released last
  have hfront := ((perm_cons_erase hb).cons nb).trans (List.Perm.swap ..)
  obtain ⟨hfreed, hframe⟩ := armFree_live (hmoved.inv.perm hfront) hlive
  exact ⟨hfreed.perm (List.Perm.swap ..), hframe⟩

theorem armRealloc_grows (inv : HeapInv L h bs) (hb : b ∈ bs) (hlive : b.live) (hn : n ≤ 0xFFFFFFF8)
    (hn0 : n ≠ 0) (hgrow : b.size < armAlign8 n) : armRealloc L h b.payload n = (0, h) ∨
      ∃ nb rest, (armRealloc L h b.payload n).1 = nb.payload ∧ requestSize n ≤ nb.size ∧ nb.live ∧
        HeapInv L (armRealloc L h b.payload n).2 (nb :: b.release :: rest) ∧
        (liveBlocks bs).Perm (b :: liveBlocks rest) ∧
        ∀ c ∈ bs, ∃ c' ∈ nb :: b.release :: rest, c'.payload = c.payload := by
  rcases armRealloc_moves inv hb hlive hn hn0 hgrow with
    hfail | ⟨nb, rest, hva, hfits, hcover, halloc, hbrest, hrealloc⟩
  · exact .inl hfail
  have hperm := perm_cons_erase hbrest
  have hfront := (hperm.cons nb).trans (List.Perm.swap ..)
  rw [hrealloc]
  refine .inr ⟨nb, rest.erase b, rfl, hfits, halloc.live, ?_, ?_, ?_⟩
  · exact (halloc.move_release hbrest hlive hcover).1
  · have hlivePerm : (liveBlocks rest).Perm (liveBlocks (b :: rest.erase b)) := hperm.filter _
    rw [liveBlocks_cons_live hlive] at hlivePerm
    exact halloc.liveRest.symm.trans hlivePerm
  intro c hc
  obtain ⟨c', hc', hpayload⟩ := halloc.payloads c hc
  rcases mem_cons.mp (hfront.mem_iff.mp hc') with rfl | hrest
  · exact ⟨c'.release, by simp, hpayload⟩
  · refine ⟨c', ?_, hpayload⟩
    rcases mem_cons.mp hrest with rfl | hrest
    · exact mem_cons_self
    · exact mem_cons_of_mem _ (mem_cons_of_mem _ hrest)

/-- The test `a & (a - 1)` recognises powers of two. -/
theorem exists_eq_two_pow {a : Nat} (hne : a ≠ 0) (hpow : a &&& (a - 1) = 0) : ∃ k, a = 2 ^ k := by
  refine ⟨a.log2, ?_⟩
  by_contra hgt
  have hlo := Nat.log2_self_le hne
  have hhi : a < 2 ^ (a.log2 + 1) := Nat.lt_log2_self
  -- otherwise the leading bit is set in both operands
  have hleft : a.testBit a.log2 := Nat.testBit_of_two_pow_le_and_two_pow_add_one_gt hlo hhi
  have hright : (a - 1).testBit a.log2 :=
    Nat.testBit_of_two_pow_le_and_two_pow_add_one_gt (by omega) (by omega)
  have hbit : (a &&& (a - 1)).testBit a.log2 := by
    rw [Nat.testBit_and, hleft, hright, Bool.and_true]
  simp [hpow] at hbit

theorem two_pow_and_pred (k : Nat) : 2 ^ k &&& (2 ^ k - 1) = 0 := by
  rw [Nat.and_two_pow_sub_one_eq_mod, Nat.mod_self]

theorem le_of_and_pred_eq_zero {a : Nat} (hlt : a < 2 ^ 32) (hpow : a &&& (a - 1) = 0) :
    a ≤ 2 ^ 31 := by
  by_cases hzero : a = 0
  · omega
  · obtain ⟨k, rfl⟩ := exists_eq_two_pow hzero hpow
    have hk : k < 32 := (Nat.pow_lt_pow_iff_right (by norm_num)).mp hlt
    exact Nat.pow_le_pow_right (by norm_num) (by omega)

/-- `arm_memalign` behaves like `arm_malloc` unless the rounded address wraps; the payload is
aligned. -/
theorem armMemalign_spec (inv : HeapInv L h bs) {a : Nat} (hn : n ≤ 0xFFFFFFF8)
    (hwrap : a &&& (a - 1) = 0 → h.heapPtr + heapHdr + a ≤ 2 ^ 32) : armMemalign L h a n = (0, h) ∨
      ∃ b rest, (armMemalign L h a n).1 = b.payload ∧ requestSize n ≤ b.size ∧
        Allocated L h bs (armMemalign L h a n).2 b rest := by
  by_cases hplain : (decide (a ≤ heapHdr) || decide (a &&& (a - 1) ≠ 0))
  · rw [armMemalign, if_pos hplain]
    exact armMalloc_spec inv hn
  obtain ⟨ha, hpow⟩ : heapHdr < a ∧ a &&& (a - 1) = 0 := by
    simp only [Bool.or_eq_true, decide_eq_true_eq, not_or, not_le, not_not] at hplain
    exact hplain
  have hu : u32 (h.heapPtr + heapHdr + a - 1) = h.heapPtr + heapHdr + a - 1 := u32_of_lt (by omega)
  have hlo := lt_roundDown_add (show 0 < a by omega) (h.heapPtr + heapHdr + a - 1)
  simp only [armMemalign, if_neg hplain, hu]
  by_cases hroom : L.heapLimit < roundDown (h.heapPtr + heapHdr + a - 1) a + requestSize n
  · exact .inl (by rw [if_pos hroom])
  · rw [if_neg hroom]
    exact .inr ⟨_, bs, rfl, le_rfl, bump_allocated inv (by omega) (not_lt.mp hroom)
      (requestSize_bounds hn).2⟩

end Lunaria
