/-
# The heap as a list of blocks

The allocator keeps no table of its blocks: liveness and size are only in the
header words. This module is the abstract view the proofs work with. A `Block` is
a payload address, a payload size and a liveness bit, and `HeapInv` says that the
arena bytes, the bump pointer and the free list represent a given list of blocks.
Every allocator operation then replaces a few blocks inside one range of the
arena; `HeapInv.replace` is that step, proved once.
-/

import Lunaria.Heap.Allocator

namespace Lunaria

open Lib List ByteMemory

/-- One block of the heap: the payload follows an 8-byte header. -/
structure Block where
  payload : Nat
  size : Nat
  live : Bool
  deriving DecidableEq, Repr

namespace Block

def span (b : Block) : Interval := ⟨b.payload - heapHdr, b.payload + b.size⟩

def magic (b : Block) : Nat := if b.live then allocMagic else freeMagic

def allocate (b : Block) : Block := { b with live := true }

def release (b : Block) : Block := { b with live := false }

end Block

def liveBlocks (bs : List Block) : List Block := bs.filter fun b => b.live

/-- The free-list entries the free blocks of a heap call for. -/
def freeEntries (bs : List Block) : List (Nat × Nat) :=
  (bs.filter fun b => !b.live).map fun b => (b.size, b.payload)

variable {b : Block}

@[simp]
theorem liveBlocks_cons_live (hb : b.live) (bs : List Block) :
    liveBlocks (b :: bs) = b :: liveBlocks bs := by
  simp [liveBlocks, hb]

@[simp]
theorem liveBlocks_cons_free (hb : b.live = false) (bs : List Block) :
    liveBlocks (b :: bs) = liveBlocks bs := by
  simp [liveBlocks, hb]

@[simp]
theorem freeEntries_cons_live (hb : b.live) (bs : List Block) :
    freeEntries (b :: bs) = freeEntries bs := by
  simp [freeEntries, hb]

@[simp]
theorem freeEntries_cons_free (hb : b.live = false) (bs : List Block) :
    freeEntries (b :: bs) = (b.size, b.payload) :: freeEntries bs := by
  simp [freeEntries, hb]

theorem mem_liveBlocks {bs : List Block} : b ∈ liveBlocks bs ↔ b ∈ bs ∧ b.live := by
  simp [liveBlocks]

theorem mem_freeEntries {entry : Nat × Nat} {bs : List Block} : entry ∈ freeEntries bs ↔
      ∃ b ∈ bs, b.live = false ∧ b.size = entry.1 ∧ b.payload = entry.2 := by
  simp only [freeEntries, mem_map, mem_filter, Bool.not_eq_eq_eq_not]
  constructor
  · rintro ⟨b, ⟨hb, hlive⟩, rfl⟩
    exact ⟨b, hb, hlive, rfl, rfl⟩
  · rintro ⟨b, hb, hlive, hsize, hpayload⟩
    exact ⟨b, ⟨hb, hlive⟩, Prod.ext hsize hpayload⟩

/-- A block whose header is in place and whose bytes lie inside the bumped part
of the heap. -/
structure Placed (h : Heap) (b : Block) : Prop where
  above_base : heapBase + heapHdr ≤ b.payload
  below_ptr : b.payload + b.size ≤ h.heapPtr
  positive : 0 < b.size
  sizeWord : h.mem.read32 (b.payload - heapHdr) = b.size
  magicWord : h.mem.read32 (b.payload - 4) = b.magic

/-- Both header words of a block, written in front of its payload. -/
def writeHeader (m : ByteMemory) (b : Block) : ByteMemory :=
  (m.write32 (b.payload - heapHdr) b.size).write32 (b.payload - 4) b.magic

theorem writeHeader_agreeOutside (m : ByteMemory) (hb : heapHdr ≤ b.payload) :
    m.AgreeOutside (writeHeader m b) (b.payload - heapHdr) b.payload := by
  have hk := heapConsts
  have hsize := write32_agreeOutside m (b.payload - heapHdr) b.size
  have hmagic := write32_agreeOutside
    (m.write32 (b.payload - heapHdr) b.size) (b.payload - 4) b.magic
  exact (hsize.mono (by omega) (by omega)).trans (hmagic.mono (by omega) (by omega))

theorem placed_writeHeader {h : Heap} {m : ByteMemory}
    (hmem : h.mem = writeHeader m b) (hbase : heapBase + heapHdr ≤ b.payload)
    (hptr : b.payload + b.size ≤ h.heapPtr) (hlt : h.heapPtr < 2 ^ 32) (hpos : 0 < b.size) :
    Placed h b := by
  have hk := heapConsts
  have hmagic : b.magic < 2 ^ 32 := by
    rw [Block.magic]
    split <;> omega
  refine ⟨hbase, hptr, hpos, ?_, ?_⟩
  · rw [hmem, writeHeader, read32_write32_of_disjoint _ _ _ _ (by omega),
      read32_write32 _ _ _ (by omega)]
  · rw [hmem, writeHeader, read32_write32 _ _ _ hmagic]

theorem Placed.of_agreeOutside {h h' : Heap} {lo hi : Nat} (hb : Placed h b)
    (hmem : h.mem.AgreeOutside h'.mem lo hi) (hptr : h.heapPtr ≤ h'.heapPtr)
    (hout : b.payload ≤ lo ∨ hi ≤ b.payload - heapHdr) : Placed h' b := by
  have hk := heapConsts
  have hbase := hb.above_base
  refine ⟨hbase, hb.below_ptr.trans hptr, hb.positive, ?_, ?_⟩
  · rw [hmem.read32_eq (by omega)]
    exact hb.sizeWord
  · rw [hmem.read32_eq (by omega)]
    exact hb.magicWord

/-- **The heap invariant.** The state represents the blocks `bs`. -/
structure HeapInv (L : Layout) (h : Heap) (bs : List Block) : Prop where
  base_le_ptr : heapBase ≤ h.heapPtr
  ptr_le_limit : h.heapPtr ≤ L.heapLimit
  placed : ∀ b ∈ bs, Placed h b
  apart : bs.Pairwise fun b c => b.span.Apart c.span
  entries : h.freeList.entries.Perm (freeEntries bs)

namespace HeapInv

variable {L : Layout} {h h' : Heap} {bs old news rest : List Block} {b : Block}

theorem perm {bs' : List Block} (inv : HeapInv L h bs) (hperm : bs.Perm bs') : HeapInv L h bs' where
  base_le_ptr := inv.base_le_ptr
  ptr_le_limit := inv.ptr_le_limit
  placed b hb := inv.placed b (hperm.mem_iff.mpr hb)
  apart := (hperm.pairwise_iff fun hbc => hbc.symm).mp inv.apart
  entries := inv.entries.trans ((hperm.filter _).map _)

theorem ptr_lt (inv : HeapInv L h bs) : h.heapPtr < 2 ^ 32 :=
  lt_of_le_of_lt (inv.ptr_le_limit.trans L.heapLimit_le_max) (by norm_num)

theorem exists_cons (inv : HeapInv L h bs) (hb : b ∈ bs) :
    ∃ rest, bs.Perm (b :: rest) ∧ HeapInv L h (b :: rest) := by
  have hperm := perm_cons_erase hb
  exact ⟨_, hperm, inv.perm hperm⟩

theorem apart_of_cons (inv : HeapInv L h (b :: rest)) : ∀ c ∈ rest, c.span.Apart b.span :=
  fun c hc => ((pairwise_cons.mp inv.apart).1 c hc).symm

theorem eq_of_payload_eq {c : Block} (inv : HeapInv L h bs) (hb : b ∈ bs) (hc : c ∈ bs)
    (heq : c.payload = b.payload) : c = b := by
  obtain ⟨rest, hperm, hcons⟩ := inv.exists_cons hb
  rcases mem_cons.mp (hperm.mem_iff.mp hc) with rfl | hrest
  · rfl
  -- two distinct blocks with one payload address would share a header byte
  have hbase := (inv.placed b hb).above_base
  have hk := heapConsts
  have hapart := hcons.apart_of_cons c hrest
  simp only [Interval.Apart, Block.span] at hapart
  omega

/-- **The replacement step.** An operation that touches only `[lo, hi)`, which no block of `rest`
meets, and leaves the blocks `news` placed there, turns a heap of `old ++ rest` into one of `news ++
rest`. -/
theorem replace {lo hi : Nat} (inv : HeapInv L h (old ++ rest))
    (hptr : h.heapPtr ≤ h'.heapPtr) (hlimit : h'.heapPtr ≤ L.heapLimit)
    (hmem : h.mem.AgreeOutside h'.mem lo hi) (hrest : ∀ c ∈ rest, c.span.Apart ⟨lo, hi⟩)
    (hplaced : ∀ b ∈ news, Placed h' b) (hwithin : ∀ b ∈ news, b.span.Within ⟨lo, hi⟩)
    (hapart : news.Pairwise fun b c => b.span.Apart c.span)
    (hentries : h'.freeList.entries.Perm (freeEntries (news ++ rest))) :
    HeapInv L h' (news ++ rest) where
  base_le_ptr := inv.base_le_ptr.trans hptr
  ptr_le_limit := hlimit
  placed b hb := by
    rcases mem_append.mp hb with hnew | hold
    · exact hplaced b hnew
    · refine (inv.placed b (mem_append_right old hold)).of_agreeOutside hmem hptr ?_
      have hout := hrest b hold
      simp only [Interval.Apart, Block.span] at hout
      omega
  apart := by
    refine pairwise_append.mpr ⟨hapart, (pairwise_append.mp inv.apart).2.1, ?_⟩
    intro b hb c hc
    exact (hrest c hc).symm.of_within (hwithin b hb)
  entries := hentries

/-- Replace the block in front by one of the same extent: the shape of every operation on an
existing block. -/
theorem replace_head {b' : Block} (inv : HeapInv L h (b :: rest)) (hptr : h'.heapPtr = h.heapPtr)
    (hmem : h.mem.AgreeOutside h'.mem b.span.lo b.span.hi)
    (hpayload : b'.payload = b.payload) (hsize : b'.size = b.size) (hplaced : Placed h' b')
    (hentries : h'.freeList.entries.Perm (freeEntries (b' :: rest))) :
    HeapInv L h' (b' :: rest) := by
  have hspan : b'.span = b.span := by simp [Block.span, hpayload, hsize]
  have hinv : HeapInv L h ([b] ++ rest) := inv
  refine hinv.replace hptr.ge (hptr ▸ inv.ptr_le_limit) hmem inv.apart_of_cons ?_ ?_
    (pairwise_singleton ..) hentries
  · simpa using hplaced
  · simp only [mem_singleton, forall_eq, hspan]
    exact ⟨le_rfl, le_rfl⟩

theorem mark (inv : HeapInv L h (b :: rest)) (live : Bool) {freeList : Multimap Nat Nat}
    (hentries : freeList.entries.Perm (freeEntries ({ b with live } :: rest))) :
    HeapInv L ⟨h.mem.write32 (b.payload - 4) (if live then allocMagic else freeMagic), h.heapPtr,
      freeList⟩ ({ b with live } :: rest) := by
  have hb := inv.placed b mem_cons_self
  have hbase := hb.above_base
  have hk := heapConsts
  have hmem := write32_agreeOutside h.mem (b.payload - 4) (if live then allocMagic else freeMagic)
  refine inv.replace_head rfl ?_ rfl rfl ⟨hbase, hb.below_ptr, hb.positive, ?_, ?_⟩ hentries
  · exact hmem.mono (by simp only [Block.span]; omega) (by simp only [Block.span]; omega)
  · simp only
    rw [read32_write32_of_disjoint _ _ _ _ (by omega)]
    exact hb.sizeWord
  · exact read32_write32 _ _ _ (by split <;> omega)

theorem write_payload {m : ByteMemory} (inv : HeapInv L h bs) (hb : b ∈ bs)
    (hmem : h.mem.AgreeOutside m b.payload (b.payload + b.size)) :
    HeapInv L { h with mem := m } bs := by
  obtain ⟨rest, hperm, hcons⟩ := inv.exists_cons hb
  have hhead : HeapInv L { h with mem := m } (b :: rest) := by
    refine hcons.replace_head rfl ?_ rfl rfl ?_ hcons.entries
    · exact hmem.mono (by simp only [Block.span]; omega) (by simp [Block.span])
    · exact (inv.placed b hb).of_agreeOutside hmem le_rfl (.inl le_rfl)
  exact hhead.perm hperm.symm

theorem not_stale (inv : HeapInv L h bs) : ∀ e ∈ h.freeList.entries, h.staleEntry e = false := by
  intro e he
  obtain ⟨b, hb, hlive, hsize, hpayload⟩ := mem_freeEntries.mp (inv.entries.mem_iff.mp he)
  have hplaced := inv.placed b hb
  have hbase := hplaced.above_base
  have hptr := hplaced.below_ptr
  have hpos := hplaced.positive
  have hsizeWord := hplaced.sizeWord
  have hmagicWord := hplaced.magicWord
  rw [Block.magic, if_neg (by simp [hlive])] at hmagicWord
  simp only [Heap.staleEntry, ← hpayload, ← hsize, hsizeWord, hmagicWord, Bool.or_eq_false_iff,
    decide_eq_false_iff_not, bne_self_eq_false, and_true]
  omega

end HeapInv

/-- Nothing bumped, nothing allocated. -/
theorem heapInv_initial (L : Layout) (mem : ByteMemory) : HeapInv L (Heap.initial mem) [] where
  base_le_ptr := le_rfl
  ptr_le_limit := by
    simp only [Heap.initial, Layout.heapLimit]
    split <;> omega
  placed := by simp
  apart := List.Pairwise.nil
  entries := List.Perm.refl _

end Lunaria
