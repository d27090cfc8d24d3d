/-
# Runs of the guest heap

A run is any finite sequence of allocator calls and guest stores. Next to the
allocator state it records what a caller knows: every address that was handed
out, and the allocations that are still live, each with the payload size its
header announced at hand-out. The arguments a run may use are the ones a caller
can have: addresses that were handed out at some time, freed since or not, and
stores inside live payloads.
-/

import Lunaria.Heap.Operations
import Lunaria.Lib.Run

namespace Lunaria

open Lib List

/-- An allocation as its caller sees it. -/
structure Allocation where
  payload : Nat
  size : Nat
  deriving DecidableEq, Repr

def Allocation.span (a : Allocation) : Interval := ⟨a.payload - heapHdr, a.payload + a.size⟩

/-- The bytes a free-list entry covers, header included. -/
def entrySpan (entry : Nat × Nat) : Interval := ⟨entry.2 - heapHdr, entry.2 + entry.1⟩

def Block.toAllocation (b : Block) : Allocation := ⟨b.payload, b.size⟩

/-- Allocator calls, and guest stores in between. -/
inductive HeapOp
  | malloc (size : Nat)
  | free (va : Nat)
  | realloc (va size : Nat)
  | memalign (align size : Nat)
  | store (va : Nat) (value : UInt8)

/-- The allocator state together with the history a caller has seen. -/
structure HeapRun where
  heap : Heap
  returned : List Nat
  live : List Allocation

namespace HeapRun

def initial (mem : ByteMemory) : HeapRun := ⟨Heap.initial mem, [], []⟩

/-- Forget the allocation at `va`. -/
def drop (live : List Allocation) (va : Nat) : List Allocation :=
  live.filter fun a => a.payload != va

/-- Record the outcome of an allocating call; `0` is failure. -/
def handOut (g : HeapRun) (outcome : Nat × Heap) : HeapRun :=
  if outcome.1 = 0 then { g with heap := outcome.2 }
  else
    { heap := outcome.2
      returned := outcome.1 :: g.returned
      live := ⟨outcome.1, outcome.2.mem.read32 (outcome.1 - heapHdr)⟩ :: g.live }

/-- One step. A `realloc` with an answer replaces its allocation; one for zero bytes frees it. -/
def step (L : Layout) (g : HeapRun) : HeapOp → HeapRun
  | .malloc size => g.handOut (armMalloc L g.heap size)
  | .free va => { g with heap := armFree g.heap va, live := drop g.live va }
  | .realloc va size =>
    let outcome := armRealloc L g.heap va size
    if outcome.1 = 0 ∧ size ≠ 0 then { g with heap := outcome.2 }
    else ({ g with live := drop g.live va } : HeapRun).handOut outcome
  | .memalign align size => g.handOut (armMemalign L g.heap align size)
  | .store va value => { g with heap := { g.heap with mem := g.heap.mem.writeByte va value } }

/-- The calls a caller can make: sizes whose rounding does not wrap, 32-bit alignments, null or
addresses handed out, stores into live payloads. -/
def Allowed (g : HeapRun) : HeapOp → Prop
  | .malloc size => size ≤ 0xFFFFFFF8
  | .free va => va = 0 ∨ va ∈ g.returned
  | .realloc va size => (va = 0 ∨ va ∈ g.returned) ∧ size ≤ 0xFFFFFFF8
  | .memalign align size => align < 2 ^ 32 ∧ size ≤ 0xFFFFFFF8
  | .store va _ => ∃ a ∈ g.live, a.payload ≤ va ∧ va < a.payload + a.size

instance (g : HeapRun) : ∀ op, Decidable (g.Allowed op)
  | .malloc _ => inferInstanceAs (Decidable (_ ≤ _))
  | .free _ => inferInstanceAs (Decidable (_ ∨ _))
  | .realloc _ _ | .memalign _ _ => inferInstanceAs (Decidable (_ ∧ _))
  | .store _ _ => inferInstanceAs (Decidable (∃ a ∈ g.live, _))

/-- What the caller has seen agrees with the blocks of the heap. -/
structure Tracks (L : Layout) (g : HeapRun) (bs : List Block) : Prop where
  inv : HeapInv L g.heap bs
  live : g.live.Perm ((liveBlocks bs).map Block.toAllocation)
  returned : ∀ va ∈ g.returned, ∃ b ∈ bs, b.payload = va

theorem tracks_initial (L : Layout) (mem : ByteMemory) : Tracks L (initial mem) [] where
  inv := heapInv_initial L mem
  live := List.Perm.refl _
  returned := by simp [initial]

variable {L : Layout} {g : HeapRun} {bs rest : List Block} {b : Block}

variable {va : Nat}

theorem Tracks.drop_of_not_live (tracks : Tracks L g bs)
    (hnot : ∀ b ∈ bs, b.live → b.payload ≠ va) : drop g.live va = g.live := by
  refine filter_eq_self.mpr fun a ha => ?_
  obtain ⟨b, hb, rfl⟩ := mem_map.mp (tracks.live.mem_iff.mp ha)
  obtain ⟨hmem, hlive⟩ := mem_liveBlocks.mp hb
  simpa [Block.toAllocation] using hnot b hmem hlive

theorem Tracks.drop_of_live (tracks : Tracks L g bs)
    (hperm : (liveBlocks bs).Perm (b :: liveBlocks rest))
    (hrest : ∀ c ∈ liveBlocks rest, c.payload ≠ b.payload) :
    (drop g.live b.payload).Perm ((liveBlocks rest).map Block.toAllocation) := by
  have hlive := (tracks.live.trans (hperm.map _)).filter fun a => a.payload != b.payload
  have hkeep : ((liveBlocks rest).map Block.toAllocation).filter
      (fun a => a.payload != b.payload) = (liveBlocks rest).map Block.toAllocation := by
    refine filter_eq_self.mpr fun a ha => ?_
    obtain ⟨c, hc, rfl⟩ := mem_map.mp ha
    simpa [Block.toAllocation] using hrest c hc
  rw [map_cons, filter_cons_of_neg (by simp [Block.toAllocation]), hkeep] at hlive
  exact hlive

variable {outcome : Nat × Heap}

theorem Tracks.handOut_fail (tracks : Tracks L g bs)
    (hfail : outcome = (0, g.heap)) : Tracks L (g.handOut outcome) bs := by
  subst hfail
  exact tracks

/-- A successful allocation adds its block to the record, which agrees with `before` apart from what
the call itself released. -/
theorem Tracks.handOut_live {live : List Allocation}
    (tracks : Tracks L g bs) (inv : HeapInv L outcome.2 (b :: rest)) (hlive : b.live)
    (hva : outcome.1 = b.payload) (hliveRest : live.Perm ((liveBlocks rest).map Block.toAllocation))
    (hpayloads : ∀ c ∈ bs, ∃ c' ∈ b :: rest, c'.payload = c.payload) :
    Tracks L (({ g with live } : HeapRun).handOut outcome) (b :: rest) := by
  have hb := inv.placed b mem_cons_self
  have hbase := hb.above_base
  have hl := layoutConsts
  rw [handOut, if_neg (by omega)]
  refine ⟨inv, ?_, ?_⟩
  · rw [liveBlocks_cons_live hlive, hva, hb.sizeWord]
    exact hliveRest.cons _
  intro va hva'
  rcases mem_cons.mp hva' with rfl | hold
  · exact ⟨b, mem_cons_self, hva.symm⟩
  · obtain ⟨c, hc, rfl⟩ := tracks.returned va hold
    exact hpayloads c hc

variable {size : Nat}

theorem Tracks.handOut_spec (tracks : Tracks L g bs)
    (spec : outcome = (0, g.heap) ∨ ∃ b rest, outcome.1 = b.payload ∧ size ≤ b.size ∧
      Allocated L g.heap bs outcome.2 b rest) : ∃ bs', Tracks L (g.handOut outcome) bs' := by
  rcases spec with hfail | ⟨b, rest, hva, -, halloc⟩
  · exact ⟨bs, tracks.handOut_fail hfail⟩
  · exact ⟨b :: rest, tracks.handOut_live halloc.inv halloc.live hva
      (tracks.live.trans (halloc.liveRest.symm.map _)) halloc.payloads⟩

theorem Tracks.null_or_block (tracks : Tracks L g bs)
    (hva : va = 0 ∨ va ∈ g.returned) : va = 0 ∨ ∃ b ∈ bs, b.payload = va :=
  hva.imp_right (tracks.returned va)

theorem payload_ne_of_rest (inv : HeapInv L g.heap (b :: rest)) :
    ∀ c ∈ liveBlocks rest, c.payload ≠ b.payload := by
  intro c hc heq
  have hcrest := (mem_liveBlocks.mp hc).1
  have hapart := inv.apart_of_cons c hcrest
  have hbase := (inv.placed b mem_cons_self).above_base
  have hk := heapConsts
  simp only [Interval.Apart, Block.span] at hapart
  omega

section

variable (tracks : Tracks L g bs)
include tracks

theorem Tracks.free (hva : va = 0 ∨ va ∈ g.returned) :
    ∃ bs', Tracks L (step L g (.free va)) bs' := by
  have hl := layoutConsts
  rcases tracks.null_or_block hva with rfl | ⟨b, hb, rfl⟩
  · refine ⟨bs, ?_⟩
    have hdrop : drop g.live 0 = g.live := tracks.drop_of_not_live fun b hb _ => by
      have hbase := (tracks.inv.placed b hb).above_base
      omega
    simp only [step, hdrop]
    exact tracks
  cases hlive : b.live with
  | false =>
    refine ⟨bs, ?_⟩
    have hdrop : drop g.live b.payload = g.live :=
      tracks.drop_of_not_live fun c hc hclive heq => by
        rw [tracks.inv.eq_of_payload_eq hb hc heq, hlive] at hclive
        simp at hclive
    simp only [step, armFree_free tracks.inv hb hlive, hdrop]
    exact tracks
  | true =>
    obtain ⟨rest, hperm, hcons⟩ := tracks.inv.exists_cons hb
    have hlivePerm : (liveBlocks bs).Perm (liveBlocks (b :: rest)) := hperm.filter _
    rw [liveBlocks_cons_live hlive] at hlivePerm
    refine ⟨b.release :: rest, (armFree_live hcons hlive).1, ?_, ?_⟩
    · rw [liveBlocks_cons_free (show b.release.live = false from rfl)]
      exact tracks.drop_of_live hlivePerm (payload_ne_of_rest hcons)
    intro va hmem
    obtain ⟨c, hc, rfl⟩ := tracks.returned va hmem
    rcases mem_cons.mp (hperm.mem_iff.mp hc) with rfl | hrest
    · exact ⟨c.release, mem_cons_self, rfl⟩
    · exact ⟨c, mem_cons_of_mem _ hrest, rfl⟩

/-- A `realloc` that allocates without releasing anything is recorded like an
allocation. -/
theorem Tracks.realloc_as_malloc (hdrop : drop g.live va = g.live)
    (spec : armRealloc L g.heap va size = (0, g.heap) ∨
      ∃ b rest, (armRealloc L g.heap va size).1 = b.payload ∧ requestSize size ≤ b.size ∧
        Allocated L g.heap bs (armRealloc L g.heap va size).2 b rest) :
    ∃ bs', Tracks L (step L g (.realloc va size)) bs' := by
  simp only [step, hdrop]
  split
  · rcases spec with hfail | ⟨b, rest, hva, -, halloc⟩
    · rw [hfail]
      exact ⟨bs, tracks⟩
    · have hbase := (halloc.inv.placed b mem_cons_self).above_base
      have hl := layoutConsts
      omega
  · exact tracks.handOut_spec spec

theorem Tracks.realloc_live (hb : b ∈ bs) (hlive : b.live) (hsize : size ≤ 0xFFFFFFF8)
    (hsize0 : size ≠ 0) : ∃ bs', Tracks L (step L g (.realloc b.payload size)) bs' := by
  have hbase := (tracks.inv.placed b hb).above_base
  have hl := layoutConsts
  obtain ⟨rest, hperm, hcons⟩ := tracks.inv.exists_cons hb
  have hlivePerm : (liveBlocks bs).Perm (liveBlocks (b :: rest)) := hperm.filter _
  rw [liveBlocks_cons_live hlive] at hlivePerm
  have hpayloads : ∀ c ∈ bs, ∃ c' ∈ b :: rest, c'.payload = c.payload :=
    fun c hc => ⟨c, hperm.mem_iff.mp hc, rfl⟩
  by_cases hfits : armAlign8 size ≤ b.size
  · -- it fits in place: the same block is handed out again
    have hrealloc := armRealloc_in_place (L := L) tracks.inv hb hlive hsize0 hfits
    refine ⟨b :: rest, ?_⟩
    simp only [step, hrealloc]
    rw [if_neg (by omega)]
    exact tracks.handOut_live hcons hlive rfl
      (tracks.drop_of_live hlivePerm (payload_ne_of_rest hcons)) hpayloads
  simp only [step]
  rcases armRealloc_grows tracks.inv hb hlive hsize hsize0 (not_le.mp hfits) with
    hfail | ⟨nb, rest', hva, -, hnblive, hinv, hlivePerm', hpayloads'⟩
  · rw [hfail, if_pos ⟨rfl, hsize0⟩]
    exact ⟨bs, tracks⟩
  have hnb := (hinv.placed nb mem_cons_self).above_base
  rw [if_neg (by omega)]
  refine ⟨nb :: b.release :: rest', tracks.handOut_live hinv hnblive hva ?_ hpayloads'⟩
  refine tracks.drop_of_live hlivePerm' fun c hc heq => ?_
  -- `c` and the released block are distinct blocks of one heap
  have hcmem : c ∈ nb :: b.release :: rest' := by simp [(mem_liveBlocks.mp hc).1]
  have hsame := hinv.eq_of_payload_eq (b := b.release) (by simp) hcmem heq
  have hclive := (mem_liveBlocks.mp hc).2
  rw [hsame] at hclive
  simp [Block.release] at hclive

theorem Tracks.realloc (hva : va = 0 ∨ va ∈ g.returned) (hsize : size ≤ 0xFFFFFFF8) :
    ∃ bs', Tracks L (step L g (.realloc va size)) bs' := by
  have hl := layoutConsts
  rcases tracks.null_or_block hva with rfl | ⟨b, hb, rfl⟩
  · have hdrop : drop g.live 0 = g.live := tracks.drop_of_not_live fun b hb _ => by
      have hbase := (tracks.inv.placed b hb).above_base
      omega
    have hrealloc : armRealloc L g.heap 0 size = armMalloc L g.heap size := by
      rw [armRealloc, if_pos rfl]
    exact tracks.realloc_as_malloc hdrop (hrealloc ▸ armMalloc_spec tracks.inv hsize)
  have hbase := (tracks.inv.placed b hb).above_base
  by_cases hsize0 : size = 0
  · subst hsize0
    -- a zero size frees the block
    have hrealloc : armRealloc L g.heap b.payload 0 = (0, armFree g.heap b.payload) := by
      rw [armRealloc, if_neg (by omega), if_pos rfl]
    have hstep : step L g (.realloc b.payload 0) = step L g (.free b.payload) := by
      simp [step, hrealloc, handOut]
    rw [hstep]
    exact tracks.free hva
  · cases hlive : b.live with
    | true => exact tracks.realloc_live hb hlive hsize hsize0
    | false =>
      have hdrop : drop g.live b.payload = g.live :=
        tracks.drop_of_not_live fun c hc hclive heq => by
          rw [tracks.inv.eq_of_payload_eq hb hc heq, hlive] at hclive
          simp at hclive
      exact tracks.realloc_as_malloc hdrop (armRealloc_freed tracks.inv hb hlive hsize hsize0)

theorem Tracks.store {value : UInt8}
    (hva : ∃ a ∈ g.live, a.payload ≤ va ∧ va < a.payload + a.size) :
    ∃ bs', Tracks L (step L g (.store va value)) bs' := by
  obtain ⟨a, ha, hlo, hhi⟩ := hva
  obtain ⟨b, hb, rfl⟩ := mem_map.mp (tracks.live.mem_iff.mp ha)
  simp only [Block.toAllocation] at hhi
  have hmem := (ByteMemory.writeByte_agreeOutside g.heap.mem va value).mono hlo
    (show va + 1 ≤ b.payload + b.size by omega)
  exact ⟨bs, tracks.inv.write_payload (mem_liveBlocks.mp hb).1 hmem, tracks.live, tracks.returned⟩

end

/-- **The step lemma.** Every allowed step keeps the record in agreement with some blocks. The heap
ends low enough for a 2 GiB alignment. -/
theorem Tracks.step (hend : L.heapEnd ≤ 0x7FFFFFF8) (tracks : Tracks L g bs) (op : HeapOp)
    (hallowed : g.Allowed op) : ∃ bs', Tracks L (HeapRun.step L g op) bs' := by
  cases op with
  | malloc size => exact tracks.handOut_spec (armMalloc_spec tracks.inv hallowed)
  | free va => exact tracks.free hallowed
  | realloc va size => exact tracks.realloc hallowed.1 hallowed.2
  | memalign align size =>
    refine tracks.handOut_spec (armMemalign_spec tracks.inv hallowed.2 fun hpow => ?_)
    have halign := le_of_and_pred_eq_zero hallowed.1 hpow
    have hptr := tracks.inv.ptr_le_limit
    have hlimit := L.heapLimit_le
    have hk := heapConsts
    omega
  | store va value => exact tracks.store hallowed

theorem exists_tracks_of_run (hend : L.heapEnd ≤ 0x7FFFFFF8) {mem : ByteMemory}
    {ops : List HeapOp} (hops : StepsMeet Allowed (HeapRun.step L) (initial mem) ops) :
    ∃ bs, Tracks L (run (HeapRun.step L) (initial mem) ops) bs := by
  have preserved : ∀ g op, (∃ bs, Tracks L g bs) → Allowed g op →
      ∃ bs, Tracks L (step L g op) bs := by
    rintro g op ⟨bs, htracks⟩ hallowed
    exact htracks.step hend op hallowed
  exact run_invariant preserved ⟨[], tracks_initial L mem⟩ hops

end HeapRun

/-- The heap is sound: live allocations and free entries are disjoint below the heap pointer, which
respects the limit, every header is intact, what was returned and is not live is a free entry, and a
second free has no effect. -/
structure HeapSound (L : Layout) (g : HeapRun) : Prop where
  apart : (g.live.map Allocation.span ++ g.heap.freeList.entries.map entrySpan).Pairwise
    Interval.Apart
  inside : ∀ s ∈ g.live.map Allocation.span ++ g.heap.freeList.entries.map entrySpan,
    heapBase ≤ s.lo ∧ s.hi ≤ g.heap.heapPtr
  ptr_le_limit : g.heap.heapPtr ≤ L.heapLimit
  liveHeader : ∀ a ∈ g.live, g.heap.mem.read32 (a.payload - heapHdr) = a.size ∧
    g.heap.mem.read32 (a.payload - 4) = allocMagic
  freeHeader : ∀ e ∈ g.heap.freeList.entries, g.heap.mem.read32 (e.2 - heapHdr) = e.1 ∧
    g.heap.mem.read32 (e.2 - 4) = freeMagic
  freed : ∀ va ∈ g.returned, (∀ a ∈ g.live, a.payload ≠ va) →
    ∃ e ∈ g.heap.freeList.entries, e.2 = va
  doubleFree : ∀ va ∈ g.returned, (∀ a ∈ g.live, a.payload ≠ va) → armFree g.heap va = g.heap
  freeListed : ∀ e ∈ g.heap.freeList.entries, armFree g.heap e.2 = g.heap

theorem HeapRun.Tracks.spans_perm {L : Layout} {g : HeapRun} {bs : List Block}
    (tracks : Tracks L g bs) :
    (g.live.map Allocation.span ++ g.heap.freeList.entries.map entrySpan).Perm
      (bs.map Block.span) := by
  have hlive : (g.live.map Allocation.span).Perm ((liveBlocks bs).map Block.span) := by
    refine (tracks.live.map _).trans (List.Perm.of_eq ?_)
    rw [map_map]
    rfl
  have hfree : (g.heap.freeList.entries.map entrySpan).Perm
      ((bs.filter fun b => !b.live).map Block.span) := by
    refine (tracks.inv.entries.map _).trans (List.Perm.of_eq ?_)
    rw [freeEntries, map_map]
    rfl
  refine (hlive.append hfree).trans ?_
  rw [← map_append]
  exact (filter_append_perm _ bs).map _

theorem HeapRun.Tracks.freed {L : Layout} {g : HeapRun} {bs : List Block} (tracks : Tracks L g bs)
    {va : Nat} (hva : va ∈ g.returned) (hnot : ∀ a ∈ g.live, a.payload ≠ va) :
    ∃ b ∈ bs, b.live = false ∧ b.payload = va := by
  obtain ⟨b, hb, rfl⟩ := tracks.returned va hva
  refine ⟨b, hb, Bool.eq_false_iff.mpr fun hlive => hnot b.toAllocation ?_ rfl, rfl⟩
  exact tracks.live.mem_iff.mpr (mem_map_of_mem (mem_liveBlocks.mpr ⟨hb, hlive⟩))

theorem HeapRun.Tracks.heapSound {L : Layout} {g : HeapRun} {bs : List Block}
    (tracks : Tracks L g bs) : HeapSound L g where
  apart := by
    refine (tracks.spans_perm.pairwise_iff fun h => h.symm).mpr ?_
    exact pairwise_map.mpr tracks.inv.apart
  inside s hs := by
    obtain ⟨b, hb, rfl⟩ := mem_map.mp (tracks.spans_perm.mem_iff.mp hs)
    have hbase := (tracks.inv.placed b hb).above_base
    have hbelow := (tracks.inv.placed b hb).below_ptr
    simp only [Block.span]
    omega
  ptr_le_limit := tracks.inv.ptr_le_limit
  liveHeader a ha := by
    obtain ⟨b, hb, rfl⟩ := mem_map.mp (tracks.live.mem_iff.mp ha)
    obtain ⟨hmem, hlive⟩ := mem_liveBlocks.mp hb
    have hplaced := tracks.inv.placed b hmem
    refine ⟨hplaced.sizeWord, hplaced.magicWord.trans ?_⟩
    rw [Block.magic, if_pos hlive]
  freeHeader e he := by
    obtain ⟨b, hb, hfree, hsize, hpayload⟩ := mem_freeEntries.mp (tracks.inv.entries.mem_iff.mp he)
    have hplaced := tracks.inv.placed b hb
    rw [← hsize, ← hpayload]
    refine ⟨hplaced.sizeWord, hplaced.magicWord.trans ?_⟩
    rw [Block.magic, if_neg (by simp [hfree])]
  freed va hva hnot := by
    obtain ⟨b, hb, hfree, hpayload⟩ := tracks.freed hva hnot
    exact ⟨(b.size, va), tracks.inv.entries.mem_iff.mpr
      (mem_freeEntries.mpr ⟨b, hb, hfree, rfl, hpayload⟩), rfl⟩
  doubleFree va hva hnot := by
    obtain ⟨b, hb, hfree, rfl⟩ := tracks.freed hva hnot
    exact armFree_free tracks.inv hb hfree
  freeListed e he := by
    obtain ⟨b, hb, hfree, -, hpayload⟩ := mem_freeEntries.mp (tracks.inv.entries.mem_iff.mp he)
    rw [← hpayload]
    exact armFree_free tracks.inv hb hfree

/-- **The guest heap invariant.** In the default layouts the heap is sound after every run of
allocator calls and guest stores. -/
theorem heapSound_of_run (isArm64 : Bool) (mem : ByteMemory) (ops : List HeapOp)
    (hops : StepsMeet HeapRun.Allowed (HeapRun.step (defaultLayout isArm64))
      (HeapRun.initial mem) ops) :
    HeapSound (defaultLayout isArm64)
      (run (HeapRun.step (defaultLayout isArm64)) (HeapRun.initial mem) ops) := by
  have hend : (defaultLayout isArm64).heapEnd ≤ 0x7FFFFFF8 := by
    rw [Layout.heapEnd, defaultLayout_heapSize, layoutConsts.2.1]
    norm_num
  obtain ⟨bs, htracks⟩ := HeapRun.exists_tracks_of_run hend hops
  exact htracks.heapSound

/-- A run that splits a freed block, frees one address twice, moves a block and
bumps an aligned one. -/
def splittingRun : List HeapOp :=
  [.malloc 100, .malloc 8, .store 0x50000008 7, .free 0x50000008, .free 0x50000008,
    .malloc 16, .realloc 0x50000008 200, .memalign 64 10]

theorem heapSound_splittingRun : StepsMeet HeapRun.Allowed (HeapRun.step (defaultLayout false))
        (HeapRun.initial fun _ => 0) splittingRun ∧
      HeapSound (defaultLayout false)
        (run (HeapRun.step (defaultLayout false)) (HeapRun.initial fun _ => 0) splittingRun) :=
  (and_iff_left_of_imp (heapSound_of_run false _ splittingRun)).mpr (by decide)

end Lunaria
