/-
# The size and the alignment a caller can use

The allocation services take their sizes and alignments from argument registers:
32-bit words on A32, 64-bit words packed to 32 bits on A64. What comes back is
measured here against what was asked for, not against what reached the allocator.
A size above `0xFFFFFFF8` is lost in `arm_align8`, a 64-bit size or alignment in the
packing; everything else that is handed out covers the request, and an aligned
request is a multiple of its alignment. A service that then clears or copies that
many bytes leaves the arena, and the process dies. Addresses are arena offsets throughout: the
pointer an A64 caller sees has the image window above them, which no alignment below
4 GiB notices.
-/

import Lunaria.Heap.Rounding
import Lunaria.Space.Resolve

namespace Lunaria

open Lib List ByteMemory HeapRun

/-! ## The services -/

/-- `SVC_CALLOC`: the product is computed in 64 bits, and refused when it has more
than 32. -/
def svcCalloc (L : Layout) (h : Heap) (count size : Nat) : Nat × Heap :=
  if 0xFFFFFFFF < count * size then (0, h)
  else
    let outcome := armMalloc L h (count * size)
    -- free-list blocks may hold stale data
    if outcome.1 ≠ 0 ∧ count * size ≠ 0 then
      (outcome.1, { outcome.2 with mem := outcome.2.mem.fill outcome.1 (count * size) 0 })
    else outcome

/-- The alignment `SVC_MEMALIGN` and `SVC_POSIX_MEMALIGN` pass on. -/
def svcAlign (align : Nat) : Nat :=
  let align := if align ≠ 0 then align else 8
  if align &&& (align - 1) ≠ 0 then 8 else align

/-- The width of a guest pointer in memory. -/
def guestPtrBytes (L : Layout) : Nat := if L.isArm64 then 8 else 4

def writeGuestPtr (L : Layout) (m : ByteMemory) (dest ptr : Nat) : ByteMemory :=
  if L.isArm64 then
    m.writeLE dest 8 (if 0x1000 ≤ ptr ∧ ptr ≤ 0xFFFFFFFF then a64GuestVa ptr else ptr)
  else m.write32 dest ptr

/-- `SVC_POSIX_MEMALIGN`: the address goes through the caller's memory. -/
def svcPosixMemalign (L : Layout) (h : Heap) (memptr align size : Nat) : Nat × Heap :=
  let outcome := armMemalign L h (svcAlign align) size
  if memptr ≠ 0 then
    (outcome.1, { outcome.2 with mem := writeGuestPtr L outcome.2.mem memptr outcome.1 })
  else outcome

/-- The allocation services, with the values of the argument registers, and guest
stores in between. -/
inductive HeapCall
  | malloc (size : Nat)
  | calloc (count size : Nat)
  | realloc (va size : Nat)
  | memalign (align size : Nat)
  | posixMemalign (memptr align size : Nat)
  | free (va : Nat)
  | store (va : Nat) (value : UInt8)

/-- A call, and the address space its arguments are packed in. -/
abbrev HeapEvent := AddressSpace × HeapCall

namespace HeapCall

/-- The argument registers of a call. -/
def registers : HeapCall → List Nat
  | .malloc size => [size]
  | .calloc count size => [count, size]
  | .realloc va size => [va, size]
  | .memalign align size => [align, size]
  | .posixMemalign memptr align size => [memptr, align, size]
  | .free va => [va]
  | .store _ _ => []

/-- The bytes a caller asks for. -/
def asked : HeapCall → Nat
  | .malloc size | .realloc _ size | .memalign _ size | .posixMemalign _ _ size => size
  | .calloc count size => count * size
  | .free _ | .store _ _ => 0

/-- The alignment a caller asks for. -/
def alignment : HeapCall → Nat
  | .memalign align _ | .posixMemalign _ align _ => align
  | .malloc _ | .calloc _ _ | .realloc _ _ | .free _ | .store _ _ => 1

variable (L : Layout) (g : HeapRun) (event : HeapEvent) (s : AddressSpace)

/-- The allocator operation behind a call. -/
def op : HeapCall → HeapOp
  | .malloc size => .malloc (svcArg L s size)
  | .calloc count size => .malloc (svcArg L s count * svcArg L s size)
  | .realloc va size => .realloc (svcArg L s va) (svcArg L s size)
  | .memalign align size | .posixMemalign _ align size =>
    .memalign (svcAlign (svcArg L s align)) (svcArg L s size)
  | .free va => .free (svcArg L s va)
  | .store va value => .store va value

/-- The address a call answers, and the heap it leaves, if the process survives it. -/
def outcome (h : Heap) : HeapCall → Nat × Heap
  | .malloc size => armMalloc L h (svcArg L s size)
  | .calloc count size => svcCalloc L h (svcArg L s count) (svcArg L s size)
  | .realloc va size => armRealloc L h (svcArg L s va) (svcArg L s size)
  | .memalign align size => armMemalign L h (svcAlign (svcArg L s align)) (svcArg L s size)
  | .posixMemalign memptr align size =>
    svcPosixMemalign L h (svcArg L s memptr) (svcArg L s align) (svcArg L s size)
  | .free va => (0, armFree h (svcArg L s va))
  | .store va value => (0, { h with mem := h.mem.writeByte va value })

/-- What `calloc` clears and what `realloc` copies from an address of unknown origin lies in the
host mapping of the arena, 4 GiB and a guard of 64 KiB; otherwise the process dies. -/
def Survives (h : Heap) (call : HeapCall) : Prop :=
  match call with
  | .calloc count size =>
    (call.outcome L s h).1 ≠ 0 →
      (call.outcome L s h).1 + svcArg L s count * svcArg L s size ≤ 0x100010000
  | .realloc va size =>
    svcArg L s va ≠ 0 → armHeapOwns h (svcArg L s va) = false → (call.outcome L s h).1 ≠ 0 →
      max (svcArg L s va) (call.outcome L s h).1 + svcArg L s size ≤ 0x100010000
  | .malloc _ | .memalign _ _ | .posixMemalign _ _ _ | .free _ | .store _ _ => True

/-- One step of a run that goes on. What the caller records is what it records of the operation
behind the call. -/
def serve : HeapEvent → HeapRun
  | (s, .calloc count size) => g.handOut ((calloc count size).outcome L s g.heap)
  | (s, .posixMemalign memptr align size) =>
    { HeapRun.step L g ((posixMemalign memptr align size).op L s) with
      heap := ((posixMemalign memptr align size).outcome L s g.heap).2 }
  | (s, call) => HeapRun.step L g (call.op L s)

/-- What a caller can pass: register values, null or addresses handed out, stores into live
payloads, and for `posix_memalign` a place in a live payload or outside the heap. -/
def Proper : Prop :=
  (∀ x ∈ event.2.registers, x < if L.isArm64 then 2 ^ 64 else 2 ^ 32) ∧
    match event.2 with
    | .realloc va _ | .free va => svcArg L event.1 va = 0 ∨ svcArg L event.1 va ∈ g.returned
    | .store va _ => ∃ a ∈ g.live, a.payload ≤ va ∧ va < a.payload + a.size
    | .posixMemalign memptr _ _ =>
      svcArg L event.1 memptr = 0 ∨
        (∃ a ∈ g.live, a.payload ≤ svcArg L event.1 memptr ∧
          svcArg L event.1 memptr + guestPtrBytes L ≤ a.payload + a.size) ∨
        svcArg L event.1 memptr + guestPtrBytes L ≤ heapBase ∨
        L.heapLimit ≤ svcArg L event.1 memptr
    | .malloc _ | .calloc _ _ | .memalign _ _ => True

/-- The size survives the packing and `arm_align8`, and the alignment the packing. -/
def Small (call : HeapCall) : Prop :=
  call.asked ≤ 0xFFFFFFF8 ∧ (call.alignment.isPowerOfTwo → call.alignment < 2 ^ 32)

/-- The state in which a call hands out nothing. -/
def Refused : HeapEvent → Prop
  | (s, .calloc count size) =>
    0xFFFFFFFF < svcArg L s count * svcArg L s size ∨ ((calloc count size).op L s).Refused L g
  | (s, call) => (call.op L s).Refused L g

/-- The size and the alignment survive, or nothing is handed out. -/
def Fits : Prop :=
  event.2.Small ∨ Refused L g event

/-- More bytes to clear, or to copy from an address that is not live, than the arena has behind any
block: nothing is handed out, or the process dies. -/
def Dies : HeapEvent → Prop
  | (s, .calloc count size) => 0xFFFFFFF8 < svcArg L s count * svcArg L s size
  | (s, .realloc va size) =>
    0xFFFFFFF8 < svcArg L s size ∧ svcArg L s va ≠ 0 ∧ ∀ a ∈ g.live, a.payload ≠ svcArg L s va
  | _ => False

/-- The `n` bytes at `p` lie in one live block of the heap. -/
def Covered (p n : Nat) : Prop :=
  ∃ a ∈ g.live, a.payload ≤ p ∧ p + n ≤ a.payload + a.size ∧
    heapBase ≤ a.span.lo ∧ a.span.hi ≤ L.heapEnd

/-- **Usable size.** What a call that comes back hands out covers what was asked for, and has the
alignment that was asked for. -/
def Usable : Prop :=
  Survives L event.1 g.heap event.2 → (event.2.outcome L event.1 g.heap).1 ≠ 0 →
    Covered L (serve L g event) (event.2.outcome L event.1 g.heap).1 event.2.asked ∧
      (event.2.alignment.isPowerOfTwo → event.2.alignment ∣ (event.2.outcome L event.1 g.heap).1)

instance : ∀ event : HeapEvent, Decidable (Proper L g event)
  | (_, .malloc _) | (_, .calloc _ _) | (_, .memalign _ _) => inferInstanceAs (Decidable (_ ∧ True))
  | (_, .realloc _ _) | (_, .free _) => inferInstanceAs (Decidable (_ ∧ (_ ∨ _)))
  | (_, .store _ _) => inferInstanceAs (Decidable (_ ∧ ∃ a ∈ g.live, _))
  | (_, .posixMemalign _ _ _) =>
    inferInstanceAs (Decidable (_ ∧ (_ ∨ (∃ a ∈ g.live, _) ∨ _ ∨ _)))

instance (call : HeapCall) : Decidable call.Small := inferInstanceAs (Decidable (_ ∧ (_ → _)))

instance : ∀ event : HeapEvent, Decidable (Refused L g event)
  | (s, .calloc count size) => inferInstanceAs (Decidable (_ < _ ∨
      ((calloc count size).op L s).Refused L g))
  | (s, .malloc size) => inferInstanceAs (Decidable (((malloc size).op L s).Refused L g))
  | (s, .realloc va size) => inferInstanceAs (Decidable (((realloc va size).op L s).Refused L g))
  | (s, .memalign align size) =>
    inferInstanceAs (Decidable (((memalign align size).op L s).Refused L g))
  | (s, .posixMemalign memptr align size) =>
    inferInstanceAs (Decidable (((posixMemalign memptr align size).op L s).Refused L g))
  | (s, .free va) => inferInstanceAs (Decidable (((free va).op L s).Refused L g))
  | (s, .store va value) => inferInstanceAs (Decidable (((store va value).op L s).Refused L g))

instance (h : Heap) : ∀ call : HeapCall, Decidable (Survives L s h call)
  | .calloc _ _ => inferInstanceAs (Decidable (_ → _))
  | .realloc _ _ => inferInstanceAs (Decidable (_ → _ → _ → _))
  | .malloc _ | .memalign _ _ | .posixMemalign _ _ _ | .free _ | .store _ _ =>
    inferInstanceAs (Decidable True)

instance : Decidable (Usable L g event) :=
  inferInstanceAs (Decidable (_ → _ → (∃ a ∈ (serve L g event).live, _) ∧ (_ → _)))

end HeapCall

/-! ## What is handed out -/

variable {L : Layout} {s : AddressSpace} {g : HeapRun} {h : Heap} {bs : List Block}

theorem svcArg_lt {x : Nat} (hx : x < if L.isArm64 then 2 ^ 64 else 2 ^ 32) :
    svcArg L s x < 2 ^ 32 := by
  rw [svcArg]
  split
  · exact pack_lt L s x
  · rename_i harm
    rwa [if_neg harm] at hx

variable {align count size n : Nat} {outcome : Nat × Heap} {call : HeapCall} {m : ByteMemory}

theorem svcAlign_lt (hlt : align < 2 ^ 32) : svcAlign align < 2 ^ 32 := by
  simp only [svcAlign]
  split_ifs <;> omega

theorem svcAlign_two_pow (k : Nat) : svcAlign (2 ^ k) = 2 ^ k := by
  simp [svcAlign]

theorem svcCalloc_fst (count size : Nat) : (svcCalloc L h count size).1 =
      if 0xFFFFFFFF < count * size then 0 else (armMalloc L h (count * size)).1 := by
  simp only [svcCalloc]
  split_ifs <;> rfl

theorem svcPosixMemalign_fst (memptr align size : Nat) :
    (svcPosixMemalign L h memptr align size).1 = (armMemalign L h (svcAlign align) size).1 := by
  simp only [svcPosixMemalign]
  split_ifs <;> rfl

/-- A product of two packed factors is the product that was asked for, unless that one
has more than 32 bits. -/
theorem svcArg_mul (hlt : count * size < 2 ^ 32) :
    svcArg L s count * svcArg L s size = count * size := by
  by_cases hcount : count = 0
  · rw [hcount, svcArg_of_lt (by norm_num), zero_mul, zero_mul]
  by_cases hsize : size = 0
  · rw [hsize, svcArg_of_lt (x := 0) (by norm_num), mul_zero, mul_zero]
  · have hleft : count ≤ count * size := Nat.le_mul_of_pos_right _ (pos_of_ne_zero hsize)
    have hright : size ≤ count * size := Nat.le_mul_of_pos_left _ (pos_of_ne_zero hcount)
    rw [svcArg_of_lt (by omega), svcArg_of_lt (by omega)]

theorem covered_handOut {b : Block} {rest : List Block}
    (inv : HeapInv L outcome.2 (b :: rest)) (hva : outcome.1 = b.payload) (hn : n ≤ b.size) :
    HeapCall.Covered L (g.handOut outcome) outcome.1 n := by
  have hplaced := inv.placed b mem_cons_self
  have hbase := hplaced.above_base
  have hbelow := hplaced.below_ptr
  have hptr := inv.ptr_le_limit
  have hlimit := L.heapLimit_le
  have hl := layoutConsts
  refine ⟨⟨b.payload, b.size⟩, ?_, hva.ge, ?_, ?_, ?_⟩
  · rw [HeapRun.handOut, if_neg (by omega), hva, hplaced.sizeWord]
    exact mem_cons_self
  · rw [hva]
    exact Nat.add_le_add_left hn _
  · simp only [Allocation.span]
    omega
  · simp only [Allocation.span]
    omega

theorem covered_of_spec {m : Nat}
    (hspec : outcome = (0, g.heap) ∨ ∃ b rest, outcome.1 = b.payload ∧ m ≤ b.size ∧
      Allocated L g.heap bs outcome.2 b rest) (hn : n ≤ m) (hne : outcome.1 ≠ 0) :
    HeapCall.Covered L (g.handOut outcome) outcome.1 n := by
  obtain ⟨b, rest, hva, hcover, halloc⟩ := hspec.resolve_left fun hfail => hne (by rw [hfail])
  exact covered_handOut halloc.inv hva (hn.trans hcover)

theorem HeapCall.Covered.bounds {p : Nat} (hcovered : HeapCall.Covered L g p n) :
    n ≤ 0xFFFFFFF8 ∧ p < 2 ^ 32 := by
  obtain ⟨a, -, hlo, hhi, hbase, hend⟩ := hcovered
  have hlt := L.heapEnd_lt
  have hl := layoutConsts
  simp only [Allocation.span] at hbase hend
  omega

theorem svcCalloc_spec (inv : HeapInv L h bs)
    (hsmall : count * size ≤ 0xFFFFFFF8) : svcCalloc L h count size = (0, h) ∨
      ∃ b rest, (svcCalloc L h count size).1 = b.payload ∧ count * size ≤ b.size ∧
        Allocated L h bs (svcCalloc L h count size).2 b rest := by
  have hsize := (requestSize_bounds hsmall).1
  have hfits : ¬ 0xFFFFFFFF < count * size := by omega
  rcases armMalloc_spec inv hsmall with hfail | ⟨b, rest, hva, hcover, halloc⟩
  · refine .inl ?_
    simp only [svcCalloc, if_neg hfits, hfail]
    rw [if_neg fun hne => hne.1 rfl]
  refine .inr ⟨b, rest, ?_, by omega, ?_⟩
  · rw [svcCalloc_fst, if_neg hfits, hva]
  simp only [svcCalloc, if_neg hfits]
  split
  · rw [hva]
    apply halloc.write_payload
    exact (fill_agreeOutside _ _ _ _).mono le_rfl (by omega)
  · exact halloc

theorem svcCalloc_of_refused
    (hrefused : 0xFFFFFFFF < count * size ∨ Full L h (requestSize (count * size))) :
    svcCalloc L h count size = (0, h) := by
  rcases hrefused with hlarge | hfull
  · rw [svcCalloc, if_pos hlarge]
  · simp [svcCalloc, armMalloc_of_full hfull]

theorem svcCalloc_rounds (hr : RoundedHeap h) (count size : Nat) :
    Rounds (svcCalloc L h count size) := by
  have hmalloc := armMalloc_rounds (L := L) hr (count * size)
  have hk := heapConsts
  simp only [svcCalloc]
  split_ifs with hlarge hfill
  · exact ⟨hr, absurd rfl⟩
  · have hblock := hmalloc.block hfill.1
    -- what is zeroed lies behind the header
    have hword := (fill_agreeOutside (armMalloc L h (count * size)).2.mem
      (armMalloc L h (count * size)).1 (count * size) 0).read32_eq
      (show (armMalloc L h (count * size)).1 - heapHdr + 4 ≤ _ ∨ _ by omega)
    exact fresh_rounds hmalloc.heap hblock.1 hblock.2 hword
  · exact hmalloc

/-- The block behind the address `arm_realloc` answers. -/
theorem HeapRun.Tracks.exists_block_of_armRealloc (tracks : Tracks L g bs) {va : Nat}
    (hva : va = 0 ∨ va ∈ g.returned) (hsize : size ≤ 0xFFFFFFF8)
    (hne : (armRealloc L g.heap va size).1 ≠ 0) :
    ∃ b rest, (armRealloc L g.heap va size).1 = b.payload ∧ size ≤ b.size ∧
      HeapInv L (armRealloc L g.heap va size).2 (b :: rest) := by
  have hrequest := (requestSize_bounds hsize).1
  rcases tracks.null_or_block hva with rfl | ⟨b, hb, rfl⟩
  · have hrealloc : armRealloc L g.heap 0 size = armMalloc L g.heap size := by
      rw [armRealloc, if_pos rfl]
    rw [hrealloc] at hne
    obtain ⟨b, rest, hpayload, hcover, halloc⟩ :=
      (armMalloc_spec tracks.inv hsize).resolve_left fun hfail => hne (by rw [hfail])
    exact ⟨b, rest, hpayload, by omega, halloc.inv⟩
  have hbase := (tracks.inv.placed b hb).above_base
  have hl := layoutConsts
  have hsize0 : size ≠ 0 := by
    rintro rfl
    rw [armRealloc, if_neg (by omega)] at hne
    exact hne rfl
  cases hlive : b.live with
  | false =>
    obtain ⟨nb, rest, hpayload, hcover, halloc⟩ :=
      (armRealloc_freed tracks.inv hb hlive hsize hsize0).resolve_left
        fun hfail => hne (by rw [hfail])
    exact ⟨nb, rest, hpayload, by omega, halloc.inv⟩
  | true =>
    by_cases hfits : armAlign8 size ≤ b.size
    · obtain ⟨rest, -, hcons⟩ := tracks.inv.exists_cons hb
      have halign := (armAlign8_bounds hsize).1
      rw [armRealloc_in_place tracks.inv hb hlive hsize0 hfits]
      exact ⟨b, rest, rfl, by omega, hcons⟩
    · obtain ⟨nb, rest, hpayload, hcover, -, hinv, -, -⟩ :=
        (armRealloc_grows tracks.inv hb hlive hsize hsize0 (not_le.mp hfits)).resolve_left
          fun hfail => hne (by rw [hfail])
      exact ⟨nb, _, hpayload, by omega, hinv⟩

/-- What `arm_memalign` answers is a multiple of the power of two it was asked for. -/
theorem dvd_armMemalign (hr : RoundedHeap h) {k : Nat}
    (hne : (armMemalign L h (2 ^ k) size).1 ≠ 0) : 2 ^ k ∣ (armMemalign L h (2 ^ k) size).1 := by
  rw [armMemalign_eq] at hne ⊢
  split at hne
  · rename_i haligned
    rw [if_pos haligned]
    split at hne
    · exact absurd rfl hne
    · rename_i hroom
      rw [if_neg hroom]
      exact dvd_alignedPayload h _
  · rename_i haligned
    rw [if_neg haligned]
    have hk := heapConsts
    have hle : 2 ^ k ≤ 2 ^ 3 := by
      by_contra hgt
      exact haligned (alignedBump_iff.mpr ⟨by omega, two_pow_and_pred k⟩)
    have hexp : k ≤ 3 := (Nat.pow_le_pow_iff_right (by norm_num)).mp hle
    exact (pow_dvd_pow 2 hexp).trans ((armMalloc_rounds hr size).block hne).1

namespace HeapCall

theorem Proper.arg_lt (hproper : Proper L g (s, call)) {x : Nat}
    (hx : x ∈ call.registers) : svcArg L s x < 2 ^ 32 :=
  svcArg_lt (hproper.1 x hx)

/-- **A call answers null exactly when it is refused.** -/
theorem outcome_eq_zero_iff (tracks : HeapRun.Tracks L g bs) (call : HeapCall)
    (hproper : Proper L g (s, call)) : (call.outcome L s g.heap).1 = 0 ↔ Refused L g (s, call) := by
  cases call with
  | malloc size => exact armMalloc_eq_zero_iff tracks.inv _
  | calloc count size =>
    rw [outcome, svcCalloc_fst, Refused, op, HeapOp.Refused, ← armMalloc_eq_zero_iff tracks.inv]
    by_cases hlarge : 0xFFFFFFFF < svcArg L s count * svcArg L s size
    · simp [hlarge]
    · simp [hlarge]
  | realloc va size => exact tracks.armRealloc_eq_zero_iff hproper.2 _
  | memalign align size | posixMemalign _ align size =>
    have halign := svcAlign_lt (hproper.arg_lt (x := align) (by simp [registers]))
    simp only [outcome, svcPosixMemalign_fst]
    exact armMemalign_eq_zero_iff tracks.inv halign _
  | free _ | store _ _ => simp [outcome, Refused, op, HeapOp.Refused]

theorem covered_memalign (inv : HeapInv L g.heap bs) (halign : align < 2 ^ 32)
    (hsize : size ≤ 0xFFFFFFF8) (hne : (armMemalign L g.heap align size).1 ≠ 0) :
    Covered L (g.handOut (armMemalign L g.heap align size))
      (armMemalign L g.heap align size).1 size := by
  have hwrap : ¬ Wraps L g.heap align size := by
    rintro ⟨haligned, hpast, -⟩
    apply hne
    rw [armMemalign_eq_zero_iff inv halign, AlignedFull, if_pos haligned]
    exact .inl hpast
  exact covered_of_spec (armMemalign_spec_of_not_wraps inv hsize hwrap)
    (requestSize_bounds hsize).1 hne

/-- What a small call hands out covers the request. -/
theorem covered_of_small (tracks : HeapRun.Tracks L g bs) (call : HeapCall)
    (hproper : Proper L g (s, call)) (hsmall : call.Small) (hne : (call.outcome L s g.heap).1 ≠ 0) :
    Covered L (serve L g (s, call)) (call.outcome L s g.heap).1 call.asked := by
  have hasked := hsmall.1
  have hkept {x : Nat} (hx : x ≤ 0xFFFFFFF8) : svcArg L s x = x := svcArg_of_lt (by omega)
  cases call with
  | malloc size =>
    simp only [outcome, serve, op, @hkept size hasked] at hne ⊢
    exact covered_of_spec (armMalloc_spec tracks.inv hasked) (requestSize_bounds hasked).1 hne
  | calloc count size =>
    have hmul : svcArg L s count * svcArg L s size = count * size :=
      svcArg_mul (lt_of_le_of_lt hasked (by norm_num))
    exact covered_of_spec (svcCalloc_spec tracks.inv (hmul.trans_le hasked)) hmul.ge hne
  | realloc va size =>
    simp only [outcome, serve, op, HeapRun.step, @hkept size hasked] at hne ⊢
    obtain ⟨b, rest, hva, hcover, hinv⟩ := tracks.exists_block_of_armRealloc hproper.2 hasked hne
    rw [if_neg fun hzero => hne hzero.1]
    exact covered_handOut hinv hva hcover
  | memalign align size | posixMemalign _ align size =>
    have halign := svcAlign_lt (hproper.arg_lt (x := align) (by simp [registers]))
    simp only [outcome, svcPosixMemalign_fst, serve, op, @hkept size hasked] at hne ⊢
    exact covered_memalign tracks.inv halign hasked hne
  | free _ | store _ _ => exact absurd rfl hne

theorem dvd_of_small (hr : g.Rounded) (call : HeapCall) (hsmall : call.Small)
    (hne : (call.outcome L s g.heap).1 ≠ 0) (hpow : call.alignment.isPowerOfTwo) :
    call.alignment ∣ (call.outcome L s g.heap).1 := by
  have halign := hsmall.2 hpow
  obtain ⟨k, hk⟩ := hpow
  cases call with
  | memalign align size | posixMemalign _ align size =>
    obtain rfl : align = 2 ^ k := hk
    have harg : svcArg L s (2 ^ k) = 2 ^ k := svcArg_of_lt halign
    simp only [outcome, svcPosixMemalign_fst, harg, svcAlign_two_pow] at hne ⊢
    exact dvd_armMemalign hr.heap hne
  | malloc _ | calloc _ _ | realloc _ _ | free _ | store _ _ => exact one_dvd _

/-- An address that is not live makes `arm_realloc` answer what `arm_malloc` does. -/
theorem armRealloc_fst_of_not_live (tracks : HeapRun.Tracks L g bs) {va : Nat}
    (hva : va ∈ g.returned) (hsize : size ≠ 0) (hdead : ∀ a ∈ g.live, a.payload ≠ va) :
    (armRealloc L g.heap va size).1 = (armMalloc L g.heap size).1 := by
  rw [armRealloc_fst, if_neg fun h => hsize h.2, if_neg fun h => ?_]
  obtain ⟨a, ha, hpayload, -⟩ := (tracks.owned_iff (.inr hva) _).mp h
  exact hdead a ha hpayload

/-- A call with too many bytes to clear or copy that comes back answers null. -/
theorem Dies.outcome_eq_zero (tracks : HeapRun.Tracks L g bs) (hproper : Proper L g (s, call))
    (hdies : Dies L g (s, call)) (hsurvives : Survives L s g.heap call) :
    (call.outcome L s g.heap).1 = 0 := by
  have hl := layoutConsts
  by_contra hne
  cases call with
  | calloc count size =>
    have hend := hsurvives hne
    simp only [Dies, outcome, svcCalloc_fst] at hdies hend hne
    split at hne
    · exact hne rfl
    next hlarge =>
      have hbase := heapBase_lt_armMalloc tracks.inv
        (mt (armMalloc_eq_zero_iff tracks.inv _).mpr hne)
      rw [if_neg hlarge] at hend
      omega
  | realloc va size =>
    obtain ⟨hlarge, hnull, hdead⟩ := hdies
    have hva := hproper.2.resolve_left hnull
    have howns : armHeapOwns g.heap (svcArg L s va) = false := by
      rw [← Bool.not_eq_true]
      intro howns
      obtain ⟨a, ha, hpayload, -⟩ :=
        (tracks.owned_iff (.inr hva) 0).mp ⟨hnull, howns, Nat.zero_le _⟩
      exact hdead a ha hpayload
    have hend := hsurvives hnull howns hne
    have hsize : svcArg L s size ≠ 0 := by omega
    simp only [outcome, armRealloc_fst_of_not_live tracks hva hsize hdead] at hend hne
    have hbase := heapBase_lt_armMalloc tracks.inv (mt (armMalloc_eq_zero_iff tracks.inv _).mpr hne)
    omega
  | malloc _ | memalign _ _ | posixMemalign _ _ _ | free _ | store _ _ => exact hdies

theorem payload_add_le (inv : HeapInv L h bs) {b : Block} (hb : b ∈ bs) :
    b.payload + b.size ≤ 0x90000000 :=
  (inv.placed b hb).below_ptr.trans (inv.ptr_le_limit.trans L.heapLimit_le_max)

/-- Only a call with too many bytes to clear or copy kills the process. -/
theorem dies_of_not_survives (tracks : HeapRun.Tracks L g bs) (hproper : Proper L g (s, call))
    (hdead : ¬ Survives L s g.heap call) : Dies L g (s, call) := by
  cases call with
  | calloc count size =>
    simp only [Survives, Classical.not_imp, not_le] at hdead
    by_contra hsmall
    obtain ⟨b, rest, hva, hcover, halloc⟩ :=
      (svcCalloc_spec tracks.inv (not_lt.mp hsmall)).resolve_left fun hfail =>
        hdead.1 (by rw [outcome, hfail])
    have hend := payload_add_le halloc.inv mem_cons_self
    rw [outcome, hva] at hdead
    omega
  | realloc va size =>
    simp only [Survives, Classical.not_imp, not_le] at hdead
    obtain ⟨hnull, howns, hne, hpast⟩ := hdead
    have hva := hproper.2.resolve_left hnull
    refine ⟨?_, hnull, fun a ha hpayload => ?_⟩
    · by_contra hsmall
      obtain ⟨b, rest, hanswer, hcover, hinv⟩ :=
        tracks.exists_block_of_armRealloc hproper.2 (not_lt.mp hsmall) hne
      obtain ⟨old, hold, hpayload⟩ := tracks.returned _ hva
      have hbase := (hinv.placed b mem_cons_self).above_base
      have hend := payload_add_le hinv mem_cons_self
      have hend' := payload_add_le tracks.inv hold
      have hl := layoutConsts
      rw [outcome, hanswer, ← hpayload] at hpast
      omega
    · have howned := (tracks.owned_iff hproper.2 0).mpr ⟨a, ha, hpayload, Nat.zero_le _⟩
      rw [howned.2.1] at howns
      cases howns
  | malloc _ | memalign _ _ | posixMemalign _ _ _ | free _ | store _ _ => exact absurd trivial hdead

/-- In a sound heap a call is usable exactly when its size and alignment survive, nothing is handed
out, or the process dies. -/
theorem usable_iff (tracks : HeapRun.Tracks L g bs) (hr : g.Rounded) {event : HeapEvent}
    (hproper : Proper L g event) : Usable L g event ↔ Fits L g event ∨ Dies L g event := by
  obtain ⟨s, call⟩ := event
  have hzero := outcome_eq_zero_iff tracks call hproper
  by_cases hne : (call.outcome L s g.heap).1 = 0
  · exact ⟨fun _ => .inl (.inr (hzero.mp hne)), fun _ _ h => absurd hne h⟩
  constructor
  · intro husable
    by_cases hsurvives : Survives L s g.heap call
    · obtain ⟨hcovered, hdvd⟩ := husable hsurvives hne
      refine .inl (.inl ⟨hcovered.bounds.1, fun hpow => ?_⟩)
      exact lt_of_le_of_lt (Nat.le_of_dvd (pos_of_ne_zero hne) (hdvd hpow)) hcovered.bounds.2
    · exact .inr (dies_of_not_survives tracks hproper hsurvives)
  · rintro (hfits | hdies) hsurvives -
    · have hsmall := hfits.resolve_right fun hrefused => hne (hzero.mpr hrefused)
      exact ⟨covered_of_small tracks call hproper hsmall hne, dvd_of_small hr call hsmall hne⟩
    · exact absurd (hdies.outcome_eq_zero tracks hproper hsurvives) hne

end HeapCall

/-! ## Runs -/

theorem writeGuestPtr_agreeOutside (m : ByteMemory) (dest ptr : Nat) :
    m.AgreeOutside (writeGuestPtr L m dest ptr) dest (dest + guestPtrBytes L) := by
  rw [writeGuestPtr, guestPtrBytes]
  split
  · exact writeLE_agreeOutside m dest _ 8
  · exact write32_agreeOutside m dest ptr

theorem HeapInv.write_outside (inv : HeapInv L h bs) {lo hi : Nat}
    (hmem : h.mem.AgreeOutside m lo hi) (hout : hi ≤ heapBase ∨ L.heapLimit ≤ lo) :
    HeapInv L { h with mem := m } bs where
  base_le_ptr := inv.base_le_ptr
  ptr_le_limit := inv.ptr_le_limit
  placed b hb := by
    have hplaced := inv.placed b hb
    have hbase := hplaced.above_base
    have hbelow := hplaced.below_ptr
    have hptr := inv.ptr_le_limit
    exact hplaced.of_agreeOutside hmem le_rfl (by omega)
  apart := inv.apart
  entries := inv.entries

namespace HeapRun

theorem Tracks.write (tracks : Tracks L g bs) {lo hi : Nat} (hmem : g.heap.mem.AgreeOutside m lo hi)
    (hout : (∃ a ∈ g.live, a.payload ≤ lo ∧ hi ≤ a.payload + a.size) ∨
      hi ≤ heapBase ∨ L.heapLimit ≤ lo) :
    Tracks L { g with heap := { g.heap with mem := m } } bs := by
  refine ⟨?_, tracks.live, tracks.returned⟩
  rcases hout with ⟨a, ha, hlo, hhi⟩ | houtside
  · obtain ⟨b, hb, -, hpayload, hsize⟩ := tracks.exists_block ha
    exact tracks.inv.write_payload hb (hmem.mono (by omega) (by omega))
  · exact tracks.inv.write_outside hmem houtside

theorem mem_live_handOut {a : Allocation} (ha : a ∈ g.live) : a ∈ (g.handOut outcome).live := by
  rw [handOut]
  split
  · exact ha
  · exact mem_cons_of_mem _ ha

@[simp]
theorem handOut_heap (outcome : Nat × Heap) : (g.handOut outcome).heap = outcome.2 := by
  rw [handOut]
  split <;> rfl

end HeapRun

namespace HeapCall

/-- The call is a `memalign` whose address wraps. -/
def Overruns (L : Layout) (g : HeapRun) (event : HeapEvent) : Prop :=
  (event.2.op L event.1).Overruns L g.heap

/-- The conditions under which the heap stays sound: what a caller can pass, fitting
or refused, and no aligned address wraps. -/
def Sound (L : Layout) (g : HeapRun) (event : HeapEvent) : Prop :=
  Proper L g event ∧ Fits L g event ∧ ¬ Overruns L g event

instance (L : Layout) (g : HeapRun) (event : HeapEvent) : Decidable (Sound L g event) :=
  inferInstanceAs (Decidable (_ ∧ (_ ∨ _) ∧ ¬ (event.2.op L event.1).Overruns L g.heap))

theorem Proper.callable (hproper : Proper L g (s, call))
    (hcalloc : ∀ count size, call ≠ .calloc count size) : g.Callable (call.op L s) := by
  cases call with
  | malloc size => exact hproper.arg_lt (by simp [registers])
  | calloc count size => exact absurd rfl (hcalloc count size)
  | realloc va size => exact ⟨hproper.2, hproper.arg_lt (by simp [registers])⟩
  | memalign align size | posixMemalign memptr align size =>
    exact ⟨svcAlign_lt (hproper.arg_lt (by simp [registers])), hproper.arg_lt (by simp [registers])⟩
  | free _ | store _ _ => exact hproper.2

theorem Small.request_le (hsmall : call.Small) : (call.op L s).request ≤ 0xFFFFFFF8 := by
  have hasked := hsmall.1
  have hkept {x : Nat} (hx : x ≤ 0xFFFFFFF8) : svcArg L s x ≤ 0xFFFFFFF8 := by
    rw [svcArg_of_lt (by omega)]
    exact hx
  cases call with
  | malloc size => exact hkept hasked
  | calloc count size =>
    have hlt : count * size < 2 ^ 32 := lt_of_le_of_lt hasked (by norm_num)
    simp only [op, svcArg_mul hlt]
    exact hasked
  | realloc _ size | memalign _ size | posixMemalign _ _ size => exact hkept hasked
  | free _ | store _ _ => exact Nat.zero_le _

/-- The invariant of a run: blocks behind the record, and multiples of 8. -/
def Ready (L : Layout) (g : HeapRun) : Prop := (∃ bs, HeapRun.Tracks L g bs) ∧ g.Rounded

theorem Ready.write (hready : Ready L g) {lo hi : Nat} (hmem : g.heap.mem.AgreeOutside m lo hi)
    (hout : (∃ a ∈ g.live, a.payload ≤ lo ∧ hi ≤ a.payload + a.size) ∨
      hi ≤ heapBase ∨ L.heapLimit ≤ lo) :
    Ready L { g with heap := { g.heap with mem := m } } := by
  obtain ⟨⟨bs, tracks⟩, hr⟩ := hready
  exact ⟨⟨bs, tracks.write hmem hout⟩, ⟨hr.heap.ptr, hr.heap.entries⟩, hr.live⟩

theorem ready_initial (L : Layout) (mem : ByteMemory) : Ready L (HeapRun.initial mem) := by
  refine ⟨⟨[], tracks_initial L mem⟩, ⟨?_, ?_⟩, ?_⟩
  · exact ⟨0xA000000, rfl⟩
  · simp [HeapRun.initial, Heap.initial]
  · simp [HeapRun.initial]

theorem Ready.step (hready : Ready L g) (hsound : Sound L g (s, call))
    (hcalloc : ∀ count size, call ≠ .calloc count size) :
    Ready L (HeapRun.step L g (call.op L s)) := by
  obtain ⟨⟨bs, tracks⟩, hr⟩ := hready
  have hcall := hsound.1.callable hcalloc
  have hrefused : Refused L g (s, call) → (call.op L s).Refused L g := by
    cases call with
    | calloc count size => exact absurd rfl (hcalloc count size)
    | _ => exact id
  have hsized : HeapRun.Sized L g (call.op L s) :=
    ⟨hsound.2.1.imp Small.request_le hrefused, hsound.2.2⟩
  exact ⟨tracks.step_of_sized _ hcall hsized, hr.step tracks _ hcall hsized⟩

theorem Ready.calloc (hready : Ready L g)
    (hsound : Sound L g (s, .calloc count size)) : Ready L (serve L g (s, .calloc count size)) := by
  obtain ⟨⟨bs, tracks⟩, hr⟩ := hready
  have hrounds := svcCalloc_rounds (L := L) hr.heap (svcArg L s count) (svcArg L s size)
  refine ⟨?_, hr.handOut hrounds⟩
  rcases hsound.2.1 with hsmall | hrefused
  · exact tracks.handOut_spec (svcCalloc_spec tracks.inv hsmall.request_le)
  · exact ⟨bs, tracks.handOut_fail (svcCalloc_of_refused hrefused)⟩

theorem Ready.posixMemalign (hready : Ready L g) {memptr : Nat}
    (hsound : Sound L g (s, .posixMemalign memptr align size)) :
    Ready L (serve L g (s, .posixMemalign memptr align size)) := by
  have hstep := hready.step hsound (by simp)
  have hdest := hsound.1.2
  simp only [serve, outcome, svcPosixMemalign, op, HeapRun.step] at hstep hdest ⊢
  generalize armMemalign L g.heap (svcAlign (svcArg L s align)) (svcArg L s size) = answer at hstep
  by_cases hnull : svcArg L s memptr = 0
  · rw [if_neg (not_not.mpr hnull), ← handOut_heap answer]
    exact hstep
  rw [if_pos hnull, ← handOut_heap answer]
  apply hstep.write (writeGuestPtr_agreeOutside _ _ _)
  rcases hdest.resolve_left hnull with ⟨a, ha, hin⟩ | houtside
  · exact .inl ⟨a, mem_live_handOut ha, hin⟩
  · exact .inr houtside

/-- **The step lemma.** Every sound call keeps the invariant. -/
theorem Ready.serve (hready : Ready L g) {event : HeapEvent} (hsound : Sound L g event) :
    Ready L (HeapCall.serve L g event) := by
  obtain ⟨s, call⟩ := event
  cases call with
  | calloc count size => exact hready.calloc hsound
  | posixMemalign memptr align size => exact hready.posixMemalign hsound
  | malloc _ | realloc _ _ | memalign _ _ | free _ | store _ _ => exact hready.step hsound (by simp)

/-- **Usable size.** After every run of sound calls, in every layout, a call that comes back hands
out a block that covers the request with the alignment asked for exactly when size and alignment
survive, nothing is handed out, or the call does not come back. -/
theorem usable_iff_fits_of_run (L : Layout) (mem : ByteMemory) (events : List HeapEvent)
    (hevents : StepsMeet (Sound L) (HeapCall.serve L) (HeapRun.initial mem) events)
    (event : HeapEvent)
    (hproper : Proper L (run (HeapCall.serve L) (HeapRun.initial mem) events) event) :
    Usable L (run (HeapCall.serve L) (HeapRun.initial mem) events) event ↔
      Fits L (run (HeapCall.serve L) (HeapRun.initial mem) events) event ∨
        Dies L (run (HeapCall.serve L) (HeapRun.initial mem) events) event := by
  have hready := run_invariant (fun _ _ h hsound => h.serve hsound) (ready_initial L mem) hevents
  obtain ⟨⟨bs, tracks⟩, hr⟩ := hready
  exact usable_iff tracks hr hproper

/-- Calls of every kind, one of them refused. -/
def someCalls (L : Layout) : List HeapEvent :=
  [.malloc 100, .calloc 3 5, .malloc 0x40000000, .memalign 64 10,
    .posixMemalign 0x50000008 32 7, .free 0x50000008, .realloc 0x50000078 200].map
    fun call => (AddressSpace.initial L, call)

theorem usable_someCalls :
    StepsMeet (Sound (defaultLayout false)) (HeapCall.serve (defaultLayout false))
        (HeapRun.initial fun _ => 0) (someCalls (defaultLayout false)) ∧
      Usable (defaultLayout false)
        (run (HeapCall.serve (defaultLayout false)) (HeapRun.initial fun _ => 0)
          (someCalls (defaultLayout false)))
        (AddressSpace.initial (defaultLayout false), .memalign 4096 100) := by
  refine (and_iff_left_of_imp fun hevents => ?_).mpr (by decide +kernel)
  apply (usable_iff_fits_of_run _ _ _ hevents _ (by decide +kernel)).mpr
  exact .inl (.inl (by decide +kernel))

/-- The A32 layout with `LUNARIA_HEAP_MB` at its upper bound. -/
def largestLayout : Layout := guestLayoutInit false 1024 0 0

/-- Three answers that are not usable: `arm_align8` rounds `0xFFFFFFFF` to no bytes; on A64
`0x100010000` is packed to `0x10000`; and a `memalign` to 2 GiB sets the bump pointer of a 1 GiB
heap back to the null page. -/
theorem not_usable_wrapped : (Proper (defaultLayout false) (HeapRun.initial fun _ => 0)
        (AddressSpace.initial (defaultLayout false), .malloc 0xFFFFFFFF) ∧
      ¬ Usable (defaultLayout false) (HeapRun.initial fun _ => 0)
        (AddressSpace.initial (defaultLayout false), .malloc 0xFFFFFFFF)) ∧
    (Proper (defaultLayout true) (HeapRun.initial fun _ => 0)
        (AddressSpace.initial (defaultLayout true), .malloc 0x100010000) ∧
      ¬ Usable (defaultLayout true) (HeapRun.initial fun _ => 0)
        (AddressSpace.initial (defaultLayout true), .malloc 0x100010000)) ∧
    (StepsMeet (Proper largestLayout) (HeapCall.serve largestLayout) (HeapRun.initial fun _ => 0)
        [(AddressSpace.initial largestLayout, .malloc 0x30000000),
          (AddressSpace.initial largestLayout, .memalign 0x80000000 8),
          (AddressSpace.initial largestLayout, .malloc 8)] ∧ ¬ Usable largestLayout
        (run (HeapCall.serve largestLayout) (HeapRun.initial fun _ => 0)
          [(AddressSpace.initial largestLayout, .malloc 0x30000000),
            (AddressSpace.initial largestLayout, .memalign 0x80000000 8)])
        (AddressSpace.initial largestLayout, .malloc 8)) := by
  refine ⟨⟨?_, ?_⟩, ⟨?_, ?_⟩, ?_, ?_⟩ <;> decide +kernel

/-! ## The size the guest is told -/

/-- `SVC_MALLOC_USABLE_SIZE`. -/
def svcMallocUsableSize (L : Layout) (h : Heap) (va : Nat) : Nat :=
  if heapBase + 4 ≤ va ∧ va < heapBase + L.heapSize then h.mem.read32 (va - 4) else 0

/-- All live blocks are told a size that has the bytes requested and stays in the block. -/
def SizeTold (L : Layout) (g : HeapRun) (requested : Allocation → Nat) : Prop :=
  ∀ a ∈ g.live, requested a ≤ svcMallocUsableSize L g.heap a.payload ∧
    svcMallocUsableSize L g.heap a.payload ≤ a.size

theorem usableSize_of_live (tracks : HeapRun.Tracks L g bs) {a : Allocation} (ha : a ∈ g.live) :
    svcMallocUsableSize L g.heap a.payload = allocMagic ∧ a.size ≤ L.heapSize := by
  obtain ⟨b, hb, hlive, hpayload, hsize⟩ := tracks.exists_block ha
  have hplaced := tracks.inv.placed b hb
  have hbase := hplaced.above_base
  have hbelow := hplaced.below_ptr.trans (tracks.inv.ptr_le_limit.trans L.heapLimit_le)
  have hpositive := hplaced.positive
  rw [Layout.heapEnd] at hbelow
  rw [heapHdr] at hbase
  rw [svcMallocUsableSize, ← hpayload, ← hsize, if_pos (by omega), hplaced.magicWord, Block.magic,
    if_pos hlive]
  exact ⟨rfl, by omega⟩

/-- **`malloc_usable_size`** is the magic word, which is more than any heap. -/
theorem sizeTold_iff_of_run (L : Layout) (mem : ByteMemory) (events : List HeapEvent)
    (hevents : StepsMeet (Sound L) (HeapCall.serve L) (HeapRun.initial mem) events)
    (requested : Allocation → Nat) :
    SizeTold L (run (HeapCall.serve L) (HeapRun.initial mem) events) requested ↔
      (run (HeapCall.serve L) (HeapRun.initial mem) events).live = [] := by
  have hready := run_invariant (fun _ _ h hsound => h.serve hsound) (ready_initial L mem) hevents
  obtain ⟨⟨bs, tracks⟩, -⟩ := hready
  refine ⟨fun h => eq_nil_iff_forall_not_mem.mpr fun a ha => ?_, fun h a ha => ?_⟩
  · obtain ⟨hword, hsize⟩ := usableSize_of_live tracks ha
    have htold := (h a ha).2
    have hheap := L.heapSize_le
    rw [hword, allocMagic] at htold
    omega
  · rw [h] at ha
    cases ha

theorem not_sizeTold_someCalls :
    StepsMeet (Sound (defaultLayout false)) (HeapCall.serve (defaultLayout false))
        (HeapRun.initial fun _ => 0) (someCalls (defaultLayout false)) ∧
      ¬ SizeTold (defaultLayout false) (run (HeapCall.serve (defaultLayout false))
        (HeapRun.initial fun _ => 0) (someCalls (defaultLayout false))) Allocation.size :=
  ⟨by decide +kernel, mt (sizeTold_iff_of_run _ _ _ (by decide +kernel) _).mp (by decide +kernel)⟩

/-- Of 100 bytes the guest is told 2.5 GiB. -/
theorem not_sizeTold_malloc : ¬ SizeTold (defaultLayout false)
    (HeapCall.serve (defaultLayout false) (HeapRun.initial fun _ => 0)
      (AddressSpace.initial (defaultLayout false), .malloc 100)) fun _ => 100 := by
  intro h
  have htold := (h ⟨0x50000008, 104⟩ (by decide +kernel)).2
  revert htold
  decide +kernel

end HeapCall

end Lunaria
