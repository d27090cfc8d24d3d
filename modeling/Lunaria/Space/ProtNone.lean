/-
# The reservation counter

`g_mmap_prot_none_bytes` counts the address space that anonymous `PROT_NONE` mappings
take up, and `mmap_prot_none_budget_ok` bounds it. Next to the counter a run records
the reservations themselves: the page-rounded range of every successful anonymous
`PROT_NONE` mapping, less what was unmapped or replaced by another mapping since.
Committing part of a reservation with `mprotect` leaves it a reservation.

The handlers keep the counter without looking at the mappings. A mapping that replaces
reserved bytes never takes them off, and an `munmap` takes off the part of its range
that it cuts from the last slab of an arena, whatever was mapped there.
-/

import Lunaria.Space.Disjoint
import Lunaria.Lib.HeldRanges

namespace Lunaria

open Lib List

/-- The address space together with the reservations a guest holds. -/
structure ReserveRun where
  space : AddressSpace
  reserved : List Interval

namespace ReserveRun

variable (L : Layout) (g : ReserveRun)

def initial : ReserveRun := ⟨AddressSpace.initial L, []⟩

/-- What a call that is answered with an address replaces: the whole window, if it opens one; or
else its range. -/
def replaced (raw : Bool) (s : AddressSpace) (c : MmapCall) (addr : Nat) : Interval :=
  if fixedCall L s c then
    if opensWindow L s c.addr (svcArg L s c.addr) (svcArg L s c.len) (svcArg L s c.flags) then
      windowSpan c.addr
    else c.rangeAt c.addr
  else if windowCall L s c ∧ NamesWindow (preferredAddr raw L s c) then
    windowSpan (preferredAddr raw L s c)
  else c.rangeAt addr

def reservedAfter (raw : Bool) (c : MmapCall) : Option Nat → List Interval
  | none => g.reserved
  | some addr =>
    (if isReservation c.prot c.flags then [c.rangeAt addr] else []) ++
      giveBack g.reserved (replaced L raw g.space c addr)

def step (op : SpaceOp) : ReserveRun where
  space := g.space.step L op
  reserved :=
    match op with
    | .mmap raw env c => g.reservedAfter L raw c (mmapHandler raw L g.space env c).1
    | .munmap _ addr len => giveBack g.reserved ⟨addr, addr + roundUp len 4096⟩
    | .mprotect _ _ _ | .load _ _ | .store _ _ => g.reserved

/-- **The accounting law.** The counter is the size of the reservations. -/
def Balanced : Prop := g.space.protNoneBytes = held g.reserved
  deriving Decidable

/-- The part of an unmapped range that is cut from a slab: from its start to the end of the latest
slab that it covers to the end and that is the last of its arena. -/
def cutTail (s : AddressSpace) (addr len : Nat) : Interval :=
  if lazyMunmap L s addr then ⟨addr, addr⟩
  else
    match findReclaim L s.arenas (svcArg L s addr) (svcArg L s addr + svcArg L s len) with
    | none => ⟨addr, addr⟩
    | some (_, slab, _) => ⟨addr, addr + (slab.hi - svcArg L s addr)⟩

/-- The `int` arguments of a call are 32-bit values. -/
def Typed : SpaceOp → Prop
  | .mmap _ _ c => c.prot < 2 ^ 32 ∧ c.flags < 2 ^ 32
  | .munmap _ _ _ | .mprotect _ _ _ | .load _ _ | .store _ _ => True

/-- The calls that move the counter and the reservations alike. A fixed mapping reserves as much as
it replaces, usually nothing; any other mapping replaces no reserved byte, and a reservation has a
32-bit length. A raw `munmap` covers no reserved byte; a libc one covers none outside the part it
cuts from a slab, and that part is reserved throughout or holds all reservations. -/
def Accounted : SpaceOp → Prop
  | .mmap raw env c =>
    ∀ addr ∈ (mmapHandler raw L g.space env c).1,
      if fixedCall L g.space c then
        heldIn g.reserved (replaced L raw g.space c addr) =
          if isReservation c.prot c.flags then roundUp c.len 4096 else 0
      else heldIn g.reserved (replaced L raw g.space c addr) = 0 ∧
        (isReservation c.prot c.flags → c.len < 2 ^ 32)
  | .munmap true addr len => heldIn g.reserved ⟨addr, addr + roundUp len 4096⟩ = 0
  | .munmap false addr len =>
    let tail := cutTail L g.space addr len
    heldIn g.reserved ⟨addr, addr + roundUp len 4096⟩ = heldIn g.reserved tail ∧
      (heldIn g.reserved tail = tail.size ∨
        heldIn g.reserved tail = held g.reserved ∧ held g.reserved ≤ tail.size)
  | .mprotect _ _ _ | .load _ _ | .store _ _ => True

/-- No two faults of the call can make up for each other, as a length of 4 GiB and replaced bytes
could, or an unreserved tail and reserved bytes outside it. -/
def Single : SpaceOp → Prop
  | .mmap raw env c =>
    ∀ addr ∈ (mmapHandler raw L g.space env c).1,
      c.len < 2 ^ 32 ∨ heldIn g.reserved (replaced L raw g.space c addr) = 0
  | .munmap true _ _ => True
  | .munmap false addr len =>
    heldIn g.reserved ⟨addr, addr + roundUp len 4096⟩ =
      heldIn g.reserved (cutTail L g.space addr len)
  | .mprotect _ _ _ | .load _ _ | .store _ _ => True

end ReserveRun

/-! ## What the handlers do to the counter -/

section Counter

variable (L : Layout) (s : AddressSpace)

theorem preferred_protNoneBytes (hint limit : Nat) :
    (s.preferred hint limit).2.protNoneBytes = s.protNoneBytes := by
  rw [AddressSpace.preferred]
  split_ifs <;> rfl

variable (env : HostEnv)

theorem finishMmap_protNoneBytes (hint addr len flags fd off : Nat) :
    (finishMmap L s env hint addr len flags fd off).2.protNoneBytes = s.protNoneBytes := by
  have hpref := preferred_protNoneBytes s hint 0x40
  rw [finishMmap]
  split
  · simp only
    split
    · rw [a64RecordPrefAlias]
      split_ifs
      · exact hpref
      · exact hpref
    · exact hpref
  · split
    · cases env.pread fd len off <;> rfl
    · rfl

theorem overflowMmap_protNoneBytes (hint len : Nat) :
    (overflowMmap s env hint len).2.protNoneBytes = s.protNoneBytes := by
  have hpref := preferred_protNoneBytes s hint 0xff
  rw [overflowMmap]
  split
  · simp only
    split
    · exact hpref
    · exact hpref
  · rfl

theorem finishMmap_isSome {hint addr len flags fd off : Nat}
    (haddr : addr ≠ mapFailed) : (finishMmap L s env hint addr len flags fd off).1 ≠ none := by
  have hret : retAddr L addr ≠ none := by
    rw [retAddr]
    split <;> exact Option.some_ne_none _
  cases hopens : opensWindow L s hint addr len flags with
  | false =>
    rw [(finishMmap_direct L s env fd off hopens).1]
    exact hret
  | true =>
    rw [(finishMmap_window L s env fd off hopens).1]
    simp

theorem reserveLazy_protNoneBytes (hint len : Nat) : ((reserveLazy s hint len).1 = none ∧
        (reserveLazy s hint len).2.protNoneBytes = s.protNoneBytes) ∨
      (reserveLazy s hint len).1 ≠ none ∧ pageRound32 len ≠ 0 ∧
        (reserveLazy s hint len).2.protNoneBytes = s.protNoneBytes + pageRound32 len := by
  have hpref := preferred_protNoneBytes s hint 0x40
  rw [reserveLazy]
  simp only
  split
  · exact .inl ⟨rfl, hpref⟩
  · rename_i hnames
    refine .inr ⟨Option.some_ne_none _, fun hzero => hnames (.inr (.inr (.inr hzero))), ?_⟩
    exact congrArg (· + pageRound32 len) hpref

/-- **What an `mmap` does to the counter.** It rises by the rounded length when a reservation that
is not fixed succeeds. -/
theorem mmapHandler_protNoneBytes (raw : Bool) (env : HostEnv) (c : MmapCall) :
    ((mmapHandler raw L s env c).2.protNoneBytes = s.protNoneBytes ∧
        ((mmapHandler raw L s env c).1 = none ∨ fixedCall L s c ∨
          isReservation (svcArg L s c.prot) (svcArg L s c.flags) = false)) ∨
      ((mmapHandler raw L s env c).1 ≠ none ∧ fixedCall L s c = false ∧
        isReservation (svcArg L s c.prot) (svcArg L s c.flags) ∧
        pageRound32 (svcArg L s c.len) ≠ 0 ∧ (mmapHandler raw L s env c).2.protNoneBytes =
          s.protNoneBytes + pageRound32 (svcArg L s c.len)) := by
  rw [mmapHandler]
  simp only
  split
  · rename_i hbranch
    have hfixed : fixedCall L s c := by simpa [fixedCall] using hbranch
    left
    split
    · exact ⟨rfl, .inl rfl⟩
    · exact ⟨finishMmap_protNoneBytes .., .inr (.inl hfixed)⟩
  rename_i hbranch
  have hfixed : fixedCall L s c = false := by simpa [fixedCall] using hbranch
  split
  · exact .inl ⟨rfl, .inl rfl⟩
  split
  · rename_i hlazy
    rcases reserveLazy_protNoneBytes s c.addr (svcArg L s c.len) with
      ⟨hnone, hkept⟩ | ⟨hsome, hwant, hcounted⟩
    · exact .inl ⟨hkept, .inl hnone⟩
    · exact .inr ⟨hsome, hfixed, hlazy.2.2.1, hwant, hcounted⟩
  rename_i hlazy
  split
  · left
    split
    · rename_i hlarge
      -- a reservation of that size would have been a lazy one
      refine ⟨overflowMmap_protNoneBytes .., .inr (.inr ?_)⟩
      simp only [Bool.and_eq_true, decide_eq_true_eq] at hlarge
      rw [← Bool.not_eq_true]
      exact fun hres => hlazy ⟨hlarge.1.1.1, hlarge.1.1.2, hres, hlarge.2⟩
    · exact ⟨rfl, .inl rfl⟩
  · rename_i hplaced
    rw [finishMmap_protNoneBytes]
    split
    · rename_i hres
      exact .inr ⟨finishMmap_isSome _ _ _ hplaced, hfixed, hres, mmapBumpExact_want hplaced, rfl⟩
    · rename_i hres
      exact .inl ⟨rfl, .inr (.inr (Bool.not_eq_true _ ▸ hres))⟩

/-- **What an `munmap` does to the counter.** It is lowered by what is cut from a slab. -/
theorem svcLibcMunmap_protNoneBytes (addr len : Nat) : (svcLibcMunmap L s addr len).protNoneBytes =
      s.protNoneBytes - (ReserveRun.cutTail L s addr len).size := by
  rcases svcLibcMunmap_cases L s addr len with ⟨hlazy, heq | ⟨window, -, heq⟩⟩ | ⟨hlazy, heq⟩
  · simp [heq, ReserveRun.cutTail, hlazy, Interval.size]
  · simp [heq, ReserveRun.cutTail, hlazy, Interval.size, AddressSpace.setAlias]
  · rw [heq, munmapArena, ReserveRun.cutTail, if_neg (by simp [hlazy])]
    cases findReclaim L s.arenas (svcArg L s addr) (svcArg L s addr + svcArg L s len) with
    | none => simp [Interval.size]
    | some _ => simp [Interval.size]

theorem svcMprotect_protNoneBytes (addr len : Nat) :
    (svcMprotect L s env addr len).2.protNoneBytes = s.protNoneBytes := by
  rw [svcMprotect]
  simp only
  split
  · rfl
  · split_ifs <;> rfl

theorem guestStore_protNoneBytes (va : Nat) (value : UInt8) :
    (guestStore L s va value).protNoneBytes = s.protNoneBytes := by
  obtain ⟨s₁, ⟨aliases, rfl, -⟩, hstore⟩ := guestStore_spec L s va value
  rw [hstore]

theorem loadSegments_protNoneBytes (base : Nat) (segs : List Segment) :
    (loadSegments base s segs).protNoneBytes = s.protNoneBytes := by
  rw [loadSegments]
  induction segs generalizing s with
  | nil => rfl
  | cons seg segs ih =>
    rw [foldl_cons, ih, loadSegment]
    split <;> rfl

end Counter

/-! ## The law -/

namespace ReserveRun

variable {L : Layout} {g : ReserveRun}

theorem rangeAt_size (c : MmapCall) (addr : Nat) : (c.rangeAt addr).size = roundUp c.len 4096 := by
  rw [MmapCall.rangeAt, Interval.size, Nat.add_sub_cancel_left]

theorem pageRound32_eq_iff {s : AddressSpace} {len : Nat}
    (hwant : pageRound32 (svcArg L s len) ≠ 0) :
    pageRound32 (svcArg L s len) = roundUp len 4096 ↔ len < 2 ^ 32 := by
  constructor
  · have hlt := pageRound32_lt (svcArg L s len)
    have hle := le_pageRound len
    omega
  · intro hlt
    rw [svcArg_of_lt hlt] at hwant ⊢
    exact pageRound32_of_ne_zero hlt hwant

theorem held_reservedAfter (raw : Bool) (c : MmapCall) (addr : Nat) :
    held (g.reservedAfter L raw c (some addr)) +
        heldIn g.reserved (replaced L raw g.space c addr) =
      (if isReservation c.prot c.flags then roundUp c.len 4096 else 0) + held g.reserved := by
  have hle : (replaced L raw g.space c addr).lo ≤ (replaced L raw g.space c addr).hi := by
    simp only [replaced, windowSpan, MmapCall.rangeAt]
    split_ifs <;> dsimp only <;> omega
  have hgive := held_giveBack g.reserved hle
  have hsize := rangeAt_size c addr
  rw [reservedAfter]
  split_ifs
  · rw [singleton_append, held_cons]
    omega
  · rw [nil_append]
    omega

/-- A balanced `mmap` is accounted, if its faults cannot make up for each other. -/
theorem balanced_mmap (hbal : Balanced g) {raw : Bool} {env : HostEnv} {c : MmapCall}
    (htyped : Typed (.mmap raw env c)) :
    (Accounted L g (.mmap raw env c) → Balanced (step L g (.mmap raw env c))) ∧
      (Single L g (.mmap raw env c) → Balanced (step L g (.mmap raw env c)) →
        Accounted L g (.mmap raw env c)) := by
  have hprot : svcArg L g.space c.prot = c.prot := svcArg_of_lt htyped.1
  have hflags : svcArg L g.space c.flags = c.flags := svcArg_of_lt htyped.2
  have hcounter := mmapHandler_protNoneBytes L g.space raw env c
  simp only [hprot, hflags] at hcounter
  simp only [Balanced, Accounted, Single, step, AddressSpace.step] at hbal ⊢
  cases hresult : (mmapHandler raw L g.space env c).1 with
  | none =>
    rw [hresult] at hcounter
    have hkept := (hcounter.resolve_right fun h => h.1 rfl).1
    simp only [hkept, reservedAfter, Option.mem_def, reduceCtorEq, false_implies, implies_true,
      and_true]
    exact fun _ => hbal
  | some addr =>
    have hheld := held_reservedAfter (L := L) (g := g) raw c addr
    simp only [reduceCtorEq, false_or, hresult, Option.mem_def, Option.some.injEq,
      forall_eq'] at hcounter ⊢
    cases hfixed : fixedCall L g.space c with
    | true =>
      -- the counter stays, the reservations are exchanged
      have hkept := (hcounter.resolve_right fun h => by simp [hfixed] at h).1
      simp only [if_true]
      omega
    | false =>
      simp only [Bool.false_eq_true, if_false]
      cases hres : isReservation c.prot c.flags with
      | true =>
        simp only [hfixed, hres, Bool.false_eq_true, Bool.true_eq_false, and_false,
          false_or] at hcounter
        obtain ⟨-, -, -, hwant, hraised⟩ := hcounter
        have hlen := pageRound32_eq_iff hwant
        simp only [hres, if_true, forall_const] at hheld ⊢
        omega
      | false =>
        have hkept := (hcounter.resolve_right fun h => by simp [hres] at h).1
        simp only [hres, Bool.false_eq_true, if_false, false_implies, and_true] at hheld ⊢
        omega

theorem balanced_munmap (hbal : Balanced g) (raw : Bool) (addr len : Nat) :
    (Accounted L g (.munmap raw addr len) → Balanced (step L g (.munmap raw addr len))) ∧
      (Single L g (.munmap raw addr len) → Balanced (step L g (.munmap raw addr len)) →
        Accounted L g (.munmap raw addr len)) := by
  have hgive := held_giveBack g.reserved (j := ⟨addr, addr + roundUp len 4096⟩)
    (Nat.le_add_right ..)
  simp only [Balanced, step, AddressSpace.step] at hbal ⊢
  cases raw with
  | true =>
    simp only [Accounted, Single, if_true]
    omega
  | false =>
    simp only [Accounted, Single, Bool.false_eq_true, if_false, svcLibcMunmap_protNoneBytes]
    omega

/-- **The step lemma.** Where the counter is right, an accounted step keeps it right; and a step
that keeps it right is accounted, unless its faults make up for each other. -/
theorem balanced_step (hbal : Balanced g) (op : SpaceOp) (htyped : Typed op) :
    (Accounted L g op → Balanced (step L g op)) ∧
      (Single L g op → Balanced (step L g op) → Accounted L g op) := by
  cases op with
  | mmap raw env c => exact balanced_mmap hbal htyped
  | munmap raw addr len => exact balanced_munmap hbal raw addr len
  | mprotect env addr len =>
    have hkept := svcMprotect_protNoneBytes L g.space env addr len
    exact ⟨fun _ => hkept.trans hbal, fun _ _ => trivial⟩
  | load base segs =>
    have hkept := loadSegments_protNoneBytes g.space base segs
    exact ⟨fun _ => hkept.trans hbal, fun _ _ => trivial⟩
  | store va value =>
    have hkept := guestStore_protNoneBytes L g.space va value
    exact ⟨fun _ => hkept.trans hbal, fun _ _ => trivial⟩

instance : ∀ op, Decidable (Typed op)
  | .mmap _ _ c => inferInstanceAs (Decidable (c.prot < 2 ^ 32 ∧ c.flags < 2 ^ 32))
  | .munmap _ _ _ | .mprotect _ _ _ | .load _ _ | .store _ _ => inferInstanceAs (Decidable True)

instance (L : Layout) (g : ReserveRun) : ∀ op, Decidable (Accounted L g op)
  | .mmap raw env c => inferInstanceAs (Decidable (∀ addr ∈ (mmapHandler raw L g.space env c).1,
        if fixedCall L g.space c = true then
          heldIn g.reserved (replaced L raw g.space c addr) =
            if isReservation c.prot c.flags then roundUp c.len 4096 else 0
        else heldIn g.reserved (replaced L raw g.space c addr) = 0 ∧
          (isReservation c.prot c.flags → c.len < 2 ^ 32)))
  | .munmap true addr len =>
    inferInstanceAs (Decidable (heldIn g.reserved ⟨addr, addr + roundUp len 4096⟩ = 0))
  | .munmap false _ _ => inferInstanceAs (Decidable (_ = _ ∧ (_ = _ ∨ _ = _ ∧ _ ≤ _)))
  | .mprotect _ _ _ | .load _ _ | .store _ _ => inferInstanceAs (Decidable True)

def reserveCall (hint len : Nat) : MmapCall := ⟨hint, len, 0, 0x22, 0xffffffff, 0, false⟩

def fixedReserveCall (addr len : Nat) : MmapCall := ⟨addr, len, 0, 0x32, 0xffffffff, 0, false⟩

/-- Reserve, give the upper half back, and map something else. -/
def alignedReserve : List SpaceOp :=
  [.mmap false plainHost (reserveCall 0 0x100000), .munmap false 0x10080000 0x80000,
    .mmap false plainHost (anonymousCall 0 0x1000), .mprotect plainHost 0x10000000 0x1000]

end ReserveRun

end Lunaria
