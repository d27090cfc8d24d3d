/-
# The pool of stubs for unknown symbols

A symbol nobody knows gets a stub behind the trampolines of the runtime, both when a 64-bit library
imports it and when `dlsym` is asked for it; a 32-bit import is bound to one trampoline for all.
The stubs are numbered in the order of the names. This module follows any sequence of such imports
and `dlsym` calls: which stubs are handed out, where they are, and what is written for them.
-/

import Lunaria.Elf.Relocation64
import Mathlib.Data.List.Infix
import Mathlib.Data.List.Nodup

namespace Lunaria.Elf

open Lib List

namespace Linker

/-! ## `dlsym` -/

/-- The address as the guest sees it. -/
def guestVa (L : Layout) (va : Nat) : Nat := if L.isArm64 then a64GuestVa va else va

/-- Names `dlsym` answers with zero. -/
def isVsyncHelper (name : CStr) : Bool :=
  name = cstr "AChoreographer_postVsyncCallback" ||
    name.tails.any (cstr "AChoreographerFrameCallbackData_").isPrefixOf

/-- `SVC_DLSYM`; `none` is a null pointer for a name. -/
def svcDlsym (L : Layout) (env : LinkEnv) (k : Linker) : Option CStr → Nat × Linker
  | none => (guestVa L (tramp L svcRet0), k)
  | some name =>
    match k.exports.lookup name with
    | some va => (va, k)
    | none =>
      if isVsyncHelper name then (0, k)
      else
        match lookupSymbolDirectVa L env k name with
        | (0, k) =>
          match env.svc name with
          | some n => (guestVa L (tramp L n), k)
          | none =>
            match unknownStub L k name with
            | (some slot, k) => (guestVa L (tramp L (svcTrampTotal + slot)), k)
            -- `ret32` in both layouts
            | (none, k) => (tramp L svcRet0, k)
        | (va, k) => (guestVa L va, k)

/-! ## Sequences of calls -/

/-- The loader of either class binds an import. -/
def resolveImport (L : Layout) (env : LinkEnv) (k : Linker) (name : CStr) : Nat × Linker :=
  if L.isArm64 then resolveImport64 L env k name else resolveImport32 L env k name

/-- No library exports the name, and the runtime does not know it. -/
def Unresolved (L : Layout) (env : LinkEnv) (k : Linker) (name : CStr) : Prop :=
  k.exports.lookup name = none ∧ (lookupSymbolDirectVa L env k name).1 = 0 ∧ env.svc name = none

instance unresolvedDecidable (L : Layout) (env : LinkEnv) (k : Linker) (name : CStr) :
    Decidable (Unresolved L env k name) :=
  inferInstanceAs (Decidable (_ ∧ _ ∧ _))

inductive PoolOp
  /-- A library imports the name. -/
  | bind (name : CStr)
  | dlsym (name : Option CStr)

structure PoolCall where
  exports : List (CStr × Nat)
  op : PoolOp

namespace PoolCall

variable (L : Layout) (env : LinkEnv) (k : Linker) (c : PoolCall)

def exec : Nat × Linker :=
  match c.op with
  | .bind name => resolveImport L env { k with exports := c.exports } name
  | .dlsym name => svcDlsym L env { k with exports := c.exports } name

/-- Imports that are resolved are none of the pool's business. -/
def Allowed : Prop :=
  match c.op with
  | .bind name => Unresolved L env { k with exports := c.exports } name
  | .dlsym _ => True

/-- The name the call wants a stub for. Imports of 32-bit libraries share a trampoline. -/
def wanted : Option CStr :=
  match c.op with
  | .bind name => if L.isArm64 then some name else none
  | .dlsym none => none
  | .dlsym (some name) =>
    if Unresolved L env { k with exports := c.exports } name ∧ isVsyncHelper name = false then
      some name
    else none

end PoolCall

/-- The linker, and the stubs handed out: names and addresses. -/
structure PoolRun where
  linker : Linker
  stubs : List (CStr × Nat)

def PoolRun.step (L : Layout) (env : LinkEnv) (s : PoolRun) (c : PoolCall) : PoolRun :=
  let (va, k) := c.exec L env s.linker
  ⟨k, match c.wanted L env s.linker with
    | some name => if (k.unknownSlot.lookup name).isSome then (name, va) :: s.stubs else s.stubs
    | none => s.stubs⟩

/-! ## What a call does -/

/-- The address of the stub in a slot. -/
def stubVa (L : Layout) (slot : Nat) : Nat := guestVa L (tramp L (svcTrampTotal + slot))

/-- Guest memory and the pool are the same. -/
structure SamePool (k k' : Linker) : Prop where
  names : k'.unknownNames = k.unknownNames
  slots : k'.unknownSlot = k.unknownSlot
  mem : k'.mem = k.mem

/-- What a call can do, by the name it wants a stub for. -/
inductive PoolEffect (L : Layout) (k : Linker) : Option CStr → Nat × Linker → Prop
  | unwanted {va : Nat} {k' : Linker} (hsame : SamePool k k') : PoolEffect L k none (va, k')
  | known {name : CStr} {slot : Nat} {k' : Linker} (hknown : k.unknownSlot.lookup name = some slot)
      (hsame : SamePool k k') : PoolEffect L k (some name) (stubVa L slot, k')
  | full {name : CStr} {va : Nat} {k' : Linker} (hnew : k.unknownSlot.lookup name = none)
      (hfull : k.PoolFull L) (hsame : SamePool k k') : PoolEffect L k (some name) (va, k')
  | fresh {name : CStr} {k₁ : Linker} (hnew : k.unknownSlot.lookup name = none)
      (hroom : ¬ k.PoolFull L) (hsame : SamePool k k₁) :
      PoolEffect L k (some name) (stubVa L k.unknownNames.length, addStub L k₁ name)

variable {L : Layout} {env : LinkEnv} {k k' k'' : Linker} {name : CStr}

theorem SamePool.trans (h : SamePool k k') (h' : SamePool k' k'') : SamePool k k'' :=
  ⟨h'.names.trans h.names, h'.slots.trans h.slots, h'.mem.trans h.mem⟩

theorem unknownStub_effect {k₁ : Linker} (hsame : SamePool k k₁) (fallback : Nat) :
    PoolEffect L k (some name) (match unknownStub L k₁ name with
        | (some slot, k) => (guestVa L (tramp L (svcTrampTotal + slot)), k)
        | (none, k) => (fallback, k)) := by
  cases hk : k₁.unknownSlot.lookup name with
  | some slot =>
    rw [unknownStub_known hk]
    exact .known (hsame.slots ▸ hk) hsame
  | none =>
    have hnew : k.unknownSlot.lookup name = none := hsame.slots ▸ hk
    have hfull_iff : k₁.PoolFull L ↔ k.PoolFull L := by rw [PoolFull, PoolFull, hsame.names]
    by_cases hfull : k₁.PoolFull L
    · rw [unknownStub_full hk hfull]
      exact .full hnew (hfull_iff.mp hfull) hsame
    · rw [unknownStub_new hk hfull, hsame.names]
      exact .fresh hnew (fun h => hfull (hfull_iff.mpr h)) hsame

theorem lookupSymbolDirectVa_samePool (L : Layout) (env : LinkEnv) (k : Linker) (name : CStr) :
    SamePool k (lookupSymbolDirectVa L env k name).2 := by
  obtain ⟨va, slIids, slNext, heq⟩ := lookupSymbolDirectVa_eq L env k name
  rw [heq]
  exact ⟨rfl, rfl, rfl⟩

theorem resolveImport32_unresolved (h : Unresolved L env k name) :
    resolveImport32 L env k name = (tramp L svcUnknownCall,
      (lookupSymbolDirectVa L env k name).2) := by
  obtain ⟨hexports, hdirect, hsvc⟩ := h
  rw [resolveImport32, hexports]
  cases hlookup : lookupSymbolDirectVa L env k name with
  | mk va k₁ =>
    rw [hlookup] at hdirect
    cases hdirect
    simp [hsvc]

theorem resolveImport64_effect (hsame : SamePool k' k) (h : Unresolved L env k name)
    (harm : L.isArm64) : PoolEffect L k' (some name) (resolveImport64 L env k name) := by
  obtain ⟨hexports, hdirect, hsvc⟩ := h
  have hguest : ∀ va, a64GuestVa va = guestVa L va := fun va => (if_pos harm).symm
  have hpool := lookupSymbolDirectVa_samePool L env k name
  rw [resolveImport64, hexports]
  cases hlookup : lookupSymbolDirectVa L env k name with
  | mk va k₁ =>
    rw [hlookup] at hdirect hpool
    cases hdirect
    simp only [hsvc, hguest]
    exact unknownStub_effect (hsame.trans hpool) _

theorem svcDlsym_effect (hsame : SamePool k' k) (name : CStr) :
    PoolEffect L k'
      (if Unresolved L env k name ∧ isVsyncHelper name = false then some name else none)
      (svcDlsym L env k (some name)) := by
  rw [svcDlsym]
  cases hexports : k.exports.lookup name with
  | some va =>
    rw [if_neg (by simp [Unresolved, hexports])]
    exact .unwanted hsame
  | none =>
    by_cases hvsync : isVsyncHelper name
    · rw [if_neg (by simp [hvsync]), if_pos hvsync]
      exact .unwanted hsame
    rw [if_neg hvsync]
    have hpool := lookupSymbolDirectVa_samePool L env k name
    have hunresolved : Unresolved L env k name ∧ isVsyncHelper name = false ↔
        (lookupSymbolDirectVa L env k name).1 = 0 ∧ env.svc name = none := by
      simp [Unresolved, hexports, hvsync]
    simp only [hunresolved]
    cases hlookup : lookupSymbolDirectVa L env k name with
    | mk va k₁ =>
      rw [hlookup] at hpool
      cases va with
      | succ va => exact .unwanted (hsame.trans hpool)
      | zero =>
        cases hsvc : env.svc name with
        | some n => exact .unwanted (hsame.trans hpool)
        | none => exact unknownStub_effect (hsame.trans hpool) _

variable {c : PoolCall}

theorem PoolCall.exec_effect (h : c.Allowed L env k) :
    PoolEffect L k (c.wanted L env k) (c.exec L env k) := by
  obtain ⟨exports, op⟩ := c
  have hsame : SamePool k { k with exports } := ⟨rfl, rfl, rfl⟩
  cases op with
  | bind name =>
    by_cases harm : L.isArm64
    · simp only [PoolCall.wanted, PoolCall.exec, resolveImport, if_pos harm]
      exact resolveImport64_effect hsame h harm
    · simp only [PoolCall.wanted, PoolCall.exec, resolveImport, if_neg harm]
      rw [resolveImport32_unresolved h]
      exact .unwanted (hsame.trans (lookupSymbolDirectVa_samePool L env _ name))
  | dlsym name =>
    cases name with
    | none => exact .unwanted hsame
    | some name => exact svcDlsym_effect hsame name

theorem PoolCall.exec_bind32 {exports : List (CStr × Nat)} (harm : L.isArm64 = false)
    (h : Unresolved L env { k with exports } name) :
    ((PoolCall.mk exports (.bind name)).exec L env k).1 = tramp L svcUnknownCall := by
  simp only [PoolCall.exec, resolveImport, harm, Bool.false_eq_true, if_false]
  rw [resolveImport32_unresolved h]

/-! ## Where the stubs are -/

/-- The window of trampolines and stubs ends at the JNI table. In the layout of A64 it lies below
the fixed code pages. -/
structure PoolLayout (L : Layout) : Prop where
  jni : L.jniTbl64Base = L.trampBase + 0x10000
  fits : L.trampBase + 0x20000 < 2 ^ 32
  below : L.isArm64 = true → L.jniTbl64Base ≤ pthreadOnceStub

theorem poolLayout_init (isArm64 : Bool) (heapMb mmap2Base mmap2End : Int) :
    PoolLayout (guestLayoutInit isArm64 heapMb mmap2Base mmap2End) := by
  cases isArm64 with
  | false => constructor <;> simp [guestLayoutInit]
  | true => constructor <;> simp [guestLayoutInit, pthreadOnceStub]

/-- The number of stubs there is room for. -/
def poolCapacity : Nat := 7152

def stubRange (L : Layout) (slot : Nat) : Interval :=
  ⟨tramp L (svcTrampTotal + slot), tramp L (svcTrampTotal + slot) + trampStride⟩

theorem u32_stubVa (L : Layout) (slot : Nat) :
    u32 (stubVa L slot) = tramp L (svcTrampTotal + slot) := by
  have hlow : u32 (tramp L (svcTrampTotal + slot)) = tramp L (svcTrampTotal + slot) := u32_u32 _
  have hbase : a64GuestBase = 0x7000 * 2 ^ 32 := by norm_num [a64GuestBase]
  rw [stubVa, guestVa]
  split
  · rw [a64GuestVa, hbase, u32, Nat.mul_add_mod_self_right]
    exact hlow
  · exact hlow

namespace PoolLayout

variable (hL : PoolLayout L) {slot slot' : Nat}
include hL

theorem full_iff (hk : k.unknownNames.length ≤ poolCapacity) :
    k.PoolFull L ↔ k.unknownNames.length = poolCapacity := by
  have hfits := hL.fits
  rw [poolCapacity] at hk ⊢
  rw [PoolFull, hL.jni, svcTrampTotal, trampStride, u32_of_lt (by omega)]
  omega

theorem tramp_eq (h : slot < poolCapacity) :
    tramp L (svcTrampTotal + slot) = L.trampBase + (svcTrampTotal + slot) * trampStride := by
  have hfits := hL.fits
  rw [poolCapacity] at h
  rw [tramp, u32_of_lt]
  rw [svcTrampTotal, trampStride]
  omega

theorem stubVa_injective (h : slot < poolCapacity) (h' : slot' < poolCapacity)
    (heq : stubVa L slot = stubVa L slot') : slot = slot' := by
  have htramp := congrArg u32 heq
  rw [u32_stubVa, u32_stubVa, hL.tramp_eq h, hL.tramp_eq h', trampStride] at htramp
  omega

theorem mem_stubRange {x : Nat} (h : slot < poolCapacity) :
    x ∈ (stubRange L slot).addresses ↔ L.trampBase + (svcTrampTotal + slot) * trampStride ≤ x ∧
      x < L.trampBase + (svcTrampTotal + slot) * trampStride + trampStride := by
  rw [Interval.mem_addresses, stubRange, hL.tramp_eq h]

theorem addStub_mem {x : Nat} (h : k.unknownNames.length < poolCapacity)
    (hx : x ∉ (stubRange L k.unknownNames.length).addresses) :
    (addStub L k name).mem x = k.mem x := by
  have hframe : (addStub L k name).observe x = k.observe x := by
    apply addStub_frame
    rintro ⟨r, hr, hlo, hhi⟩
    obtain ⟨i, hi, rfl⟩ := mem_map.mp hr
    apply hx
    -- The two words do not wrap around.
    have hfits := hL.fits
    have hword := mem_range.mp hi
    rw [hL.mem_stubRange h]
    dsimp only at hlo hhi
    rw [hL.tramp_eq h] at hlo hhi
    rw [poolCapacity] at h
    rw [svcTrampTotal, trampStride] at hlo hhi ⊢
    rw [u32_of_lt (by omega)] at hlo hhi
    omega
  exact congrArg Prod.fst hframe

end PoolLayout

/-! ## The pool along a run -/

/-- The slots number the names, there is room for all, and a stub handed out is the one in the slot
of its name. -/
structure PoolRun.Inv (L : Layout) (s : PoolRun) : Prop where
  slots : s.linker.unknownSlot = s.linker.unknownNames.zipIdx
  nodup : s.linker.unknownNames.Nodup
  room : s.linker.unknownNames.length ≤ poolCapacity
  stubs : ∀ p ∈ s.stubs, ∃ slot, s.linker.unknownNames[slot]? = some p.1 ∧ p.2 = stubVa L slot

variable {names : List CStr}

theorem lookup_zipIdx_eq_some {slot : Nat}
    (h : names.zipIdx.lookup name = some slot) : names[slot]? = some name := by
  obtain ⟨before, after, heq, -⟩ := lookup_eq_some_iff.mp h
  have hmem : (name, slot) ∈ names.zipIdx := by
    rw [heq]
    exact mem_append_right _ mem_cons_self
  exact mem_zipIdx_iff_getElem?.mp hmem

theorem not_mem_of_lookup_zipIdx (h : names.zipIdx.lookup name = none) : name ∉ names := by
  intro hmem
  obtain ⟨slot, hslot⟩ := mem_iff_getElem?.mp hmem
  have hne := lookup_eq_none_iff.mp h (name, slot) (mem_zipIdx_iff_getElem?.mpr hslot)
  simp at hne

namespace PoolRun.Inv

variable {s : PoolRun}

/-- A call that leaves the pool alone and hands out nothing new, or a stub in its place. -/
theorem of_samePool (h : Inv L s) (hsame : SamePool s.linker k) {stubs : List (CStr × Nat)}
    (hstubs : ∀ p ∈ stubs, p ∈ s.stubs ∨
      ∃ slot, s.linker.unknownNames[slot]? = some p.1 ∧ p.2 = stubVa L slot) :
    Inv L ⟨k, stubs⟩ where
  slots := by rw [hsame.slots, hsame.names, h.slots]
  nodup := hsame.names ▸ h.nodup
  room := hsame.names ▸ h.room
  stubs p hp := by
    rw [hsame.names]
    rcases hstubs p hp with hold | hslot
    · exact h.stubs p hold
    · exact hslot

theorem step (hL : PoolLayout L) (h : Inv L s) (hc : c.Allowed L env s.linker) :
    Inv L (s.step L env c) := by
  have heffect := PoolCall.exec_effect hc
  simp only [PoolRun.step]
  generalize c.wanted L env s.linker = wanted at heffect
  generalize c.exec L env s.linker = answer at heffect
  cases heffect with
  | unwanted hsame => exact h.of_samePool hsame fun p hp => .inl hp
  | @known name slot k' hknown hsame =>
    have hslot := lookup_zipIdx_eq_some (h.slots ▸ hknown)
    apply h.of_samePool hsame
    intro p hp
    simp only [hsame.slots, hknown] at hp
    rcases mem_cons.mp hp with rfl | hold
    · exact .inr ⟨slot, hslot, rfl⟩
    · exact .inl hold
  | full hnew hfull hsame =>
    apply h.of_samePool hsame
    intro p hp
    simp only [hsame.slots, hnew] at hp
    exact .inl hp
  | @fresh name k₁ hnew hroom hsame =>
    have hnames : (addStub L k₁ name).unknownNames = s.linker.unknownNames ++ [name] := by
      rw [← hsame.names]
      rfl
    have hslots : (addStub L k₁ name).unknownSlot = (s.linker.unknownNames ++ [name]).zipIdx := by
      rw [zipIdx_append, ← h.slots, ← hsame.names, ← hsame.slots]
      simp [addStub, writeWords]
    have hlast := addStub_lookup (hsame.slots ▸ hnew) L
    have hfresh : name ∉ s.linker.unknownNames := not_mem_of_lookup_zipIdx (h.slots ▸ hnew)
    rw [hL.full_iff h.room] at hroom
    refine ⟨hslots.trans (hnames ▸ rfl), ?_, ?_, ?_⟩
    · simp only [hnames]
      rw [nodup_append]
      refine ⟨h.nodup, by simp, ?_⟩
      intro a ha b hb hab
      rw [mem_singleton.mp hb] at hab
      exact hfresh (hab ▸ ha)
    · simp only [hnames, length_append, length_singleton]
      have := h.room
      omega
    · intro p hp
      simp only [hlast] at hp
      simp only [hnames]
      rcases mem_cons.mp hp with rfl | hold
      · exact ⟨s.linker.unknownNames.length, by simp, rfl⟩
      · obtain ⟨slot, hslot, hva⟩ := h.stubs p hold
        refine ⟨slot, ?_, hva⟩
        rw [getElem?_append_left (List.getElem?_eq_some_iff.mp hslot).1]
        exact hslot

theorem same_iff (hL : PoolLayout L) (h : Inv L s) {p p' : CStr × Nat} (hp : p ∈ s.stubs)
    (hp' : p' ∈ s.stubs) : p.1 = p'.1 ↔ p.2 = p'.2 := by
  obtain ⟨slot, hslot, hva⟩ := h.stubs p hp
  obtain ⟨slot', hslot', hva'⟩ := h.stubs p' hp'
  have hlt := (List.getElem?_eq_some_iff.mp hslot).1
  have hlt' := (List.getElem?_eq_some_iff.mp hslot').1
  constructor
  · intro hname
    rw [← hname] at hslot'
    have hsame : slot = slot' := (getElem?_inj hlt h.nodup).mp (hslot.trans hslot'.symm)
    rw [hva, hva', hsame]
  · intro hsame
    rw [hva, hva'] at hsame
    have hslots := hL.stubVa_injective (hlt.trans_le h.room) (hlt'.trans_le h.room) hsame
    rw [hslots, hslot', Option.some.injEq] at hslot
    exact hslot.symm

theorem handed (hL : PoolLayout L) (h : Inv L s) (hc : c.Allowed L env s.linker)
    (hwanted : c.wanted L env s.linker = some name)
    (hroom : name ∈ s.linker.unknownNames ∨ s.linker.unknownNames.length < poolCapacity) :
    (name, (c.exec L env s.linker).1) ∈ (s.step L env c).stubs := by
  have heffect := PoolCall.exec_effect hc
  rw [hwanted] at heffect
  simp only [PoolRun.step, hwanted]
  generalize c.exec L env s.linker = answer at heffect
  cases heffect with
  | known hknown hsame =>
    simp only [hsame.slots, hknown]
    exact mem_cons_self
  | full hnew hfull hsame =>
    rw [hL.full_iff h.room] at hfull
    rcases hroom with hin | hlt
    · exact absurd hin (not_mem_of_lookup_zipIdx (h.slots ▸ hnew))
    · omega
  | fresh hnew hroom hsame =>
    simp only [addStub_lookup (hsame.slots ▸ hnew) L]
    exact mem_cons_self

end PoolRun.Inv

/-! ## What a new stub leaves alone -/

def svcTrampolines (L : Layout) : Interval :=
  ⟨L.trampBase, L.trampBase + svcTrampTotal * trampStride⟩

/-- The JNI and JVM tables with the slots behind them. -/
def jniTables (L : Layout) : Interval := ⟨L.jniTbl64Base, L.jniTbl64Base + 0x3000⟩

/-- The guest code of `pthread_once`. -/
def onceStubRange : Interval := ⟨pthreadOnceStub, pthreadOnceStub + 64⟩

def fastMutexPage : Interval := ⟨0x4100f000, 0x41010000⟩

/-- The next stub does not reach a fixed code page: these are elsewhere on A64, and in the middle
of the pool otherwise. -/
def Clear (L : Layout) (k : Linker) (page : Interval) : Prop :=
  L.isArm64 = true ∨
    L.trampBase + (svcTrampTotal + k.unknownNames.length + 1) * trampStride ≤ page.lo

/-- Bytes a new stub has to leave alone. -/
inductive Spared (L : Layout) (s : PoolRun) (x : Nat) : Prop
  | trampoline (hx : x ∈ (svcTrampolines L).addresses)
  | jni (hx : x ∈ (jniTables L).addresses)
  | stub (p : CStr × Nat) (hp : p ∈ s.stubs) (hx : u32 p.2 ≤ x ∧ x < u32 p.2 + trampStride)
  | once (hclear : Clear L s.linker onceStubRange) (hx : x ∈ onceStubRange.addresses)
  | fastMutex (hclear : Clear L s.linker fastMutexPage) (hx : x ∈ fastMutexPage.addresses)

variable {x : Nat}

theorem Clear.not_mem {page : Interval} (hL : PoolLayout L)
    (hroom : k.unknownNames.length < poolCapacity) (h : Clear L k page)
    (hpage : pthreadOnceStub ≤ page.lo) (hx : x ∈ page.addresses) :
    x ∉ (stubRange L k.unknownNames.length).addresses := by
  obtain ⟨hlo, -⟩ : page.lo ≤ x ∧ x < page.hi := hx
  rw [hL.mem_stubRange hroom]
  rintro ⟨-, hhi⟩
  have hend : L.trampBase + (svcTrampTotal + k.unknownNames.length + 1) * trampStride =
      L.trampBase + (svcTrampTotal + k.unknownNames.length) * trampStride + trampStride := by
    rw [Nat.succ_mul, add_assoc]
  rcases h with harm | hclear
  · have hbelow := hL.below harm
    have hjni := hL.jni
    rw [poolCapacity] at hroom
    rw [svcTrampTotal, trampStride] at hhi
    omega
  · omega

variable {s : PoolRun}

theorem Spared.not_mem (hL : PoolLayout L) (h : s.Inv L)
    (hroom : s.linker.unknownNames.length < poolCapacity) (hx : Spared L s x) :
    x ∉ (stubRange L s.linker.unknownNames.length).addresses := by
  cases hx with
  | once hclear hx => exact hclear.not_mem hL hroom le_rfl hx
  | fastMutex hclear hx => exact hclear.not_mem hL hroom (by decide) hx
  | trampoline hx =>
    obtain ⟨-, hhi⟩ : L.trampBase ≤ x ∧ x < L.trampBase + svcTrampTotal * trampStride := hx
    rw [hL.mem_stubRange hroom]
    rw [trampStride] at hhi ⊢
    omega
  | jni hx =>
    obtain ⟨hlo, -⟩ : L.jniTbl64Base ≤ x ∧ x < L.jniTbl64Base + 0x3000 := hx
    have hjni := hL.jni
    rw [hL.mem_stubRange hroom]
    rw [poolCapacity] at hroom
    rw [svcTrampTotal, trampStride]
    omega
  | stub p hp hx =>
    obtain ⟨slot, hslot, hva⟩ := h.stubs p hp
    have hlt := (List.getElem?_eq_some_iff.mp hslot).1
    rw [hL.mem_stubRange hroom]
    rw [hva, u32_stubVa, hL.tramp_eq (hlt.trans_le h.room)] at hx
    rw [trampStride] at hx ⊢
    omega

theorem PoolRun.Inv.spared (hL : PoolLayout L) (h : s.Inv L) (hc : c.Allowed L env s.linker)
    (hx : Spared L s x) : (s.step L env c).linker.mem x = s.linker.mem x := by
  have heffect := PoolCall.exec_effect hc
  simp only [PoolRun.step]
  generalize c.wanted L env s.linker = wanted at heffect
  generalize c.exec L env s.linker = answer at heffect
  cases heffect with
  | unwanted hsame | known _ hsame | full _ _ hsame => rw [hsame.mem]
  | @fresh name k₁ hnew hroom hsame =>
    rw [hL.full_iff h.room] at hroom
    have hlt := lt_of_le_of_ne h.room hroom
    have hout := hx.not_mem hL h hlt
    rw [← hsame.names] at hout hlt
    rw [hL.addStub_mem hlt hout, hsame.mem]

def withoutStubs (k : Linker) : Linker := { k with unknownNames := [], unknownSlot := [] }

/-- **Stub pool isolation.** In every run of unresolved imports and `dlsym` calls: stubs are the
same exactly for the same names; a call that wants one gets it while fewer than `poolCapacity` names
have one; 32-bit imports share the trampoline of `SVC_UNKNOWN_CALL`; and no call changes an earlier
stub, the trampolines, the JNI tables or the code pages the pool has not reached. -/
theorem stubPool_isolated (isArm64 : Bool) (heapMb mmap2Base mmap2End : Int) (env : LinkEnv)
    (k : Linker) (calls : List PoolCall)
    (hcalls : StepsMeet
      (fun s c => c.Allowed (guestLayoutInit isArm64 heapMb mmap2Base mmap2End) env s.linker)
      (PoolRun.step (guestLayoutInit isArm64 heapMb mmap2Base mmap2End) env)
      ⟨k.withoutStubs, []⟩ calls) :
    let L := guestLayoutInit isArm64 heapMb mmap2Base mmap2End
    let s := run (PoolRun.step L env) ⟨k.withoutStubs, []⟩ calls
    (∀ p ∈ s.stubs, ∀ p' ∈ s.stubs, p.1 = p'.1 ↔ p.2 = p'.2) ∧
    (∀ c name, c.Allowed L env s.linker → c.wanted L env s.linker = some name →
      name ∈ s.linker.unknownNames ∨ s.linker.unknownNames.length < poolCapacity →
        (name, (c.exec L env s.linker).1) ∈ (s.step L env c).stubs) ∧
    (isArm64 = false → ∀ exports name, (PoolCall.mk exports (.bind name)).Allowed L env s.linker →
      ((PoolCall.mk exports (.bind name)).exec L env s.linker).1 = tramp L svcUnknownCall) ∧
    ∀ c x, c.Allowed L env s.linker → Spared L s x →
      (s.step L env c).linker.mem x = s.linker.mem x := by
  intro L s
  have hL : PoolLayout L := poolLayout_init isArm64 heapMb mmap2Base mmap2End
  have hstart : PoolRun.Inv L ⟨k.withoutStubs, []⟩ := by constructor <;> simp [withoutStubs]
  have hinv : s.Inv L := run_invariant (fun _ _ h hc => h.step hL hc) hstart hcalls
  refine ⟨?_, ?_, ?_, ?_⟩
  · intro p hp p' hp'
    exact hinv.same_iff hL hp hp'
  · intro c name hc hwanted hroom
    exact hinv.handed hL hc hwanted hroom
  · intro harm exports name hc
    exact PoolCall.exec_bind32 harm hc
  · intro c x hc hx
    exact hinv.spared hL hc hx

/-! ## Names that share an address -/

def dlsymCall (name : CStr) : PoolCall := ⟨[], .dlsym (some name)⟩

/-- A name nobody knows, in any state. -/
def Unknown (L : Layout) (env : LinkEnv) (name : CStr) : Prop :=
  isVsyncHelper name = false ∧ ∀ k : Linker, Unresolved L env { k with exports := [] } name

theorem wanted_dlsymCall (h : Unknown L env name) (k : Linker) :
    (dlsymCall name).wanted L env k = some name :=
  if_pos ⟨h.2 k, h.1⟩

theorem dlsymCall_full (h : Unknown L env name) (hnew : k.unknownSlot.lookup name = none)
    (hfull : k.PoolFull L) : ((dlsymCall name).exec L env k).1 = tramp L svcRet0 := by
  obtain ⟨hexports, hdirect, hsvc⟩ := h.2 k
  have hpool := lookupSymbolDirectVa_samePool L env { k with exports := [] } name
  simp only [dlsymCall, PoolCall.exec, svcDlsym, h.1]
  cases hlookup : lookupSymbolDirectVa L env { k with exports := [] } name with
  | mk va k₁ =>
    rw [hlookup] at hdirect hpool
    cases hdirect
    have hfull' : k₁.PoolFull L := by
      rw [PoolFull, hpool.names]
      exact hfull
    simp only [hsvc, unknownStub_full (hpool.slots ▸ hnew) hfull']
    rfl

theorem run_dlsymCalls (hL : PoolLayout L) (h : s.Inv L)
    (hunknown : ∀ name ∈ names, Unknown L env name)
    (hnodup : (s.linker.unknownNames ++ names).Nodup)
    (hroom : (s.linker.unknownNames ++ names).length ≤ poolCapacity) :
    let s' := run (PoolRun.step L env) s (names.map dlsymCall)
    s'.Inv L ∧ s'.linker.unknownNames = s.linker.unknownNames ++ names := by
  induction names generalizing s with
  | nil => exact ⟨h, (append_nil _).symm⟩
  | cons name names ih =>
    have hstep : (s.step L env (dlsymCall name)).linker.unknownNames =
        s.linker.unknownNames ++ [name] := by
      have heffect : PoolEffect L s.linker _ ((dlsymCall name).exec L env s.linker) :=
        PoolCall.exec_effect trivial
      rw [wanted_dlsymCall (hunknown name mem_cons_self)] at heffect
      have hfresh : name ∉ s.linker.unknownNames := by
        intro hin
        exact (nodup_append.mp hnodup).2.2 name hin name mem_cons_self rfl
      simp only [PoolRun.step]
      generalize (dlsymCall name).exec L env s.linker = answer at heffect
      cases heffect with
      | known hknown hsame =>
        have hslot := lookup_zipIdx_eq_some (h.slots ▸ hknown)
        exact absurd (mem_of_getElem? hslot) hfresh
      | full hnew hfull hsame =>
        rw [hL.full_iff h.room] at hfull
        simp only [length_append, length_cons] at hroom
        omega
      | fresh hnew hroom hsame =>
        rw [← hsame.names]
        rfl
    have hinv : (s.step L env (dlsymCall name)).Inv L := h.step hL trivial
    have hassoc : s.linker.unknownNames ++ name :: names =
        (s.step L env (dlsymCall name)).linker.unknownNames ++ names := by
      rw [hstep, append_assoc, singleton_append]
    rw [hassoc]
    rw [hassoc] at hnodup hroom
    exact ih hinv (forall_mem_cons.mp hunknown).2 hnodup hroom

/-- With a full pool two further names get one address. -/
theorem shared_of_full (hL : PoolLayout L) {name' : CStr}
    (hunknown : ∀ n ∈ name :: name' :: names, Unknown L env n) (hnodup : names.Nodup)
    (hlength : names.length = poolCapacity) (hnew : name ∉ names) (hnew' : name' ∉ names)
    (k : Linker) :
    let s := run (PoolRun.step L env) ⟨k.withoutStubs, []⟩ (names.map dlsymCall)
    ((dlsymCall name).exec L env s.linker).1 = ((dlsymCall name').exec L env s.linker).1 := by
  intro s
  have hstart : PoolRun.Inv L ⟨k.withoutStubs, []⟩ := by constructor <;> simp [withoutStubs]
  rw [forall_mem_cons, forall_mem_cons] at hunknown
  obtain ⟨hname, hname', hnames⟩ := hunknown
  obtain ⟨hinv, hall⟩ := run_dlsymCalls hL hstart hnames hnodup (le_of_eq hlength)
  have hfull : s.linker.PoolFull L := by
    rw [hL.full_iff hinv.room, hall]
    exact hlength
  have hout : ∀ n, n ∉ names → s.linker.unknownSlot.lookup n = none := by
    intro n hn
    cases hlookup : s.linker.unknownSlot.lookup n with
    | none => rfl
    | some slot =>
      have hslot := lookup_zipIdx_eq_some (hinv.slots ▸ hlookup)
      rw [hall] at hslot
      exact absurd (mem_of_getElem? hslot) hn
  rw [dlsymCall_full hname (hout name hnew) hfull, dlsymCall_full hname' (hout name' hnew') hfull]

/-- A name of `n + 1` times the letter a. -/
def nameOfAs (n : Nat) : CStr := List.replicate (n + 1) 97

theorem nameOfAs_injective : Function.Injective nameOfAs := by
  intro n n' h
  have hlength := congrArg length h
  simpa [nameOfAs] using hlength

theorem nameOfAs_unknown (L : Layout) (n : Nat) : Unknown L plainEnv (nameOfAs n) := by
  have hcons : nameOfAs n = 97 :: replicate n 97 := rfl
  constructor
  · have htails : ∀ t ∈ (nameOfAs n).tails,
        (cstr "AChoreographerFrameCallbackData_").isPrefixOf t = false := by
      intro t ht
      have hsuffix := (mem_tails ..).mp ht
      cases t with
      | nil => rfl
      | cons b t =>
        have hb : b = 97 := eq_of_mem_replicate (hsuffix.subset mem_cons_self)
        rw [hb]
        rfl
    have hname : nameOfAs n ≠ cstr "AChoreographer_postVsyncCallback" := by
      intro h
      have hhead : some 97 = (cstr "AChoreographer_postVsyncCallback").head? :=
        congrArg head? (hcons.symm.trans h)
      revert hhead
      decide +kernel
    simp only [isVsyncHelper, hname, decide_false, Bool.false_or, any_eq_false]
    intro t ht
    rw [htails t ht]
    decide
  · intro k
    refine ⟨rfl, ?_, rfl⟩
    rfl

/-- Two 32-bit imports share an address; and on A64, once 7152 names have a stub, `dlsym` gives one
address for two names. -/
theorem shared_addresses :
    ((PoolCall.mk [] (.bind (nameOfAs 0))).exec (defaultLayout false) plainEnv
        (plainLinker false)).1 =
      ((PoolCall.mk [] (.bind (nameOfAs 1))).exec (defaultLayout false) plainEnv
        (plainLinker false)).1 ∧
    let L := defaultLayout true
    let s := run (PoolRun.step L plainEnv) ⟨(plainLinker true).withoutStubs, []⟩
      (((range poolCapacity).map nameOfAs).map dlsymCall)
    ((dlsymCall (nameOfAs 7152)).exec L plainEnv s.linker).1 =
      ((dlsymCall (nameOfAs 7153)).exec L plainEnv s.linker).1 := by
  constructor
  · have hshared : ∀ n, ((PoolCall.mk [] (.bind (nameOfAs n))).exec (defaultLayout false) plainEnv
        (plainLinker false)).1 = tramp (defaultLayout false) svcUnknownCall := by
      intro n
      exact PoolCall.exec_bind32 rfl ((nameOfAs_unknown _ n).2 _)
    rw [hshared 0, hshared 1]
  have hout : ∀ n, poolCapacity ≤ n → nameOfAs n ∉ (range poolCapacity).map nameOfAs := by
    intro n hn hin
    obtain ⟨i, hi, heq⟩ := mem_map.mp hin
    have hlt := mem_range.mp hi
    rw [nameOfAs_injective heq] at hlt
    exact absurd hlt (not_lt.mpr hn)
  apply shared_of_full (poolLayout_init true 256 0 0)
  · intro n hn
    have has : ∃ i, n = nameOfAs i := by
      rcases mem_cons.mp hn with rfl | hn
      · exact ⟨_, rfl⟩
      · rcases mem_cons.mp hn with rfl | hn
        · exact ⟨_, rfl⟩
        · obtain ⟨i, -, rfl⟩ := mem_map.mp hn
          exact ⟨i, rfl⟩
    obtain ⟨i, rfl⟩ := has
    exact nameOfAs_unknown _ i
  · exact List.Nodup.map nameOfAs_injective nodup_range
  · rw [length_map, length_range]
  · exact hout _ le_rfl
  · exact hout _ (Nat.le_succ _)

/-- An import and two `dlsym` calls, one of them for the imported name. -/
def threeCalls : List PoolCall :=
  [⟨[], .bind (nameOfAs 0)⟩, dlsymCall (nameOfAs 1), dlsymCall (nameOfAs 0)]

/-- The three calls get stubs, the same ones for the same name. -/
theorem threeCalls_isolated :
    let s := run (PoolRun.step (guestLayoutInit true 256 0 0) plainEnv)
      ⟨(plainLinker true).withoutStubs, []⟩ threeCalls
    s.stubs.length = 3 ∧ ∀ p ∈ s.stubs, ∀ p' ∈ s.stubs, p.1 = p'.1 ↔ p.2 = p'.2 := by
  refine ⟨by decide +kernel, ?_⟩
  exact (stubPool_isolated true 256 0 0 plainEnv _ threeCalls
    ⟨(nameOfAs_unknown _ 0).2 _, trivial, trivial, trivial⟩).1

end Linker

end Lunaria.Elf
