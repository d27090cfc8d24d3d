/-
# Bindings are stable

A name that was bound once is bound to the same address ever after: the tables of the linker
only grow, and no entry changes. Binding a name stores nothing but stubs.
-/

import Lunaria.Elf.Load
import Lunaria.Lib.Handout
import Lunaria.Lib.Patch

namespace Lunaria.Elf.Linker

open Lib List ByteMemory

variable {L : Layout} {env : LinkEnv} {k k' k'' : Linker} {name : CStr}

/-! ## Tables that only grow -/

/-- The linker `k'` has all bindings of `k`. -/
structure Extends (L : Layout) (k k' : Linker) : Prop where
  loaded : k'.space.loaded = k.space.loaded
  exports : k'.exports = k.exports
  dataStart : k'.dataStart = k.dataStart
  slIids : ∀ name va, k.slIids.lookup name = some va → k'.slIids.lookup name = some va
  fromName : k.excFromName ≠ 0 → k'.excFromName = k.excFromName
  raise : k.excRaise ≠ 0 → k'.excRaise = k.excRaise
  cxaThrow : ∀ real stub, k.excCxaThrow.lookup real = some stub →
    k'.excCxaThrow.lookup real = some stub
  cxaCount : k.excCxaThrow.length ≤ k'.excCxaThrow.length
  mjiv : k.mjivStub ≠ 0 → k'.mjivStub = k.mjivStub
  slots : ∀ name slot, k.unknownSlot.lookup name = some slot →
    k'.unknownSlot.lookup name = some slot
  slotCount : k.unknownNames.length ≤ k'.unknownNames.length
  full : k.PoolFull L → k'.unknownSlot = k.unknownSlot ∧ k'.unknownNames = k.unknownNames

namespace Extends

theorem refl (L : Layout) (k : Linker) : Extends L k k where
  loaded := rfl
  exports := rfl
  dataStart := rfl
  slIids _ _ h := h
  fromName _ := rfl
  raise _ := rfl
  cxaThrow _ _ h := h
  cxaCount := le_rfl
  mjiv _ := rfl
  slots _ _ h := h
  slotCount := le_rfl
  full _ := ⟨rfl, rfl⟩

theorem trans (h : Extends L k k') (h' : Extends L k' k'') : Extends L k k'' where
  loaded := h'.loaded.trans h.loaded
  exports := h'.exports.trans h.exports
  dataStart := h'.dataStart.trans h.dataStart
  slIids name va hva := h'.slIids name va (h.slIids name va hva)
  fromName hne := by
    have hfirst := h.fromName hne
    rw [h'.fromName (hfirst ▸ hne), hfirst]
  raise hne := by
    have hfirst := h.raise hne
    rw [h'.raise (hfirst ▸ hne), hfirst]
  cxaThrow real stub hstub := h'.cxaThrow real stub (h.cxaThrow real stub hstub)
  cxaCount := h.cxaCount.trans h'.cxaCount
  mjiv hne := by
    have hfirst := h.mjiv hne
    rw [h'.mjiv (hfirst ▸ hne), hfirst]
  slots name slot hslot := h'.slots name slot (h.slots name slot hslot)
  slotCount := h.slotCount.trans h'.slotCount
  full hfull := by
    obtain ⟨hslots, hnames⟩ := h.full hfull
    have hfull' : k'.PoolFull L := by
      rw [PoolFull, hnames]
      exact hfull
    obtain ⟨hslots', hnames'⟩ := h'.full hfull'
    exact ⟨hslots'.trans hslots, hnames'.trans hnames⟩

theorem run {ρ : Type} {step : Linker → ρ → Linker} (h : ∀ k r, Extends L k (step k r))
    (k : Linker) (rs : List ρ) : Extends L k (Lib.run step k rs) := by
  induction rs generalizing k with
  | nil => exact .refl L k
  | cons r rs ih => exact (h k r).trans (ih _)

end Extends

theorem lookup_append_of_some {α β : Type} [BEq α] {l l' : List (α × β)} {a : α} {b : β}
    (h : l.lookup a = some b) : (l ++ l').lookup a = some b := by
  rw [lookup_append, h, Option.some_or]

/-! ## Where stubs are -/

/-- The address is in one of the ranges. -/
def InRanges (ranges : List Interval) (x : Nat) : Prop := ∃ r ∈ ranges, r.lo ≤ x ∧ x < r.hi
  deriving Decidable

/-- What a load may change at an address: the byte there, and whether it was written. -/
def observe (k : Linker) (x : Nat) : UInt8 × Prop := (k.mem x, InRanges k.writes x)

/-- A byte of a stub of the 32-bit loader, with `n` implementations of `__cxa_throw`. -/
def StubByte32 (L : Layout) (n x : Nat) : Prop :=
  InRanges (wordRanges excStubBase 3 ++ wordRanges (excStubBase + 0x40) 3 ++
    wordRanges mjivStubVa 32 ++
    [⟨L.libcData + 0x20, L.libcData + 0x24⟩, ⟨L.libcData + 0x28, L.libcData + 0x32⟩]) x ∨
  ∃ i < n, InRanges (wordRanges (cxaStubVa i) 3) x

/-- A byte of a stub of the 64-bit loader, with `n` unknown symbols. -/
def StubByte64 (L : Layout) (n x : Nat) : Prop :=
  ∃ i < n, InRanges (wordRanges (tramp L (svcTrampTotal + i)) 2) x

instance stubByte32Decidable (L : Layout) (n x : Nat) : Decidable (StubByte32 L n x) :=
  inferInstanceAs (Decidable (_ ∨ _))

instance stubByte64Decidable (L : Layout) (n x : Nat) : Decidable (StubByte64 L n x) :=
  inferInstanceAs (Decidable (∃ i < n, _))

variable {x addr : Nat}

theorem StubByte32.mono {n n' : Nat} (h : n ≤ n') (hx : StubByte32 L n x) : StubByte32 L n' x := by
  rcases hx with hfixed | ⟨i, hi, hin⟩
  · exact .inl hfixed
  · exact .inr ⟨i, hi.trans_le h, hin⟩

theorem StubByte64.mono {n n' : Nat} (h : n ≤ n') (hx : StubByte64 L n x) : StubByte64 L n' x := by
  obtain ⟨i, hi, hin⟩ := hx
  exact ⟨i, hi.trans_le h, hin⟩

/-- The linker as a growing state, with its stubs in some area. -/
def growing (L : Layout) (area : Linker → Nat → Prop)
    (harea : ∀ k k' x, Extends L k k' → area k x → area k' x) : Growing Linker (UInt8 × Prop) where
  le := Extends L
  seen := observe
  area := area
  le_refl := .refl L
  le_trans _ _ _ := .trans
  area_mono := harea

def growing32 (L : Layout) : Growing Linker (UInt8 × Prop) :=
  growing L (fun k => StubByte32 L k.excCxaThrow.length) fun _ _ _ h => .mono h.cxaCount

def growing64 (L : Layout) : Growing Linker (UInt8 × Prop) :=
  growing L (fun k => StubByte64 L k.unknownNames.length) fun _ _ _ h => .mono h.slotCount

/-! ## Fixed addresses -/

section Fixed

variable {area : Linker → Nat → Prop} {harea : ∀ k k' x, Extends L k k' → area k x → area k' x}

theorem slIid_handout (name : CStr) : Handout (growing L area harea) (·.slIid name) where
  grows k := by
    simp only [slIid]
    split
    · exact .refl L k
    · exact { Extends.refl L k with slIids := fun _ _ h => lookup_append_of_some h }
  stable k k' h := by
    cases hk : k.slIids.lookup name with
    | some va =>
      simp only [slIid, hk] at h ⊢
      rw [h.slIids name va hk]
    | none =>
      simp only [slIid, hk] at h ⊢
      have hnew : k'.slIids.lookup name = some k.slNext := by
        apply h.slIids
        simp [lookup_append, hk]
      rw [hnew]
  frame k x _ := by
    simp only [slIid]
    split <;> rfl

theorem lookupSymbolDirectVa_handout (env : LinkEnv) (name : CStr) :
    Handout (growing L area harea) (lookupSymbolDirectVa L env · name) := by
  -- The table depends on the start of the data segment only.
  refine .select (fun k => (directTable L env k.dataStart).lookup name)
    (fun k k' h => by rw [h.dataStart]) fun found => ?_
  cases found with
  | some va => exact ⟨_, .pure va, fun k hk => by rw [lookupSymbolDirectVa, hk]⟩
  | none =>
    by_cases hmedia : (cstr "AMEDIAFORMAT_KEY_").isPrefixOf name
    · exact ⟨_, .pure L.noopRet0, fun k hk => by simp [lookupSymbolDirectVa, hk, hmedia]⟩
    by_cases hsl : (cstr "SL_IID_").isPrefixOf name
    · exact ⟨_, slIid_handout name, fun k hk => by simp [lookupSymbolDirectVa, hk, hmedia, hsl]⟩
    · exact ⟨_, .pure 0, fun k hk => by simp [lookupSymbolDirectVa, hk, hmedia, hsl]⟩

theorem lookupSymbolDirectVa_eq (L : Layout) (env : LinkEnv) (k : Linker) (name : CStr) :
    ∃ va slIids slNext, lookupSymbolDirectVa L env k name =
      (va, { k with slIids, slNext }) := by
  rw [lookupSymbolDirectVa]
  split
  · exact ⟨_, k.slIids, k.slNext, rfl⟩
  split
  · exact ⟨_, k.slIids, k.slNext, rfl⟩
  split
  · rw [slIid]
    split
    · exact ⟨_, k.slIids, k.slNext, rfl⟩
    · exact ⟨_, _, _, rfl⟩
  · exact ⟨_, k.slIids, k.slNext, rfl⟩

end Fixed

/-! ## Stubs -/

theorem storeWords_frame {m : ByteMemory} {words : List Nat}
    (h : ¬ InRanges (wordRanges addr words.length) x) : storeWords m addr words x = m x := by
  have hwords : ∀ p ∈ words.zipIdx,
      x ∉ (⟨u32 (addr + p.2 * 4), u32 (addr + p.2 * 4) + 4⟩ : Interval).addresses := by
    intro p hp hin
    apply h
    exact ⟨_, mem_map.mpr ⟨p.2, mem_range.mpr (snd_lt_of_mem_zipIdx hp), rfl⟩, hin⟩
  rw [storeWords]
  generalize words.zipIdx = cells at hwords
  induction cells generalizing m with
  | nil => rfl
  | cons p cells ih =>
    have hhead := hwords p mem_cons_self
    rw [Interval.mem_addresses, not_and_or, not_le, not_lt] at hhead
    rw [foldl_cons, ih (forall_mem_cons.mp hwords).2]
    exact write32_agreeOutside _ _ _ x hhead

theorem observe_of_store (ranges : List Interval)
    (hwrites : k'.writes = ranges ++ k.writes) (hmem : k'.mem x = k.mem x)
    (hx : ¬ InRanges ranges x) : k'.observe x = k.observe x := by
  have hlog : InRanges k'.writes x ↔ InRanges k.writes x := by
    rw [hwrites]
    constructor
    · rintro ⟨r, hr, hin⟩
      rcases mem_append.mp hr with hnew | hold
      · exact absurd ⟨r, hnew, hin⟩ hx
      · exact ⟨r, hold, hin⟩
    · rintro ⟨r, hr, hin⟩
      exact ⟨r, mem_append_right _ hr, hin⟩
  exact Prod.ext hmem (propext hlog)

theorem not_inRanges_singleton {lo hi : Nat} (h : x < lo ∨ hi ≤ x) : ¬ InRanges [⟨lo, hi⟩] x := by
  rintro ⟨r, hr, hin⟩
  cases mem_singleton.mp hr
  rcases h with hlo | hhi
  · exact absurd hin.1 (not_le.mpr hlo)
  · exact absurd hin.2 (not_lt.mpr hhi)

theorem pokeLE_frame {width v : Nat} (h : x < addr ∨ addr + width ≤ x) :
    (k.pokeLE addr width v).observe x = k.observe x := by
  apply observe_of_store [⟨addr, addr + width⟩] rfl
  · exact writeLE_agreeOutside _ _ _ _ x h
  · exact not_inRanges_singleton h

theorem pokeLE_extends (L : Layout) (k : Linker) (addr width v : Nat) :
    Extends L k (k.pokeLE addr width v) :=
  { Extends.refl L k with }

theorem poke_frame {bytes : List UInt8} (h : x < addr ∨ addr + bytes.length ≤ x) :
    (k.poke addr bytes).observe x = k.observe x := by
  apply observe_of_store [⟨addr, addr + bytes.length⟩] rfl
  · exact writeBytes_agreeOutside _ _ _ x h
  · exact not_inRanges_singleton h

theorem pokeLE_read (k : Linker) (addr width v : Nat) :
    (k.pokeLE addr width v).mem.readLE addr width = v % 256 ^ width :=
  readLE_writeLE _ addr width v

theorem writeWords_frame {words : List Nat} (h : ¬ InRanges (wordRanges addr words.length) x) :
    (k.writeWords addr words).observe x = k.observe x := by
  apply observe_of_store _ rfl
  · exact storeWords_frame h
  · rintro ⟨r, hr, hin⟩
    exact h ⟨r, mem_reverse.mp hr, hin⟩

section

variable (L : Layout) (real : Nat)

theorem cxaThrowStub_handout : Handout (growing32 L) (·.cxaThrowStub real) where
  grows k := by
    simp only [cxaThrowStub]
    split
    · exact .refl L k
    · exact { Extends.refl L k with
        cxaThrow := fun _ _ h => lookup_append_of_some h
        cxaCount := by simp }
  stable k k' h := by
    cases hk : k.excCxaThrow.lookup real with
    | some stub =>
      simp only [cxaThrowStub, hk] at h ⊢
      rw [h.cxaThrow real stub hk]
    | none =>
      simp only [cxaThrowStub, hk] at h ⊢
      have hnew := h.cxaThrow real (cxaStubVa k.excCxaThrow.length) (by simp [lookup_append, hk])
      rw [hnew]
  frame k x hx := by
    simp only [cxaThrowStub] at hx ⊢
    split
    · rfl
    rename_i hk
    simp only [hk] at hx
    apply writeWords_frame
    intro hin
    apply hx
    exact .inr ⟨k.excCxaThrow.length, by simp, hin⟩

theorem excFromNameStub_handout : Handout (growing32 L) (·.excFromNameStub real) := by
  apply Handout.once excFromName excStubBase fun k =>
    { k.buildExcLoggerStub excStubBase svcExcFromName real with excFromName := excStubBase }
  · decide
  · exact fun _ _ h => h.fromName
  · exact fun _ => rfl
  · intro k hzero
    exact { Extends.refl L k with fromName := fun hne => absurd hzero hne }
  · intro k x hx
    apply writeWords_frame
    rintro ⟨r, hr, hin⟩
    exact hx (.inl ⟨r, by simp only [mem_append]; tauto, hin⟩)

theorem excRaiseStub_handout : Handout (growing32 L) (·.excRaiseStub real) := by
  apply Handout.once excRaise _ fun k =>
    { k.buildExcLoggerStub _ svcExcRaise real with
      excRaise := excStubBase + 0x40 }
  · decide
  · exact fun _ _ h => h.raise
  · exact fun _ => rfl
  · intro k hzero
    exact { Extends.refl L k with raise := fun hne => absurd hzero hne }
  · intro k x hx
    apply writeWords_frame
    rintro ⟨r, hr, hin⟩
    exact hx (.inl ⟨r, by simp only [mem_append]; tauto, hin⟩)

theorem mjivCode_length_le (domainGet : Nat) : (mjivCode L real domainGet).length ≤ 32 := by
  simp only [mjivCode]
  split <;> simp

theorem buildMjivStub_handout (domainGet : Nat) :
    Handout (growing32 L) (buildMjivStub L · real domainGet) := by
  apply Handout.once mjivStub mjivStubVa fun k =>
    { ((k.poke ..).writeWords mjivStubVa
        (mjivCode L real domainGet)).write32 _ 0 with mjivStub := mjivStubVa }
  · decide
  · exact fun _ _ h => h.mjiv
  · exact fun _ => rfl
  · intro k hzero
    exact { Extends.refl L k with mjiv := fun hne => absurd hzero hne }
  intro k x hx
  have hclear : ∀ r ∈ wordRanges mjivStubVa 32 ++ [⟨L.libcData + 0x20, L.libcData + 0x24⟩,
      ⟨L.libcData + 0x28, L.libcData + 0x32⟩], x ∉ r.addresses := by
    intro r hr hin
    exact hx (.inl ⟨r, by simp only [mem_append] at hr ⊢; tauto, hin⟩)
  have hcache := hclear ⟨L.libcData + 0x20, L.libcData + 0x24⟩ (by simp)
  have hversion := hclear ⟨L.libcData + 0x28, L.libcData + 0x32⟩ (by simp)
  rw [Interval.mem_addresses, not_and_or, not_le, not_lt] at hcache hversion
  have hcode : ¬ InRanges (wordRanges mjivStubVa (mjivCode L real domainGet).length) x := by
    rintro ⟨r, hr, hin⟩
    refine hclear r (mem_append_left _ ?_) hin
    exact map_subset _ (range_subset.mpr (mjivCode_length_le L real domainGet)) hr
  calc
    _ = ((k.poke (L.libcData + 0x28) (cstr "v1.1.4322" ++ [0])).writeWords mjivStubVa
          (mjivCode L real domainGet)).observe x := pokeLE_frame hcache
    _ = (k.poke (L.libcData + 0x28) (cstr "v1.1.4322" ++ [0])).observe x := writeWords_frame hcode
    _ = k.observe x := poke_frame hversion

end

section UnknownStub

variable (hnew : k.unknownSlot.lookup name = none)

theorem unknownStub_known {slot : Nat} (h : k.unknownSlot.lookup name = some slot) :
    unknownStub L k name = (some slot, k) := by
  rw [unknownStub, h]

include hnew

theorem unknownStub_full (hfull : k.PoolFull L) : unknownStub L k name = (none, k) := by
  rw [unknownStub, hnew]
  exact if_pos hfull

theorem unknownStub_new (hroom : ¬ k.PoolFull L) :
    unknownStub L k name = (some k.unknownNames.length, addStub L k name) := by
  rw [unknownStub, hnew]
  exact if_neg hroom

theorem addStub_lookup (L : Layout) :
    (addStub L k name).unknownSlot.lookup name = some k.unknownNames.length := by
  simp [addStub, writeWords, lookup_append, hnew]

end UnknownStub

theorem addStub_length (L : Layout) (k : Linker) (name : CStr) :
    (addStub L k name).unknownNames.length = k.unknownNames.length + 1 := by
  simp [addStub, writeWords]

theorem unknownWords_length (L : Layout) : (unknownWords L).length = 2 := by
  rw [unknownWords]
  split <;> rfl

theorem addStub_extends (hroom : ¬ k.PoolFull L) : Extends L k (addStub L k name) :=
  { Extends.refl L k with
    slots := fun _ _ h => lookup_append_of_some h
    slotCount := by
      rw [addStub_length]
      exact Nat.le_succ _
    full := fun hfull => absurd hfull hroom }

theorem addStub_frame
    (hx : ¬ InRanges (wordRanges (tramp L (svcTrampTotal + k.unknownNames.length)) 2) x) :
    (addStub L k name).observe x = k.observe x := by
  rw [← unknownWords_length L] at hx
  exact writeWords_frame hx

theorem unknownStub_handout (L : Layout) (name : CStr) :
    Handout (growing64 L) (unknownStub L · name) where
  grows k := by
    cases hk : k.unknownSlot.lookup name with
    | some slot =>
      rw [unknownStub_known hk]
      exact .refl L k
    | none =>
      by_cases hfull : k.PoolFull L
      · rw [unknownStub_full hk hfull]
        exact .refl L k
      · rw [unknownStub_new hk hfull]
        exact addStub_extends hfull
  stable k k' h := by
    cases hk : k.unknownSlot.lookup name with
    | some slot =>
      rw [unknownStub_known hk] at h ⊢
      rw [unknownStub_known (h.slots name slot hk)]
    | none =>
      by_cases hfull : k.PoolFull L
      · -- A full pool stays as it is, so the name has no slot later either.
        rw [unknownStub_full hk hfull] at h ⊢
        obtain ⟨hslots, hnames⟩ := h.full hfull
        have hfull' : k'.PoolFull L := by
          rw [PoolFull, hnames]
          exact hfull
        rw [unknownStub_full (hslots ▸ hk) hfull']
      · rw [unknownStub_new hk hfull] at h ⊢
        rw [unknownStub_known (h.slots name _ (addStub_lookup hk L))]
  frame k x hx := by
    cases hk : k.unknownSlot.lookup name with
    | some slot => rw [unknownStub_known hk]
    | none =>
      by_cases hfull : k.PoolFull L
      · rw [unknownStub_full hk hfull]
      · rw [unknownStub_new hk hfull] at hx ⊢
        apply addStub_frame
        intro hin
        exact hx ⟨k.unknownNames.length, by rw [addStub_length]; exact Nat.lt_succ_self _, hin⟩

/-! ## Imports -/

theorem unknownTramp_handout (L : Layout) (slot : Option Nat) :
    Handout (growing64 L) fun k : Linker =>
      match (slot, k) with
      | (some slot, k) => (a64GuestVa (tramp L (svcTrampTotal + slot)), k)
      | (none, k) => (a64GuestVa (tramp L svcRet0), k) := by
  cases slot with
  | some _ | none => exact .pure _

section

variable (L : Layout) (env : LinkEnv) (name : CStr)

theorem importFallback32_handout (va : Nat) : Handout (growing32 L) fun k : Linker =>
      match (va, k) with
      | (0, k) => (tramp L ((env.svc name).getD svcUnknownCall), k)
      | (va, k) => (va, k) := by
  cases va with
  | zero | succ _ => exact .pure _

/-- Binding an import of a 32-bit library: an export, behind a stub if it is one of the wrapped
functions, or a symbol of the runtime. -/
theorem resolveImport32_handout : Handout (growing32 L) (resolveImport32 L env · name) := by
  refine .select (·.exports) (fun k k' h => h.exports) fun exports => ?_
  cases hfound : exports.lookup name with
  | some va =>
    by_cases hfrom : env.traceExc ∧ name = cstr "mono_exception_from_name_msg"
    · refine ⟨_, excFromNameStub_handout L va, fun k hk => ?_⟩
      simp [resolveImport32, hk, hfound, if_pos hfrom]
    by_cases hraise : env.traceExc ∧ name = cstr "mono_raise_exception"
    · refine ⟨_, excRaiseStub_handout L va, fun k hk => ?_⟩
      simp [resolveImport32, hk, hfound, if_neg hfrom, if_pos hraise]
    by_cases hthrow : name = cstr "__cxa_throw"
    · refine ⟨_, cxaThrowStub_handout L va, fun k hk => ?_⟩
      simp [resolveImport32, hk, hfound, if_neg hfrom, if_neg hraise, if_pos hthrow]
    by_cases hmjiv : name = cstr "mono_jit_init_version" ∧ env.mjivWrap
    · refine ⟨_, buildMjivStub_handout L va ((exports.lookup (cstr "mono_domain_get")).getD 0),
        fun k hk => ?_⟩
      simp [resolveImport32, hk, hfound, if_neg hfrom, if_neg hraise, if_neg hthrow, if_pos hmjiv]
    · refine ⟨_, .pure va, fun k hk => ?_⟩
      simp [resolveImport32, hk, hfound, if_neg hfrom, if_neg hraise, if_neg hthrow, if_neg hmjiv]
  | none =>
    refine ⟨_, (lookupSymbolDirectVa_handout env name).bind _ (importFallback32_handout L env name),
      fun k hk => ?_⟩
    rw [← hk] at hfound
    unfold resolveImport32
    generalize k.exports.lookup name = found at hfound
    subst hfound
    rfl

/-- What was not found by its name calls a handler, or a stub of its own if there is none. -/
theorem importFallback64_handout (va : Nat) : Handout (growing64 L) fun k : Linker =>
      match (va, k) with
      | (0, k) =>
        match env.svc name with
        | some n => (a64GuestVa (tramp L n), k)
        | none =>
          match unknownStub L k name with
          | (some slot, k) => (a64GuestVa (tramp L (svcTrampTotal + slot)), k)
          | (none, k) => (a64GuestVa (tramp L svcRet0), k)
      | (va, k) => (a64GuestVa va, k) := by
  cases va with
  | succ va => exact .pure _
  | zero =>
    cases env.svc name with
    | some n => exact .pure _
    | none => exact (unknownStub_handout L name).bind _ (unknownTramp_handout L)

theorem resolveImport64_handout : Handout (growing64 L) (resolveImport64 L env · name) := by
  refine .select (·.exports.lookup name) (fun k k' h => by rw [h.exports]) fun found => ?_
  cases found with
  | some va => exact ⟨_, .pure va, fun k hk => by rw [resolveImport64, hk]⟩
  | none =>
    refine ⟨_, (lookupSymbolDirectVa_handout env name).bind _ (importFallback64_handout L env name),
      fun k hk => ?_⟩
    unfold resolveImport64
    generalize k.exports.lookup name = found at hk
    subst hk
    rfl

end

end Lunaria.Elf.Linker
