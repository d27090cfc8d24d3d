/-
# Writing from several buffers

`SVC_WRITEV` makes one host `write` for each entry of the array and adds up what the writes
return, errors included. It reads entries of eight bytes, which only A32 has.
-/

import Lunaria.Space.AddressSpace

namespace Lunaria.Writev

open Lib List

/-- An entry with what the host does if it is written: it fails or takes some bytes. -/
structure Entry where
  base : Nat
  len : Nat
  accepts : Option Nat
  deriving DecidableEq

variable (L : Layout) (s : AddressSpace) (m : ByteMemory)

/-- The array as the guest lays it out. -/
def guestEntries (iov cnt : Nat) (host : Nat → Option Nat) : List Entry :=
  (List.range cnt).map fun i =>
    if L.isArm64 then
      ⟨a64CanonVa L s (m.readLE (u32 (iov + i * 16)) 8),
        m.readLE (u32 (iov + i * 16 + 8)) 8, host i⟩
    else ⟨m.read32 (u32 (iov + i * 8)), m.read32 (u32 (iov + i * 8 + 4)), host i⟩

/-- The array as the handler reads it. -/
def entries (iov cnt : Nat) (host : Nat → Option Nat) : List Entry :=
  (List.range cnt).map fun i =>
    ⟨m.read32 (u32 (iov + i * 8)), m.read32 (u32 (iov + i * 8 + 4)), host i⟩

def Entry.addresses (e : Entry) : List Nat := (List.range e.len).map (e.base + ·)

def Entry.bytes (e : Entry) : List UInt8 := m.bytesAt e.base e.len

/-- One turn of the loop: what was sent, and `total`. -/
def send (sent : List UInt8 × Int) (e : Entry) : List UInt8 × Int :=
  if e.base ≠ 0 ∧ e.len ≠ 0 then
    match e.accepts with
    | none => (sent.1, sent.2 - 1)
    | some k => (sent.1 ++ (e.bytes m).take k, sent.2 + min k e.len)
  else sent

/-- `SVC_WRITEV`: what is sent and the word returned. -/
def svcWritev (es : List Entry) : List UInt8 × Nat :=
  let out := es.foldl (send m) ([], 0)
  (out.1, (out.2 % 2 ^ 32).toNat)

/-- The host is called for the entry and fails. -/
def Entry.failed (e : Entry) : Bool := e.base ≠ 0 ∧ e.len ≠ 0 ∧ e.accepts = none

/-- How many bytes of the entry the host takes; none where it is not called. -/
def Entry.taken (e : Entry) : Nat :=
  if e.base ≠ 0 ∧ e.len ≠ 0 then min (e.accepts.getD 0) e.len else 0

/-- A word as the guest's `ssize_t`. -/
def ssize (word : Nat) : Int := if word < 2 ^ 31 then word else word - 2 ^ 32

/-- A prefix of the buffers is sent and its length returned, or minus one after an error in front of
the first byte. -/
def Writes (es : List Entry) (out : List UInt8 × Nat) : Prop :=
  out.1 <+: es.flatMap (Entry.bytes m) ∧
    ((out.1 = [] ∧ ∃ e ∈ es, e.failed) → ssize out.2 = -1) ∧
    (¬ (out.1 = [] ∧ ∃ e ∈ es, e.failed) → ssize out.2 = out.1.length)

/-- The writes take less than half the address space together and none of them fails; or one fails
and none takes a byte. -/
def Counted (es : List Entry) : Prop :=
  (es.map Entry.taken).sum < 2 ^ 31 ∧
    (es.countP Entry.failed = 0 ∨ es.countP Entry.failed = 1 ∧ (es.map Entry.taken).sum = 0)

/-- No byte is taken from behind a buffer that is not taken whole. -/
def InOrder : List Entry → Prop
  | [] => True
  | e :: es => if e.taken = e.len then InOrder es else ∀ e ∈ es, e.taken = 0

/-- The buffers lie apart from each other and from the array. -/
def Apart (iov cnt : Nat) (host : Nat → Option Nat) : Prop :=
  ((guestEntries L s m iov cnt host).flatMap Entry.addresses).Nodup ∧
    ∀ a ∈ (guestEntries L s m iov cnt host).flatMap Entry.addresses, ∀ w < 2 * cnt,
      a < u32 (iov + w * 4) ∨ u32 (iov + w * 4) + 4 ≤ a

variable {m}

/-! ## What is sent -/

/-- The addresses whose bytes the handler sends. -/
def sentFrom (es : List Entry) : List Nat := es.flatMap fun e => e.addresses.take e.taken

theorem Entry.bytes_eq (e : Entry) : e.bytes m = e.addresses.map m := by
  simp [Entry.bytes, Entry.addresses, ByteMemory.bytesAt, Function.comp_def]

theorem Entry.length_addresses (e : Entry) : e.addresses.length = e.len := by
  simp [Entry.addresses]

theorem Entry.taken_le (e : Entry) : e.taken ≤ e.len := by
  rw [Entry.taken]
  split <;> omega

theorem length_sentFrom (es : List Entry) : (sentFrom es).length = (es.map Entry.taken).sum := by
  simp [sentFrom, Entry.length_addresses, Entry.taken_le]

theorem send_eq (sent : List UInt8 × Int) (e : Entry) :
    send m sent e = (sent.1 ++ (e.addresses.take e.taken).map m,
      sent.2 + e.taken - if e.failed then 1 else 0) := by
  by_cases hcall : e.base ≠ 0 ∧ e.len ≠ 0
  · rw [send, if_pos hcall, Entry.taken, if_pos hcall, Entry.bytes_eq]
    cases haccepts : e.accepts with
    | none => simp [Entry.failed, hcall, haccepts]
    | some k =>
      have htake : e.addresses.take (min k e.len) = e.addresses.take k := by
        rw [← e.length_addresses, take_eq_take_iff, Nat.min_assoc, Nat.min_self]
      simp [Entry.failed, haccepts, htake]
  · have hfailed : e.failed = false := by
      simp only [Entry.failed, decide_eq_false_iff_not]
      exact fun h => hcall ⟨h.1, h.2.1⟩
    rw [send, if_neg hcall, Entry.taken, if_neg hcall]
    simp [hfailed]

theorem foldl_send (es : List Entry) (sent : List UInt8 × Int) :
    es.foldl (send m) sent = (sent.1 ++ (sentFrom es).map m,
      sent.2 + (es.map Entry.taken).sum - es.countP Entry.failed) := by
  induction es generalizing sent with
  | nil => simp [sentFrom]
  | cons e es ih =>
    rw [foldl_cons, ih, send_eq]
    by_cases hfailed : e.failed = true
    all_goals
      simp only [sentFrom, flatMap_cons, map_append, append_assoc, map_cons, sum_cons, countP_cons,
        hfailed, if_true, if_false, Prod.mk.injEq, true_and, Bool.false_eq_true]
      push_cast
      omega

theorem svcWritev_eq (es : List Entry) :
    svcWritev m es = ((sentFrom es).map m,
      (((es.map Entry.taken).sum - es.countP Entry.failed : Int) % 2 ^ 32).toNat) := by
  simp [svcWritev, foldl_send]

/-! ## The result and the order of the bytes -/

theorem writes_iff {es : List Entry} (hlength : es.length < 2 ^ 32) :
    Writes m es (svcWritev m es) ↔
      (sentFrom es).map m <+: (es.flatMap Entry.addresses).map m ∧ Counted es := by
  have hfails : es.countP Entry.failed ≤ es.length := countP_le_length
  have hbytes : es.flatMap (Entry.bytes m) = (es.flatMap Entry.addresses).map m := by
    rw [map_flatMap, funext Entry.bytes_eq]
  have hnil : (sentFrom es).map m = [] ↔ (es.map Entry.taken).sum = 0 := by
    rw [map_eq_nil_iff, ← length_eq_zero_iff, length_sentFrom]
  have hany : (∃ e ∈ es, e.failed) ↔ es.countP Entry.failed ≠ 0 := by
    rw [← Nat.pos_iff_ne_zero, countP_pos_iff]
  simp only [Writes, svcWritev_eq, hbytes, hnil, hany, length_map, length_sentFrom, Counted]
  refine and_congr_right fun _ => ?_
  generalize (es.map Entry.taken).sum = sent
  generalize es.countP Entry.failed = fails at hfails ⊢
  rw [ssize]
  split <;> omega

theorem sentFrom_eq_nil {es : List Entry} (h : ∀ e ∈ es, e.taken = 0) : sentFrom es = [] := by
  simp only [sentFrom, flatMap_eq_nil_iff]
  intro e he
  rw [h e he, take_zero]

theorem sentFrom_isPrefix {es : List Entry} (h : InOrder es) :
    sentFrom es <+: es.flatMap Entry.addresses := by
  induction es with
  | nil => exact nil_prefix
  | cons e es ih =>
    rw [InOrder] at h
    rw [sentFrom, flatMap_cons, flatMap_cons]
    split at h
    next hwhole =>
      rw [hwhole, take_of_length_le e.length_addresses.le, prefix_append_right_inj]
      exact ih h
    next =>
      have hrest : es.flatMap (fun e => e.addresses.take e.taken) = [] := sentFrom_eq_nil h
      rw [hrest, append_nil]
      exact IsPrefix.trans ( take_prefix _ _) (prefix_append _ _)

theorem sentFrom_subset (es : List Entry) : sentFrom es ⊆ es.flatMap Entry.addresses := by
  intro a ha
  obtain ⟨e, he, ha⟩ := mem_flatMap.mp ha
  exact mem_flatMap.mpr ⟨e, he, mem_of_mem_take ha⟩

/-- From buffers that lie apart, bytes are sent as a prefix only if they are taken in order. -/
theorem inOrder_of_prefix {es : List Entry} (hnodup : (es.flatMap Entry.addresses).Nodup)
    (h : sentFrom es <+: es.flatMap Entry.addresses) : InOrder es := by
  induction es with
  | nil => trivial
  | cons e es ih =>
    rw [flatMap_cons] at hnodup
    rw [sentFrom, flatMap_cons, flatMap_cons] at h
    rw [InOrder]
    split
    next hwhole =>
      rw [hwhole, take_of_length_le e.length_addresses.le, prefix_append_right_inj] at h
      exact ih (nodup_append.mp hnodup).2.1 h
    next hshort =>
      have hlt : e.taken < e.addresses.length := by
        have := e.taken_le
        rw [e.length_addresses]
        omega
      -- the next byte of this buffer would have to stand in a later one
      have hsplit := take_append_drop e.taken e.addresses
      nth_rewrite 2 [← hsplit] at h
      rw [append_assoc, prefix_append_right_inj, drop_eq_getElem_cons hlt] at h
      intro e' he'
      by_contra htaken
      cases hrest : es.flatMap (fun e => e.addresses.take e.taken) with
      | nil =>
        have hlen := congrArg List.length (flatMap_eq_nil_iff.mp hrest e' he')
        rw [length_take, e'.length_addresses, Nat.min_eq_left e'.taken_le] at hlen
        exact htaken hlen
      | cons a rest =>
        rw [hrest, cons_append, cons_prefix_cons] at h
        have hmem : a ∈ es.flatMap Entry.addresses := by
          apply sentFrom_subset es
          rw [sentFrom, hrest]
          exact mem_cons_self
        exact (nodup_append.mp hnodup).2.2 _ (getElem_mem hlt) a hmem h.1.symm

theorem entries_writeByte {iov cnt a : Nat} (h : ∀ w < 2 * cnt, a < u32 (iov + w * 4) ∨
    u32 (iov + w * 4) + 4 ≤ a) (v : UInt8) (host : Nat → Option Nat) :
    entries (m.writeByte a v) iov cnt host = entries m iov cnt host := by
  have hword : ∀ w < 2 * cnt,
      (m.writeByte a v).read32 (u32 (iov + w * 4)) = m.read32 (u32 (iov + w * 4)) := by
    intro w hw
    refine ByteMemory.readLE_congr fun x hlo hhi => if_neg ?_
    have := h w hw
    omega
  refine map_congr_left fun i hi => ?_
  rw [mem_range] at hi
  have hbase := hword (2 * i) (by omega)
  have hlen := hword (2 * i + 1) (by omega)
  rw [show iov + 2 * i * 4 = iov + i * 8 by omega] at hbase
  rw [show iov + (2 * i + 1) * 4 = iov + i * 8 + 4 by omega] at hlen
  rw [hbase, hlen]

/-- Bytes that are sent as a prefix whatever they are come from a prefix of the addresses. -/
theorem prefix_of_contents {sent all : List Nat} (hsub : sent ⊆ all)
    (h : ∀ a ∈ all, ∀ v, sent.map (m.writeByte a v) <+: all.map (m.writeByte a v)) :
    sent <+: all := by
  cases hsent : sent with
  | nil => exact nil_prefix
  | cons first _ =>
    rw [← hsent, prefix_iff_getElem]
    have hle : sent.length ≤ all.length := by
      have := (h first (hsub (by simp [hsent])) 0).length_le
      simpa using this
    refine ⟨hle, fun i hi => ?_⟩
    by_contra hne
    have hbyte := (prefix_iff_getElem.mp (h sent[i] (hsub (getElem_mem hi)) (m all[i] + 1))).2 i
      (by simpa using hi)
    simp only [getElem_map, ByteMemory.writeByte, if_true] at hbyte
    rw [if_neg (Ne.symm hne)] at hbyte
    exact absurd hbyte (by simp)

/-- Two entries, of three bytes and of two. -/
def twoEntries : ByteMemory :=
  ByteMemory.writeBytes (fun _ => 0) 4096 [0, 32, 0, 0, 3, 0, 0, 0, 16, 32, 0, 0, 2, 0, 0, 0]

theorem twoEntries_eq (host : Nat → Option Nat) :
    guestEntries (defaultLayout false) (.initial (defaultLayout false)) twoEntries 4096 2 host =
      [⟨8192, 3, host 0⟩, ⟨8208, 2, host 1⟩] := by
  rfl

theorem twoEntries_apart (host : Nat → Option Nat) :
    Apart (defaultLayout false) (.initial (defaultLayout false)) twoEntries 4096 2 host := by
  rw [Apart, twoEntries_eq]
  exact (by decide : ([8192, 8193, 8194, 8208, 8209] : List Nat).Nodup ∧
    ∀ a ∈ ([8192, 8193, 8194, 8208, 8209] : List Nat), ∀ w < 2 * 2,
      a < u32 (4096 + w * 4) ∨ u32 (4096 + w * 4) + 4 ≤ a)

end Lunaria.Writev
