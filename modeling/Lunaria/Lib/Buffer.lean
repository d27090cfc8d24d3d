/-
# Reading a byte buffer

A buffer is a list of bytes. Records of a fixed size, tables of them, scans up to a last record
and zero-terminated strings are read at offsets that come from anywhere, so every read says
whether it stays inside the buffer. What each read needs is stated as a fact about offsets.
-/

import Lunaria.Lib.ByteMemory

namespace Lunaria.Lib.Buffer

open List Option

variable (buf : List UInt8)

/-- The bytes of a buffer as a store that is zero outside of it. -/
def view : ByteMemory := fun i => buf.getD i 0

/-- The low `width` bytes of a number, least significant first. -/
def leBytes (width v : Nat) : List UInt8 :=
  (List.range width).map fun i => UInt8.ofNat (v / 256 ^ i)

/-- The bytes `[off, off + n)`, if they lie inside the buffer. -/
def slice? (off n : Nat) : Option (List UInt8) :=
  if off + n ≤ buf.length then some ((buf.drop off).take n) else none

/-- The zero-terminated string at `off`, without its terminator. -/
def cstring? (off : Nat) : Option (List UInt8) :=
  if (0 : UInt8) ∈ buf.drop off then some ((buf.drop off).takeWhile (· ≠ 0)) else none

section Records

variable {α : Type}

/-- The record of `size` bytes at `off`. -/
def record? (buf : List UInt8) (off size : Nat) (decode : ByteMemory → Nat → α) : Option α :=
  if off + size ≤ buf.length then some (decode (view buf) off) else none

/-- A table of records. -/
def table? (buf : List UInt8) (off size count : Nat) (decode : ByteMemory → Nat → α) :
    Option (List α) :=
  (List.range count).mapM fun i => record? buf (off + i * size) size decode

/-- The records a table would hold, whether or not it lies inside the buffer. -/
def rows (buf : List UInt8) (off size count : Nat) (decode : ByteMemory → Nat → α) : List α :=
  (List.range count).map fun i => decode (view buf) (off + i * size)

/-- The records from `off` on in front of the first one that is the last. -/
def scan? (buf : List UInt8) (size : Nat) (decode : ByteMemory → Nat → α) (last : α → Bool) :
    Nat → Nat → Option (List α)
  | 0, _ => none
  | fuel + 1, off => do
      let record ← record? buf off size decode
      if last record then some []
      else (record :: ·) <$> scan? buf size decode last fuel (off + size)

end Records

/-! ## What a read needs -/

/-- There is a zero byte at or behind `off`. -/
def Terminated (off : Nat) : Prop := (0 : UInt8) ∈ buf.drop off
  deriving Decidable

/-- A table of `count` records of some size lies inside the buffer. -/
def HoldsTable (off size count : Nat) : Prop :=
  count = 0 ∨ off + count * size ≤ buf.length

instance holdsTableDecidable (buf : List UInt8) (off size count : Nat) :
    Decidable (HoldsTable buf off size count) :=
  inferInstanceAs (Decidable (_ ∨ _))

theorem HoldsTable.row {buf : List UInt8} {off size count i : Nat}
    (h : HoldsTable buf off size count) (hi : i < count) : off + i * size + size ≤ buf.length := by
  rcases h with hzero | hend
  · exact absurd hi (by simp [hzero])
  · have hle : (i + 1) * size ≤ count * size := Nat.mul_le_mul_right _ hi
    rw [Nat.succ_mul] at hle
    omega

/-- One read after another. -/
theorem bind_isSome {α β : Type} {first : Option α} {next : α → Option β}
    (hfirst : first.isSome) (hnext : ∀ a, (next a).isSome) : (first >>= next).isSome := by
  obtain ⟨a, rfl⟩ := isSome_iff_exists.mp hfirst
  exact hnext a

theorem mapM_isSome_iff {α β : Type} (f : α → Option β) (l : List α) :
    (l.mapM f).isSome ↔ ∀ a ∈ l, (f a).isSome := by
  induction l with
  | nil => simp
  | cons a l ih =>
    rw [mapM_cons, forall_mem_cons, ← ih]
    cases f a with
    | none => simp
    | some b => cases l.mapM f <;> simp

theorem mapM_eq_map {α β : Type} {f : α → Option β} {g : α → β} {l : List α}
    (h : ∀ a ∈ l, f a = some (g a)) : l.mapM f = some (l.map g) := by
  induction l with
  | nil => rfl
  | cons a l ih =>
    rw [mapM_cons, h a mem_cons_self, ih (forall_mem_cons.mp h).2]
    rfl

section Records

variable {α : Type} (buf : List UInt8) (off size : Nat) (decode : ByteMemory → Nat → α)

theorem slice?_isSome {n : Nat} (h : off + n ≤ buf.length) : (slice? buf off n).isSome := by
  rw [slice?, if_pos h]
  rfl

theorem cstring?_isSome (h : Terminated buf off) : (cstring? buf off).isSome := by
  rw [Terminated] at h
  rw [cstring?, if_pos h]
  rfl

theorem record?_eq_some (h : off + size ≤ buf.length) :
    record? buf off size decode = some (decode (view buf) off) := if_pos h

/-- A table that ends inside the buffer can be read. -/
theorem table?_eq_some {count : Nat} (h : HoldsTable buf off size count) :
    table? buf off size count decode = some (rows buf off size count decode) := by
  apply mapM_eq_map
  intro i hi
  exact record?_eq_some buf _ size decode (h.row (mem_range.mp hi))

/-- A scan with enough fuel ends if some record inside the buffer is the last. -/
theorem scan?_isSome (last : α → Bool) {n fuel : Nat} (hfuel : n < fuel)
    (hin : off + (n + 1) * size ≤ buf.length) (hlast : last (decode (view buf) (off + n * size))) :
    (scan? buf size decode last fuel off).isSome := by
  induction n generalizing off fuel with
  | zero =>
    obtain ⟨fuel, rfl⟩ := Nat.exists_eq_add_of_lt hfuel
    rw [zero_mul, add_zero] at hlast
    rw [scan?, record?_eq_some buf off size decode (by omega)]
    simp [hlast]
  | succ n ih =>
    obtain ⟨fuel, rfl⟩ : ∃ f, fuel = f + 1 := ⟨fuel - 1, by omega⟩
    have hsize : (n + 1 + 1) * size = size + (n + 1) * size := by ring
    have hnext : off + (n + 1) * size = off + size + n * size := by ring
    rw [scan?, record?_eq_some buf off size decode (by omega)]
    simp only [bind_eq_bind, bind_some]
    split
    · rfl
    have hrest := ih _ (Nat.lt_of_succ_lt_succ hfuel) (by omega) (hnext ▸ hlast)
    rw [isSome_iff_exists] at hrest
    obtain ⟨records, hrecords⟩ := hrest
    rw [hrecords]
    rfl

end Records

/-! ## Bytes at an offset -/

/-- The bytes stand in the buffer at `off`. -/
def Stands (off : Nat) (bytes : List UInt8) : Prop := bytes <+: buf.drop off

theorem leBytes_length (width v : Nat) : (leBytes width v).length = width := by
  rw [leBytes, length_map, length_range]

namespace Stands

variable {buf bytes bytes' : List UInt8} {off : Nat}

theorem left (h : Stands buf off (bytes ++ bytes')) : Stands buf off bytes :=
  (prefix_append bytes bytes').trans h

theorem right (h : Stands buf off (bytes ++ bytes')) : Stands buf (off + bytes.length) bytes' := by
  obtain ⟨rest, hrest⟩ := h
  rw [append_assoc] at hrest
  refine ⟨rest, ?_⟩
  rw [← drop_drop, ← hrest, drop_left]

theorem take (h : Stands buf off bytes) : (buf.drop off).take bytes.length = bytes :=
  (prefix_iff_eq_take.mp h).symm

/-- Part of a buffer stands where the buffer stands. -/
theorem within {off' : Nat} (h : Stands bytes off' bytes') (hin : Stands buf off bytes) :
    Stands buf (off + off') bytes' := by
  obtain ⟨rest, hrest⟩ := hin
  rw [Stands, ← drop_drop, ← hrest]
  by_cases hoff : off' ≤ bytes.length
  · rw [drop_append_of_le_length hoff]
    exact List.IsPrefix.trans h (prefix_append _ rest)
  · rw [Stands, drop_eq_nil_of_le (Nat.le_of_not_le hoff)] at h
    rw [prefix_nil.mp h]
    exact nil_prefix

theorem view_eq (h : Stands buf off bytes) {i : Nat} (hi : i < bytes.length) :
    view buf (off + i) = view bytes i := by
  obtain ⟨rest, hrest⟩ := h
  have hdrop : buf[off + i]? = bytes[i]? := by
    rw [← getElem?_drop, ← hrest, getElem?_append_left hi]
  rw [view, view, getD_eq_getElem?_getD, getD_eq_getElem?_getD, hdrop]

/-- Reading a number that stands in the buffer. -/
theorem readLE {width v : Nat} (h : Stands buf off (leBytes width v)) (hv : v < 256 ^ width) :
    (view buf).readLE off width = v := by
  have hbytes : ∀ x, off ≤ x → x < off + width →
      (ByteMemory.writeLE (view buf) off width v) x = view buf x := by
    intro x hlo hhi
    have hview := h.view_eq (i := x - off) (by rw [leBytes_length]; omega)
    rw [Nat.add_sub_cancel' hlo] at hview
    rw [ByteMemory.writeLE, hview, view, leBytes]
    simp [show x - off < width by omega]
  rw [← ByteMemory.readLE_congr hbytes, ByteMemory.readLE_writeLE, Nat.mod_eq_of_lt hv]

theorem append_right (pre bytes : List UInt8) : Stands (pre ++ bytes) pre.length bytes := by
  have hdrop : (pre ++ bytes).drop pre.length = bytes := drop_left
  exact ⟨[], by rw [append_nil, hdrop]⟩

/-- The fields of a record stand one behind the other. -/
theorem field {fields : List (List UInt8)} {i : Nat} {field : List UInt8}
    (h : fields[i]? = some field) (hoff : ((fields.map length).take i).sum = off) :
    Stands fields.flatten off field := by
  induction fields generalizing i off with
  | nil => simp at h
  | cons first fields ih =>
    cases i with
    | zero =>
      cases h
      subst hoff
      exact prefix_append ..
    | succ i =>
      subst hoff
      exact (ih h rfl).within (append_right first fields.flatten)

end Stands

/-- A number is determined by its bytes. -/
theorem leBytes_inj {width v w : Nat} (hv : v < 256 ^ width) (hw : w < 256 ^ width)
    (h : leBytes width v = leBytes width w) : v = w := by
  have hself : Stands (leBytes width v) 0 (leBytes width v) := prefix_refl _
  have hother : Stands (leBytes width v) 0 (leBytes width w) := h ▸ hself
  exact (hself.readLE hv).symm.trans (hother.readLE hw)

end Lunaria.Lib.Buffer
