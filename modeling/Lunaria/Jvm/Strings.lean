/-
# Strings between the guest and the pseudo-JVM

A guest makes a string from bytes or from UTF-16 units, and later asks for its bytes. On the way the
units pass a hand-written encoder and a C string, the contents an interning table that keeps the
empty string as a null pointer, and the answer a buffer of at most 4096 bytes in the guest heap.

The conversion from the handlers' pointers to the arena is the identity on 32 bits; both guests pass
arena offsets here.
-/

import Lunaria.Heap.Allocator
import Lunaria.Jvm.Interning
import Lunaria.Lib.ModifiedUtf8

namespace Lunaria.Jvm

open Lib List Option UInt16 ModifiedUtf8 ByteMemory

/-! ## The handlers -/

/-- `minimal UTF-16 (BMP) → UTF-8`: the bytes that the loop in `NewString` puts for a unit. -/
def utf8OfUnit (c : UInt16) : List UInt8 :=
  if c < 0x80 then [c.toUInt8]
  else if c < 0x800 then
    [((0xC0 : UInt16) ||| (c >>> 6)).toUInt8, ((0x80 : UInt16) ||| (c &&& 0x3F)).toUInt8]
  else
    [((0xE0 : UInt16) ||| (c >>> 12)).toUInt8, ((0x80 : UInt16) ||| ((c >>> 6) &&& 0x3F)).toUInt8,
      ((0x80 : UInt16) ||| (c &&& 0x3F)).toUInt8]

variable (mem : ByteMemory) (s : List UInt16)

/-- The unit that the loop reads in its `i`-th round. -/
def unitAt (va i : Nat) : UInt16 := UInt16.ofNat (mem.readLE (u32 (va + 2 * i)) 2)

/-- `utf8` in `NewString`. -/
def utf8OfUnits (va len : Nat) : List UInt8 :=
  if va ≠ 0 ∧ len ≤ 8192 then (List.range len).flatMap fun i => utf8OfUnit (unitAt mem va i) else []

/-- A C string in the arena, which ends 64 KiB behind 4 GiB. -/
def cstrAt (va : Nat) : List UInt8 :=
  mem.bytesAt va (mem.strnlen va (2 ^ 32 + 2 ^ 16 - va))

inductive StringCall
  | newString (va len : Nat)
  | newStringUtf (va : Nat)

/-- The text that `JNIEnv_NewStringUTF` is called with; a null pointer has none. -/
def StringCall.text : StringCall → List UInt8
  | .newString va len => (utf8OfUnits mem va len).takeWhile (· ≠ 0)
  | .newStringUtf va => if va = 0 then [] else cstrAt mem va

/-- `string.data` behind a handle, without the bytes of a null pointer. -/
def stringData (objects : Objects) (handle : Nat) : List UInt8 :=
  match getObject objects handle with
  | some ⟨_, .string text⟩ => text
  | _ => []

def strScratch (L : Layout) : Nat := if L.isArm64 then 0x0A013000 else 0x41013000

/-- `GetStringUTFChars`: the pointer that is returned. -/
def getStringUtfChars (L : Layout) (h : Heap) (objects : Objects) (handle : Nat) : Nat × Heap :=
  match stringData objects handle with
  | [] => (0, h)
  | b :: text =>
    let len := min (b :: text).length 4095
    let (addr, h') := armMalloc L h (len + 1)
    let p := if addr ≠ 0 then addr else strScratch L
    (p, { h' with mem := (h'.mem.writeBytes p ((b :: text).take len)).writeByte (p + len) 0 })

def getStringUtfLength (objects : Objects) (handle : Nat) : Nat :=
  u32 (stringData objects handle).length

/-! ## What a guest may expect -/

/-- The guest passes the string: its encoding with a zero byte behind it, or its units. -/
def StringCall.Passes : StringCall → Prop
  | .newString va len => va ≠ 0 ∧ len = s.length ∧ va + 2 * len ≤ 2 ^ 32 ∧
      ∀ i < len, mem.readLE (va + 2 * i) 2 = (s[i]?.getD 0).toNat
  | .newStringUtf va => va ≠ 0 ∧ va + (ModifiedUtf8.encode s).length < 2 ^ 32 ∧
      mem.bytesAt va ((ModifiedUtf8.encode s).length + 1) = ModifiedUtf8.encode s ++ [0]

/-- **The string comes back**: a pointer to its encoding with a zero byte behind it, and the length
of the encoding. -/
def RoundTrips (chars : Nat × Heap) (length : Nat) : Prop :=
  chars.1 ≠ 0 ∧
    chars.2.mem.bytesAt chars.1 ((ModifiedUtf8.encode s).length + 1) =
      ModifiedUtf8.encode s ++ [0] ∧
    length = (ModifiedUtf8.encode s).length

/-- Where the string is made of units, none of them is null. -/
def StringCall.Kept : StringCall → Prop
  | .newString _ _ => 0 ∉ s
  | .newStringUtf _ => True

/-- The strings that come back: not empty, with room in the buffer, and without null units where
made of units. -/
def StringCall.Serves (call : StringCall) : Prop :=
  s ≠ [] ∧ (ModifiedUtf8.encode s).length ≤ 4095 ∧ call.Kept s

/-! ## The encoder -/

theorem toUInt8_or_eq {k : Nat} (a b : Nat) (ha : 2 ^ k * a < 2 ^ 16) (hb : b < 2 ^ k) (c : UInt16)
    (hc : c.toNat = b) :
    (UInt16.ofNat (2 ^ k * a) ||| c).toUInt8 = UInt8.ofNat (2 ^ k * a + b) := by
  apply UInt8.toNat_inj.mp
  rw [toNat_toUInt8, UInt16.toNat_or, UInt8.toNat_ofNat', toNat_ofNat',
    Nat.mod_eq_of_lt ha, hc, Nat.two_pow_add_eq_or_of_lt hb]

/-- **The encoder is right** for every unit but the null unit. -/
theorem utf8OfUnit_eq_encodeUnit {c : UInt16} (hc : c ≠ 0) :
    utf8OfUnit c = ModifiedUtf8.encodeUnit c := by
  have hlt : c.toNat < 65536 := c.toNat_lt
  have hlow : (c &&& 0x3F).toNat = c.toNat % 64 := by exact Nat.and_two_pow_sub_one_eq_mod c.toNat 6
  have hmid : (c >>> 6).toNat = c.toNat / 64 := by exact Nat.shiftRight_eq_div_pow c.toNat 6
  have hhigh : (c >>> 12).toNat = c.toNat / 4096 := by exact Nat.shiftRight_eq_div_pow c.toNat 12
  have hmidlow : ((c >>> 6) &&& 0x3F).toNat = c.toNat / 64 % 64 := by
    rw [UInt16.toNat_and, hmid]
    exact Nat.and_two_pow_sub_one_eq_mod _ 6
  rw [utf8OfUnit, ModifiedUtf8.encodeUnit, if_neg hc]
  by_cases h1 : c.toNat < 0x80
  · rw [if_pos (lt_iff_toNat_lt.mpr h1), if_pos h1]
    rfl
  rw [if_neg fun h => h1 (lt_iff_toNat_lt.mp h), if_neg h1]
  have htail := toUInt8_or_eq (k := 6) 2 _ (by decide) (by omega) _ hlow
  by_cases h2 : c.toNat < 0x800
  · rw [if_pos (lt_iff_toNat_lt.mpr h2), if_pos h2]
    have hhead := toUInt8_or_eq (k := 6) 3 _ (by decide) (by omega) _ hmid
    exact congrArg₂ (fun a b => [a, b]) hhead htail
  · rw [if_neg fun h => h2 (lt_iff_toNat_lt.mp h), if_neg h2]
    have hhead := toUInt8_or_eq (k := 4) 14 _ (by decide) (by omega) _ hhigh
    have hmiddle := toUInt8_or_eq (k := 6) 2 _ (by decide) (by omega) _ hmidlow
    exact congrArg₂ cons hhead (congrArg₂ (fun a b => [a, b]) hmiddle htail)

/-! ## The text that is stored -/

theorem takeWhile_flatMap_utf8OfUnit :
    (s.flatMap utf8OfUnit).takeWhile (· ≠ 0) = ModifiedUtf8.encode (s.takeWhile (· ≠ 0)) := by
  induction s with
  | nil => rfl
  | cons c s ih =>
    rw [flatMap_cons]
    by_cases hc : c = 0
    · subst hc
      rfl
    · rw [utf8OfUnit_eq_encodeUnit hc, takeWhile_append_of_pos, ih,
        takeWhile_cons_of_pos (by simpa using hc), encode_cons]
      intro b hb
      simpa using ne_zero_of_mem_encodeUnit hb

theorem takeWhile_ne_zero {s : List UInt16} (h : 0 ∉ s) : s.takeWhile (· ≠ 0) = s := by
  rw [takeWhile_eq_self_iff]
  intro c hc
  have hne : c ≠ 0 := by
    rintro rfl
    exact h hc
  simpa using hne

section Text

variable {mem : ByteMemory} {s : List UInt16}

theorem text_newString {va len : Nat} (h : StringCall.Passes mem s (.newString va len)) :
    StringCall.text mem (.newString va len) =
      if s.length ≤ 8192 then ModifiedUtf8.encode (s.takeWhile (· ≠ 0)) else [] := by
  obtain ⟨hva, rfl, hfits, hunits⟩ := h
  have hread : (range s.length).map (unitAt mem va) = s := by
    apply ext_getElem (by simp)
    intro i hi _
    rw [length_map, length_range] at hi
    rw [getElem_map, getElem_range, unitAt, u32_of_lt (by omega), hunits i hi,
      getElem?_eq_getElem hi, getD_some, UInt16.ofNat_toNat]
  rw [StringCall.text, utf8OfUnits]
  by_cases hlen : s.length ≤ 8192
  · rw [if_pos ⟨hva, hlen⟩, if_pos hlen, ← takeWhile_flatMap_utf8OfUnit]
    conv_rhs => rw [← hread]
    rw [flatMap_map]
  · rw [if_neg fun hand => hlen hand.2, if_neg hlen]
    rfl

theorem text_newStringUtf {va : Nat} (h : StringCall.Passes mem s (.newStringUtf va)) :
    StringCall.text mem (.newStringUtf va) = ModifiedUtf8.encode s := by
  obtain ⟨hva, hfits, hbytes⟩ := h
  obtain ⟨-, hget⟩ := bytesAt_eq_iff.mp hbytes
  have hinside (i : Nat) (hi : i < (ModifiedUtf8.encode s).length) :
      (ModifiedUtf8.encode s)[i]? = some (mem (va + i)) := by
    rw [← hget i (by omega), getElem?_append_left hi]
  have hend : mem (va + (ModifiedUtf8.encode s).length) = 0 := by
    have hlast := hget (ModifiedUtf8.encode s).length (Nat.lt_succ_self _)
    rw [getElem?_concat_length] at hlast
    exact (some.inj hlast).symm
  rw [StringCall.text, if_neg hva, cstrAt, strnlen_eq]
  · exact bytesAt_eq_iff.mpr ⟨rfl, hinside⟩
  · intro i hi
    exact ne_zero_of_mem_encode (mem_of_getElem? (hinside i hi))
  · exact hend
  · omega

theorem text_of_serves {call : StringCall} (h : call.Passes mem s) (hserves : call.Serves s) :
    call.text mem = ModifiedUtf8.encode s := by
  obtain ⟨-, hlength, hkept⟩ := hserves
  cases call with
  | newStringUtf va => exact text_newStringUtf h
  | newString va len =>
    have hshort := length_le_length_encode s
    rw [text_newString h, if_pos (by omega), takeWhile_ne_zero hkept]

/-- A text that is not empty and as long as the encoding is the encoding, and then there was no null
unit. -/
theorem serves_of_text {call : StringCall} (h : call.Passes mem s) (hne : call.text mem ≠ [])
    (hlength : u32 (call.text mem).length = (ModifiedUtf8.encode s).length) :
    call.text mem = ModifiedUtf8.encode s ∧ call.Kept s := by
  cases call with
  | newStringUtf va => exact ⟨text_newStringUtf h, trivial⟩
  | newString va len =>
    have htext := text_newString h
    have hlen : s.length ≤ 8192 := by
      by_contra hlong
      rw [if_neg hlong] at htext
      exact hne htext
    rw [if_pos hlen] at htext
    have hkept : 0 ∉ s := by
      intro hzero
      have hlt := length_encode_takeWhile_lt hzero
      rw [← htext, ← hlength] at hlt
      exact absurd (Nat.mod_le ..) (not_le.mpr hlt)
    exact ⟨htext.trans (congrArg _ (takeWhile_ne_zero hkept)), hkept⟩

end Text

/-! ## The buffer that is returned -/

section Chars

variable {L : Layout} {h : Heap} {objects : Objects} {handle : Nat} {s : List UInt16}

/-- What `GetStringUTFChars` leaves behind its pointer: at most 4095 bytes, and a zero byte. -/
theorem getStringUtfChars_spec {text : List UInt8} (hdata : stringData objects handle = text)
    (hne : text ≠ []) : (getStringUtfChars L h objects handle).1 ≠ 0 ∧
      ∀ i ≤ min text.length 4095, (getStringUtfChars L h objects handle).2.mem
            ((getStringUtfChars L h objects handle).1 + i) =
          ((text.take (min text.length 4095))[i]?).getD 0 := by
  have hscratch : strScratch L ≠ 0 := by
    rw [strScratch]
    split <;> decide
  cases text with
  | nil => exact absurd rfl hne
  | cons b text =>
    simp only [getStringUtfChars, hdata]
    constructor
    · split
      · assumption
      · exact hscratch
    intro i hi
    by_cases hend : i = min (b :: text).length 4095
    · subst hend
      rw [ByteMemory.writeByte, if_pos rfl, getElem?_eq_none (by simp)]
      rfl
    have hin : i < ((b :: text).take (min (b :: text).length 4095)).length := by
      rw [length_take]
      omega
    rw [ByteMemory.writeByte, if_neg (by omega), ByteMemory.writeBytes,
      if_pos (Nat.le_add_right ..), Nat.add_sub_cancel_left, getElem?_eq_getElem hin]
    rfl

theorem getStringUtfChars_nil (hdata : stringData objects handle = []) :
    (getStringUtfChars L h objects handle).1 = 0 := by
  rw [getStringUtfChars, hdata]

/-- **An encoding comes back exactly when it fits the buffer.** -/
theorem roundTrips_iff_of_data (hdata : stringData objects handle = ModifiedUtf8.encode s)
    (hne : s ≠ []) :
    RoundTrips s (getStringUtfChars L h objects handle) (getStringUtfLength objects handle) ↔
      (ModifiedUtf8.encode s).length ≤ 4095 := by
  have hne' : ModifiedUtf8.encode s ≠ [] := fun hnil => hne (encode_eq_nil.mp hnil)
  obtain ⟨hpointer, hbytes⟩ := getStringUtfChars_spec (L := L) hdata hne'
  constructor
  · rintro ⟨-, hread, -⟩
    by_contra hlong
    -- the byte in place 4095 is the end of the buffer, and one of the string
    have hlt : 4095 < (ModifiedUtf8.encode s).length := not_le.mp hlong
    have hat := (bytesAt_eq_iff.mp hread).2 4095 (by omega)
    rw [hbytes 4095 (by omega), getElem?_append_left hlt, getElem?_eq_none (l := take ..)
      (by rw [length_take]; omega)] at hat
    exact ne_zero_of_mem_encode (mem_of_getElem? hat) rfl
  · intro hfits
    have hmin := min_eq_left hfits
    rw [hmin, take_length] at hbytes
    refine ⟨hpointer, bytesAt_eq_iff.mpr ⟨by simp, fun i hi => ?_⟩, ?_⟩
    · rw [hbytes i (by omega)]
      by_cases hend : i < (ModifiedUtf8.encode s).length
      · rw [getElem?_append_left hend, getElem?_eq_getElem hend]
        rfl
      · obtain rfl : i = (ModifiedUtf8.encode s).length := by omega
        rw [getElem?_concat_length, getElem?_eq_none le_rfl]
        rfl
    · rw [getStringUtfLength, hdata]
      exact u32_of_lt (by omega)

end Chars

/-! ## The way there and back -/

theorem stringData_of_bodyAt {objects : Objects} {handle : Nat} {text : List UInt8}
    (h : bodyAt objects handle = some (.string text)) : stringData objects handle = text := by
  obtain ⟨⟨k, body⟩, hget, hbody⟩ := map_eq_some_iff.mp h
  obtain rfl : body = .string text := hbody
  rw [stringData, hget]

/-- **Strings come back exactly when they are served**, whatever happens between the two calls. -/
theorem string_roundTrips_iff {dlsym : List UInt8 → Bool} {type : Nat → FieldType}
    {mem : ByteMemory} {s : List UInt16} {call : StringCall} (hpasses : call.Passes mem s)
    {g g₁ g₂ : Vm}
    (hmake : g.step dlsym type (.jni (.newString (call.text mem))) = some g₁)
    {later : List VmCall}
    (hlater : run (tryStep (Vm.step dlsym type)) (some g₁) later = some g₂)
    (L : Layout) (h : Heap) :
    RoundTrips s (getStringUtfChars L h g₂.objects (answer g.objects (.newString (call.text mem))))
        (getStringUtfLength g₂.objects (answer g.objects (.newString (call.text mem)))) ↔
      call.Serves s := by
  have hdata : stringData g₂.objects (answer g.objects (.newString (call.text mem))) =
      call.text mem := by
    obtain ⟨world, hstep, hg₁⟩ := bind_eq_some_iff.mp hmake
    cases hg₁
    obtain ⟨-, -, hdenotes⟩ := jni_carries hstep rfl
    exact stringData_of_bodyAt (Vm.bodyAt_run rfl (hdenotes _ rfl) hlater)
  constructor
  · intro htrips
    have hne : call.text mem ≠ [] := by
      intro hnil
      exact htrips.1 (getStringUtfChars_nil (hdata.trans hnil))
    have hlength := htrips.2.2
    rw [getStringUtfLength, hdata] at hlength
    obtain ⟨htext, hkept⟩ := serves_of_text hpasses hne hlength
    have hs : s ≠ [] := by
      rintro rfl
      exact hne htext
    exact ⟨hs, (roundTrips_iff_of_data (hdata.trans htext) hs).mp htrips, hkept⟩
  · intro hserves
    exact (roundTrips_iff_of_data (hdata.trans (text_of_serves hpasses hserves)) hserves.1).mpr
      hserves.2.1

/-- The units of `Aé€` at 4096. -/
def someUnits : ByteMemory := ByteMemory.writeBytes (fun _ => 0) 4096 [0x41, 0, 0xE9, 0, 0xAC, 0x20]

theorem someUnits_roundTrips :
    StringCall.Passes someUnits [0x41, 0xE9, 0x20AC] (.newString 4096 3) ∧
      StringCall.Serves [0x41, 0xE9, 0x20AC] (.newString 4096 3) ∧
      ∃ g₁ g₂, Vm.initial.step (fun _ => false) (fun _ => .object)
          (.jni (.newString (StringCall.text someUnits (.newString 4096 3)))) = some g₁ ∧
        run (tryStep (Vm.step (fun _ => false) fun _ => .object)) (some g₁)
          [.jni (.findClass (Elf.cstr "a/B"))] = some g₂ ∧
        ∀ L h, RoundTrips [0x41, 0xE9, 0x20AC] (getStringUtfChars L h g₂.objects
            (answer initialObjects (.newString (StringCall.text someUnits (.newString 4096 3)))))
          (getStringUtfLength g₂.objects
            (answer initialObjects
              (.newString (StringCall.text someUnits (.newString 4096 3))))) := by
  have hpasses : StringCall.Passes someUnits [0x41, 0xE9, 0x20AC] (.newString 4096 3) :=
    ⟨by decide, rfl, by decide, by decide +kernel⟩
  have hserves : StringCall.Serves [0x41, 0xE9, 0x20AC] (.newString 4096 3) :=
    ⟨by decide, by decide +kernel, fun h => absurd h (by decide)⟩
  have hsome : (run (tryStep (Vm.step (fun _ => false) fun _ => .object)) (some .initial)
      [.jni (.newString (StringCall.text someUnits (.newString 4096 3))),
        .jni (.findClass (Elf.cstr "a/B"))]).isSome := by decide +kernel
  obtain ⟨g₂, hrun⟩ := isSome_iff_exists.mp hsome
  obtain ⟨g₁, hmake, hlater⟩ := exists_step_of_run hrun
  exact ⟨hpasses, hserves, g₁, g₂, hmake, hlater, fun L h =>
    (string_roundTrips_iff hpasses hmake hlater L h).mpr hserves⟩

/-- The empty string comes back as a null pointer, and a null unit ends a string. -/
theorem not_roundTrips_empty : (StringCall.Passes (fun _ => 0) [] (.newStringUtf 4096) ∧
      ∃ g, Vm.initial.step (fun _ => false) (fun _ => .object)
          (.jni (.newString (StringCall.text (fun _ => 0) (.newStringUtf 4096)))) = some g ∧
        answer initialObjects (.newString (StringCall.text (fun _ => 0) (.newStringUtf 4096))) = 2 ∧
        ∀ L h, ¬ RoundTrips [] (getStringUtfChars L h g.objects 2)
          (getStringUtfLength g.objects 2)) ∧
    StringCall.Passes (someUnits.writeByte 4098 0) [0x41, 0, 0x20AC] (.newString 4096 3) ∧
      ∃ g, Vm.initial.step (fun _ => false) (fun _ => .object)
          (.jni (.newString (StringCall.text (someUnits.writeByte 4098 0) (.newString 4096 3)))) =
            some g ∧
        answer initialObjects
          (.newString (StringCall.text (someUnits.writeByte 4098 0) (.newString 4096 3))) = 2 ∧
        stringData g.objects 2 = [0x41] ∧
        ∀ L h, ¬ RoundTrips [0x41, 0, 0x20AC] (getStringUtfChars L h g.objects 2)
          (getStringUtfLength g.objects 2) := by
  refine ⟨⟨⟨by decide, by decide, by decide +kernel⟩, _, rfl, by decide +kernel, ?_⟩,
    ⟨by decide, rfl, by decide, by decide +kernel⟩, _, rfl, by decide +kernel, by decide +kernel,
    ?_⟩
  · intro L h htrips
    exact htrips.1 (getStringUtfChars_nil (by decide +kernel))
  · intro L h htrips
    exact absurd htrips.2.2 (by decide +kernel)

end Lunaria.Jvm
