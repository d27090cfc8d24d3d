/-
# Zip archives

The format of zip archives without the 64-bit extension, as far as a reader of their entries
depends on it: a central directory of records with a variable part each, a local header in front of
the bytes of every entry, and an end record with a comment. Fields no reader needs are left open.
-/

import Lunaria.Lib.Buffer

namespace Lunaria.Lib.Zip

open Buffer List

def eocdSig : List UInt8 := [0x50, 0x4b, 0x05, 0x06]
def centralSig : List UInt8 := [0x50, 0x4b, 0x01, 0x02]
def localSig : List UInt8 := [0x50, 0x4b, 0x03, 0x04]

/-- An entry: name, original bytes, bytes kept and their place, and the variable parts of its
headers. -/
structure Entry where
  name : List UInt8
  data : List UInt8
  comp : List UInt8
  deflated : Bool
  /-- Where the local header is. -/
  offset : Nat
  extra : List UInt8
  comment : List UInt8
  /-- The local header has a name and an extra field of its own. -/
  localName : List UInt8
  localExtra : List UInt8
  /-- Versions and flags; time and checksum; disk and attributes; the local copy of all this. -/
  versions : List UInt8
  stamps : List UInt8
  attributes : List UInt8
  localFields : List UInt8
  name_lt : name.length < 256 ^ 2
  data_lt : data.length < 256 ^ 4
  comp_lt : comp.length < 256 ^ 4
  offset_lt : offset < 256 ^ 4
  extra_lt : extra.length < 256 ^ 2
  comment_lt : comment.length < 256 ^ 2
  localName_lt : localName.length < 256 ^ 2
  localExtra_lt : localExtra.length < 256 ^ 2
  versions_length : versions.length = 6
  stamps_length : stamps.length = 8
  attributes_length : attributes.length = 8
  localFields_length : localFields.length = 22

namespace Entry

variable (e : Entry)

/-- 0 for stored, 8 for deflated entries. -/
def method : Nat := if e.deflated then 8 else 0

def centralFields : List (List UInt8) :=
  [centralSig, e.versions, leBytes 2 e.method, e.stamps, leBytes 4 e.comp.length,
    leBytes 4 e.data.length, leBytes 2 e.name.length, leBytes 2 e.extra.length,
    leBytes 2 e.comment.length, e.attributes, leBytes 4 e.offset]

theorem centralFields_lengths : e.centralFields.map length = [4, 6, 2, 8, 4, 4, 2, 2, 2, 8, 4] := by
  simp [centralFields, centralSig, leBytes_length, e.versions_length, e.stamps_length,
    e.attributes_length]

def centralHeader : List UInt8 := e.centralFields.flatten

def centralRecord : List UInt8 := e.centralHeader ++ e.name ++ (e.extra ++ e.comment)

def localHeaderFields : List (List UInt8) :=
  [localSig, e.localFields, leBytes 2 e.localName.length, leBytes 2 e.localExtra.length]

theorem localHeaderFields_lengths : e.localHeaderFields.map length = [4, 22, 2, 2] := by
  simp [localHeaderFields, localSig, leBytes_length, e.localFields_length]

def localHeader : List UInt8 := e.localHeaderFields.flatten

def localRecord : List UInt8 := e.localHeader ++ (e.localName ++ e.localExtra) ++ e.comp

theorem centralHeader_length : e.centralHeader.length = 46 := by
  rw [centralHeader, length_flatten, centralFields_lengths]
  rfl

theorem localHeader_length : e.localHeader.length = 30 := by
  rw [localHeader, length_flatten, localHeaderFields_lengths]
  rfl

theorem centralRecord_length :
    e.centralRecord.length = 46 + e.name.length + (e.extra.length + e.comment.length) := by
  simp [centralRecord, centralHeader_length, add_assoc]

end Entry

/-- An archive: its entries, where the directory is, and the end record with its comment. -/
structure Archive where
  entries : List Entry
  directoryOffset : Nat
  directorySize : Nat
  /-- The numbers of disks and of the entries on this disk. -/
  disks : List UInt8
  comment : List UInt8
  entries_lt : entries.length < 256 ^ 2
  names_nodup : (entries.map (·.name)).Nodup
  directoryOffset_lt : directoryOffset < 256 ^ 4
  disks_length : disks.length = 6
  comment_lt : comment.length < 256 ^ 2

namespace Archive

variable (a : Archive)

def directory : List UInt8 := a.entries.flatMap (·.centralRecord)

def endFields : List (List UInt8) :=
  [eocdSig, a.disks, leBytes 2 a.entries.length, leBytes 4 a.directorySize,
    leBytes 4 a.directoryOffset, leBytes 2 a.comment.length, a.comment]

theorem endFields_lengths : a.endFields.map length = [4, 6, 2, 4, 4, 2, a.comment.length] := by
  simp [endFields, eocdSig, leBytes_length, a.disks_length]

def endRecord : List UInt8 := a.endFields.flatten

theorem endRecord_length : a.endRecord.length = 22 + a.comment.length := by
  rw [endRecord, length_flatten, endFields_lengths]
  simp only [sum_cons, sum_nil]
  omega

end Archive

/-- The file is the archive, for a relation between original and deflated bytes. What else it holds
is left open. -/
structure IsArchive (deflates : List UInt8 → List UInt8 → Prop) (file : List UInt8)
    (a : Archive) : Prop where
  directory : Stands file a.directoryOffset a.directory
  records : ∀ e ∈ a.entries, Stands file e.offset e.localRecord
  contents : ∀ e ∈ a.entries, if e.deflated then deflates e.data e.comp else e.comp = e.data
  ending : a.endRecord <:+ file

end Lunaria.Lib.Zip
