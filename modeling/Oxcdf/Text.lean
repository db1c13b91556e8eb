import Mathlib.Data.List.DropRight
import Oxcdf.Read

/-! Fixed-length text: what the padding leaves of a value, and the strings of a
block of elements. -/

set_option autoImplicit false

namespace Oxcdf

open Foundation Foundation.Buffer

/-- The bytes up to the last one that is not a blank. -/
def trimBlanks (bytes : Bytes) : Bytes := bytes.rdropWhile (· = 0x20)

namespace StringPad

/-- The content of a value. A NUL ends it whatever the declared width; trailing
spaces are Fortran-style padding. -/
def content (pad : StringPad) (raw : Bytes) : Bytes :=
  match pad with
  | .nullTerminate | .nullPad => untilNul raw
  | .spacePad => trimBlanks (untilNul raw)

def decode (pad : StringPad) (raw : Bytes) : String := fromUtf8Lossy (pad.content raw)

end StringPad

namespace RawData

/-- The number of elements. -/
def len (raw : RawData) : Nat := if raw.elementSize = 0 then 0 else raw.bytes.length / raw.elementSize

def toStringsOf (raw : RawData) (datatype : Datatype) : Code (List String) :=
  match datatype.class_ with
  | .string pad _ =>
    .ok ((List.range raw.len).map fun i =>
      pad.decode (slice raw.bytes (i * raw.elementSize) raw.elementSize))
  -- The source prints the class of the type as well.
  | _ => .error (.unsupported "decoding as strings")

end RawData

section Bytewise

theorem slice_one (bytes : Bytes) {i : Nat} (inside : i < bytes.length) : slice bytes i 1 = [bytes[i]] := by
  rw [slice, List.drop_eq_getElem_cons inside]
  rfl

/-- Elements of one byte have one string for each byte. -/
theorem toStringsOf_bytes (raw : RawData) (single : raw.elementSize = 1) {datatype : Datatype} {pad : StringPad}
    {charset : CharSet} (text : datatype.class_ = .string pad charset) :
    raw.toStringsOf datatype = .ok (raw.bytes.map fun byte => pad.decode [byte]) := by
  have len : raw.len = raw.bytes.length := by simp [RawData.len, single]
  simp only [RawData.toStringsOf, text, len, single, Nat.mul_one]
  congr 1
  apply List.ext_getElem (by simp)
  intro i inside _
  simp only [List.getElem_map, List.getElem_range]
  rw [slice_one]

/-- The string of one byte is empty for a NUL, and one character otherwise. -/
theorem decode_byte (byte : UInt8) :
    (StringPad.nullTerminate.decode [byte]).toList = Utf8.decodeApart ([byte].filter (· ≠ 0)) := by
  by_cases nul : byte = 0
  · subst nul
    rfl
  · simp [StringPad.decode, StringPad.content, untilNul, fromUtf8Lossy, Utf8.decodeApart, nul]

/-- Strings of one byte each, joined, are the bytes that are not NUL, decoded one by one. -/
theorem join_bytes (bytes : Bytes) :
    (String.join (bytes.map fun byte => StringPad.nullTerminate.decode [byte])).toList =
      Utf8.decodeApart (bytes.filter (· ≠ 0)) := by
  rw [String.toList_join, List.flatMap_map]
  induction bytes with
  | nil => rfl
  | cons byte bytes ih =>
    have split : byte :: bytes = [byte] ++ bytes := rfl
    rw [split, List.filter_append, Utf8.decodeApart_append, ← decode_byte, ← ih]
    rfl

theorem utf8Bytes_clean {text : String} : 0 ∉ utf8Bytes text ↔ Char.ofNat 0 ∉ text.toList :=
  Utf8.zero_mem_encode.not

theorem filter_clean {bytes : Bytes} (clean : 0 ∉ bytes) : bytes.filter (· ≠ 0) = bytes := by
  rw [List.filter_eq_self]
  intro byte stored
  simpa using ne_of_mem_of_not_mem stored clean

theorem utf8Size_eq_one_iff (c : Char) : c.utf8Size = 1 ↔ c.toNat < 128 := by
  rw [Char.utf8Size_eq_one_iff, UInt32.le_iff_toNat_le]
  change c.toNat ≤ 127 ↔ _
  omega

/-- Joined strings of one byte give back the text of the bytes exactly when it is ASCII without a NUL. -/
theorem join_text_iff {text : String} (pad : Nat) :
    String.join ((utf8Bytes text ++ List.replicate pad 0).map fun byte =>
      StringPad.nullTerminate.decode [byte]) =
        text ↔
      ∀ c ∈ text.toList, c ≠ Char.ofNat 0 ∧ c.toNat < 128 := by
  have cut : (utf8Bytes text ++ List.replicate pad 0).filter (· ≠ 0) = (utf8Bytes text).filter (· ≠ 0) := by
    simp [List.filter_append]
  rw [← String.toList_inj, join_bytes, cut]
  constructor
  · intro same c member
    -- No character of the joined strings is a NUL, so there is none in the text.
    have clean : Char.ofNat 0 ∉ text.toList := by
      rw [← same]
      exact Utf8.nul_notMem_decodeApart (by simp)
    rw [filter_clean (utf8Bytes_clean.mpr clean)] at same
    exact ⟨ne_of_mem_of_not_mem member clean,
      (utf8Size_eq_one_iff c).mp (Utf8.decodeApart_encode_iff.mp same c member)⟩
  · intro ascii
    have clean : Char.ofNat 0 ∉ text.toList := fun member => (ascii _ member).1 rfl
    rw [filter_clean (utf8Bytes_clean.mpr clean)]
    exact Utf8.decodeApart_encode_iff.mpr fun c member => (utf8Size_eq_one_iff c).mpr (ascii c member).2

end Bytewise

end Oxcdf
