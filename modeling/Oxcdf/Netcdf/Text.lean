import Oxcdf.Netcdf

/-! The text of a classic attribute.

The header parser decodes the value of a `char` attribute as a whole. The attribute
layer takes it as an array of strings of one byte each, decodes them one by one and
joins them, which breaks every character of more than one byte.
-/

set_option autoImplicit false

namespace Oxcdf.Netcdf

open Foundation Foundation.Buffer

/-- Elements of one byte are decoded one by one. -/
theorem textsFrom_bytes (pad : StringPad) {data : Bytes} : ∀ (count : Nat) {i : Nat}, i + count = data.length →
    textsFrom pad 1 data i count = (data.drop i).map fun byte => pad.decode [byte]
  | 0, i, whole => by
    rw [List.drop_eq_nil_of_le (by omega)]
    rfl
  | count + 1, i, whole => by
    have inside : i < data.length := by omega
    have stop : min (i * 1 + 1) data.length = i + 1 := by omega
    rw [textsFrom, stop, if_neg (by omega), textsFrom_bytes pad count (by omega),
      List.drop_eq_getElem_cons inside, Nat.mul_one, Nat.add_sub_cancel_left, slice_one data inside]
    rfl

section Char

variable {a : Classic.ClassicAttribute}

/-- A `char` is a string of one byte. -/
theorem datatype_char (char : a.ncType = .char) :
    (messageOf a).datatype = ⟨1, 1, .string .nullTerminate .ascii⟩ := by
  simp [messageOf, char, Classic.NcType.toDatatype, Classic.NcType.size]

/-- The element count of a `char` attribute is its length, as far as it can be counted. -/
theorem attributeElementCount_char (char : a.ncType = .char) (memory : a.raw.length ≤ isizeMax) :
    attributeElementCount (messageOf a) = a.raw.length := by
  have words := isizeMax_lt_wordSize
  have product : [a.raw.length].prod = a.raw.length := List.prod_singleton
  have one := elementCount_of_lt (show [a.raw.length].prod < wordSize by omega)
  have count : (messageOf a).elementCount = a.raw.length := by
    simp [messageOf, Attribute.elementCount, Dataspace.elementCount, char, Classic.NcType.size, one, product]
  rw [attributeElementCount, datatype_char char, if_neg Nat.one_ne_zero, count, Nat.div_one]
  exact Nat.min_self _

theorem decodeAllText_char (char : a.ncType = .char) (memory : a.raw.length ≤ isizeMax) :
    decodeAllText (messageOf a) = some (a.raw.map fun byte => StringPad.nullTerminate.decode [byte]) := by
  simp only [decodeAllText, datatype_char char, if_neg Nat.one_ne_zero, attributeElementCount_char char memory]
  rcases Nat.eq_zero_or_pos a.raw.length with empty | filled
  · -- One value is looked for in an empty attribute, and none is found.
    have nothing := List.eq_nil_of_length_eq_zero empty
    simp [messageOf, nothing, textsFrom]
  · have many : max a.raw.length 1 = a.raw.length := by omega
    rw [many]
    exact congrArg some (textsFrom_bytes .nullTerminate a.raw.length (Nat.zero_add a.raw.length))

/-- A `char` attribute is reported as the join of its bytes, each decoded for itself. -/
theorem decodeValue_char (char : a.ncType = .char) (memory : a.raw.length ≤ isizeMax)
    (hdf5 : Option VlenStrings) (owner : String) :
    decodeValue hdf5 owner (messageOf a) =
      .str (String.join (a.raw.map fun byte => StringPad.nullTerminate.decode [byte])) := by
  simp [decodeValue, decodeTyped, datatype_char char, decodeAllText_char char memory]

end Char

theorem getElem?_classicAttributes {attributes : List Classic.ClassicAttribute} {i : Nat}
    {a : Classic.ClassicAttribute} (found : attributes[i]? = some a) :
    (classicAttributes attributes)[i]? = some ⟨a.name, decodeValue none a.name (messageOf a)⟩ := by
  simp [classicAttributes, found]

/-- The value of a `char` attribute that holds a text without a NUL is reported as this text exactly when
the text is ASCII. -/
theorem reported_iff {text : String} (clean : 0 ∉ utf8Bytes text) (memory : (utf8Bytes text).length ≤ isizeMax)
    {name : String} {attributes : List Classic.ClassicAttribute} {i : Nat}
    (found : attributes[i]? = some (Classic.attributeOf name .char (utf8Bytes text))) :
    (classicAttributes attributes)[i]? = some ⟨name, .str text⟩ ↔ ∀ c ∈ text.toList, c.toNat < 128 := by
  have joined := @join_text_iff text 0
  rw [List.replicate_zero, List.append_nil] at joined
  have reported := @decodeValue_char (Classic.attributeOf name .char (utf8Bytes text)) rfl memory none name
  have raw : (Classic.attributeOf name .char (utf8Bytes text)).raw = utf8Bytes text := rfl
  have named : (Classic.attributeOf name .char (utf8Bytes text)).name = name := rfl
  rw [getElem?_classicAttributes found, named, reported, raw, Option.some.injEq, NcAttribute.mk.injEq,
    AttributeValue.str.injEq, joined]
  constructor
  · exact fun same c member => (same.2 c member).2
  · exact fun ascii => ⟨rfl, fun c member =>
      ⟨ne_of_mem_of_not_mem member (utf8Bytes_clean.mp clean), ascii c member⟩⟩

/-- A `char` attribute of text without a NUL keeps its text in the header; it is reported as that text
exactly when the text is ASCII. -/
theorem classic_text_iff {text : String} (clean : 0 ∉ utf8Bytes text)
    (memory : (utf8Bytes text).length ≤ isizeMax) (name : String) :
    (Classic.attributeOf name .char (utf8Bytes text)).text = some text ∧
      ∀ (attributes : List Classic.ClassicAttribute) (i : Nat),
        attributes[i]? = some (Classic.attributeOf name .char (utf8Bytes text)) →
          ((classicAttributes attributes)[i]? = some ⟨name, .str text⟩ ↔ ∀ c ∈ text.toList, c.toNat < 128) := by
  refine ⟨?_, fun _ _ found => reported_iff clean memory found⟩
  have kept := Cursor.untilNul_clean clean []
  rw [List.append_nil] at kept
  change some (fromUtf8Lossy (untilNul (utf8Bytes text))) = some text
  rw [kept]
  change some (fromUtf8Lossy (utf8Bytes text ++ [])) = some text
  rw [List.append_nil, fromUtf8Lossy_utf8Bytes]

theorem classic_text_degrees :
    (classicAttributes [Classic.attributeOf "units" .char (utf8Bytes "degrees")])[0]? =
      some ⟨"units", .str "degrees"⟩ :=
  ((@classic_text_iff "degrees" (by decide) (by decide) "units").2 _ 0 rfl).mpr (by simp)

/-- The sign of a degree is two bytes, and comes out as two replacement characters. -/
theorem classic_text_sign :
    (Classic.attributeOf "units" .char (utf8Bytes "°C")).text = some "°C" ∧
      (classicAttributes [Classic.attributeOf "units" .char (utf8Bytes "°C")])[0]? =
        some ⟨"units", .str "\uFFFD\uFFFDC"⟩ ∧
      (classicAttributes [Classic.attributeOf "units" .char (utf8Bytes "°C")])[0]? ≠ some
      ⟨"units", .str "°C"⟩ := by
  have clean : 0 ∉ utf8Bytes "°C" := by decide
  refine ⟨by decide, ?_, fun kept => ?_⟩
  · have reported := @decodeValue_char (Classic.attributeOf "units" .char (utf8Bytes "°C")) rfl
      (by decide) none "units"
    have joined : String.join ((utf8Bytes "°C").map fun byte => StringPad.nullTerminate.decode [byte]) =
        "\uFFFD\uFFFDC" := by decide
    rw [← joined]
    exact congrArg (fun value => some (NcAttribute.mk "units" value)) reported
  · have ascii := (reported_iff clean (by decide) rfl).mp kept '°' (by decide)
    revert ascii
    decide

end Oxcdf.Netcdf
