import Oxcdf.Elements.Numbers
import Oxcdf.GlobalHeap.Strings
import Oxcdf.Read.Arrays

/-! The values of a variable, and what they should be.

A dataset holds numbers or texts. Its elements in the file are the bytes of the numbers, or
descriptors that lead to the texts, and whoever reads them should get the numbers or the
texts back.
-/

set_option autoImplicit false

namespace Oxcdf

open Foundation Foundation.Buffer Foundation.Format Foundation.RowMajor

section Values

/-- Values read from a variable, and its strings where these are in the heap. -/
structure Values where
  raw : RawData
  datatype : Datatype
  vlenStrings : Option (List String)

namespace Values

/-- The values as numbers of one type. -/
def get (values : Values) (element : Element) : Code (List element.Value) :=
  values.raw.getOf element values.datatype ""

def toStrings (values : Values) : Code (List String) :=
  match values.vlenStrings with
  | some strings => .ok strings
  | none => values.raw.toStringsOf values.datatype

end Values

/-- Whether the elements of a dataset point into the global heap. A ragged sequence is not followed. -/
def holdsHeapPointers (dataset : DatasetIndex) : Bool :=
  match dataset.datatype.class_ with
  | .variableLength .string _ _ _ => true
  | _ => false

/-- Turn raw bytes into values, following any heap pointer they hold. -/
def valuesFromRaw (view : View) (dataset : DatasetIndex) (raw : RawData) : Code Values :=
  if holdsHeapPointers dataset then do
    let strings ← Vlen.resolveVlenStrings view dataset raw
    .ok { raw, datatype := dataset.datatype, vlenStrings := some strings }
  else .ok { raw, datatype := dataset.datatype, vlenStrings := none }

/-- Take the one value a selection named, or say how many it named instead. -/
def oneValue {α : Type} (what : String) (values : List α) : Code α :=
  match values with
  | [value] => .ok value
  | values => .error (.badRequest
    s!"the selection on variable {what} names {values.length} elements, but one was asked for")

end Values

/-- Numbers of a type, one at each coordinate. -/
structure NumberArray (datatype : Datatype) where
  number : List Nat → Number
  typed : ∀ coord, (number coord).OfType datatype

/-- Texts in the heap, one at each coordinate of a dataset of variable-length strings. -/
structure TextArray (view : View) (dataset : DatasetIndex) where
  stored : List Nat → Vlen.StoredText view
  strings : holdsHeapPointers dataset = true
  size : dataset.elementSize = VlenDescriptor.encodedLen view.sizes
  offset : view.sizes.offset ≤ 8
  length : view.sizes.length ≤ 8

/-- What a dataset holds. -/
inductive Contents (view : View) (dataset : DatasetIndex) where
  | numbers (array : NumberArray dataset.datatype)
  | texts (array : TextArray view dataset)

namespace Contents

variable {view : View} {dataset : DatasetIndex}

def elements : Contents view dataset → ElementArray dataset.elementSize
  | .numbers array =>
    { element := fun coord => (array.number coord).encode (dataset.datatype.byteOrder.getD .little) dataset.elementSize
      uniform := fun coord => (array.number coord).encode_length _ _ }
  | .texts array =>
    { element := fun coord => (array.stored coord).encode
      uniform := fun _ => (Vlen.encodeDescriptor_length _ _).trans array.size.symm }

/-- The numbers of a selection, as those of one type. -/
def values (element : Element) (slab : Hyperslab) : Contents view dataset → Code (List element.Value)
  | .numbers array => .ok ((cells slab.count).map fun cell => (array.number (shift slab.start cell)).convert element)
  | .texts _ => .error (.typeMismatch "string" element.name "")

/-- The texts of a selection. -/
def strings (slab : Hyperslab) : Contents view dataset → Code (List String)
  | .numbers _ => .error (.unsupported "decoding as strings")
  | .texts array => .ok ((cells slab.count).map fun cell => (array.stored (shift slab.start cell)).text)

theorem strings_of_pointers (pointers : holdsHeapPointers dataset = true) :
    ∃ base pad charset, dataset.datatype.class_ = .variableLength .string base pad charset := by
  unfold holdsHeapPointers at pointers
  split at pointers
  · next found => exact ⟨_, _, _, found⟩
  · cases pointers

section Numbers

variable (array : NumberArray dataset.datatype)

theorem reverse_short {bytes : Bytes} (short : bytes.length ≤ 1) : bytes.reverse = bytes := by
  rcases bytes with _ | ⟨byte, _ | ⟨next, rest⟩⟩
  · rfl
  · rfl
  · simp at short

include array in
theorem nativeOrder_numbers (numbers : List Number) :
    Read.nativeOrder dataset
        (numbers.flatMap (Number.encode (dataset.datatype.byteOrder.getD .little) dataset.elementSize))
        dataset.elementSize =
      numbers.flatMap (Number.encode .little dataset.elementSize) := by
  obtain ⟨⟨order, known⟩, fixed, -⟩ := (array.typed []).numeric
  unfold Read.nativeOrder
  cases order with
  | little => simp [known]
  | big =>
    simp only [known, fixed, Option.getD_some, Bool.not_false, and_self, if_true]
    unfold Read.swapBytesInPlace
    split
    · next single =>
      refine List.flatMap_congr fun number _ => ?_
      rw [← number.encode_reverse, reverse_short]
      rwa [number.encode_length]
    · next wide =>
      rw [reverseBlocks_flatMap (by omega) fun number _ => number.encode_length .big dataset.elementSize]
      exact List.flatMap_congr fun number _ => number.encode_reverse _

/-- In native order, the numbers of a selection stand one after the other, each with its lower bytes first. -/
theorem selected_numbers (view : View) (slab : Hyperslab) :
    (Read.selected dataset (Contents.numbers array : Contents view dataset).elements slab).bytes =
      ((cells slab.count).map fun cell => array.number (shift slab.start cell)).flatMap
        (Number.encode .little dataset.datatype.size) := by
  have native := nativeOrder_numbers array ((cells slab.count).map fun cell => array.number (shift slab.start cell))
  rw [List.flatMap_map, List.flatMap_map] at native
  rw [List.flatMap_map]
  exact native

include array in
theorem valuesFromRaw_numbers (raw : RawData) :
    valuesFromRaw view dataset raw = .ok { raw, datatype := dataset.datatype, vlenStrings := none } := by
  obtain ⟨-, fixed, -⟩ := (array.typed []).numeric
  have plain : holdsHeapPointers dataset = false := by
    by_contra pointers
    obtain ⟨base, pad, charset, strings⟩ := strings_of_pointers (Bool.eq_true_of_not_eq_false pointers)
    simp [strings, DatatypeClass.isVariableLength] at fixed
  simp [valuesFromRaw, plain]

include array in
theorem toStringsOf_numbers (raw : RawData) :
    raw.toStringsOf dataset.datatype = .error (.unsupported "decoding as strings") := by
  obtain ⟨⟨order, known⟩, -, -⟩ := (array.typed []).numeric
  unfold RawData.toStringsOf
  split
  · next found => simp [Datatype.byteOrder, found] at known
  · rfl

end Numbers

section Texts

variable (array : TextArray view dataset)

/-- A number cannot be read where strings are stored. -/
theorem getOf_strings {datatype : Datatype} {base : Datatype} {pad : StringPad} {charset : CharSet}
    (strings : datatype.class_ = .variableLength .string base pad charset) (raw : RawData) (element : Element) :
    raw.getOf element datatype "" = .error (.typeMismatch "string" element.name "") := by
  obtain ⟨version, size, class_⟩ := datatype
  cases strings
  have other : DType.of ⟨version, size, .variableLength .string base pad charset⟩ ≠ element.dtype := by
    cases element <;> simp [DType.of, DType.ofClass, Element.dtype]
  simp only [RawData.getOf, other, false_and, if_false]
  rfl

/-- The descriptors of a selection are the same in every byte order. -/
theorem selected_texts (slab : Hyperslab) : (Read.selected dataset (Contents.texts array).elements slab).bytes =
    ((cells slab.count).map fun cell => array.stored (shift slab.start cell)).flatMap Vlen.StoredText.encode := by
  obtain ⟨base, pad, charset, strings⟩ := strings_of_pointers array.strings
  have pointers : dataset.datatype.class_.isVariableLength = true := by rw [strings]; rfl
  unfold Read.selected Read.nativeOrder
  simp only [pointers, Bool.not_true, Bool.false_eq_true, false_and, if_false, List.flatMap_map]
  rfl

/-- Values that are read of texts have them, and are of no numeric type. -/
theorem valuesFromRaw_texts (slab : Hyperslab) :
    let values : Values :=
      { raw := Read.selected dataset (Contents.texts array).elements slab
        datatype := dataset.datatype
        vlenStrings := some ((cells slab.count).map fun cell => (array.stored (shift slab.start cell)).text) }
    (∀ element, values.get element = .error (.typeMismatch "string" element.name "")) ∧
      valuesFromRaw view dataset (Read.selected dataset (Contents.texts array).elements slab) = .ok values := by
  obtain ⟨base, pad, charset, strings⟩ := strings_of_pointers array.strings
  have resolved := @Vlen.HoldsTexts.resolves view dataset.path
    (Read.selected dataset (Contents.texts array).elements slab) _
    ⟨array.offset, array.length, array.size, selected_texts array slab⟩
  refine ⟨fun element => getOf_strings strings _ element, ?_⟩
  unfold valuesFromRaw Vlen.resolveVlenStrings
  simp only [array.strings, strings, if_true, resolved, Outcome.ok_bind, List.map_map]
  rfl

end Texts

theorem decodable (contents : Contents view dataset) : dataset.datatype.isDecodable = true := by
  cases contents with
  | numbers array => exact (array.typed []).numeric.2.2
  | texts array =>
    obtain ⟨base, pad, charset, strings⟩ := strings_of_pointers array.strings
    have shape : dataset.datatype.isDecodable = dataset.datatype.class_.isDecodable := by cases dataset.datatype; rfl
    rw [shape, strings]
    rfl

/-- What is read of a selection can be turned into values. -/
theorem exists_values (contents : Contents view dataset) (slab : Hyperslab) :
    ∃ values, valuesFromRaw view dataset (Read.selected dataset contents.elements slab) = .ok values ∧
      values.raw = Read.selected dataset contents.elements slab := by
  cases contents with
  | numbers array => exact ⟨_, valuesFromRaw_numbers array _, rfl⟩
  | texts array => exact ⟨_, (valuesFromRaw_texts array slab).2, rfl⟩

theorem get_selected (contents : Contents view dataset) (element : Element) (slab : Hyperslab) :
    (valuesFromRaw view dataset (Read.selected dataset contents.elements slab) >>= fun values => values.get element) =
      contents.values element slab := by
  cases contents with
  | numbers array =>
    rw [valuesFromRaw_numbers array, Outcome.ok_bind]
    refine (getOf_numbers element "" ⟨_, array.typed []⟩ (fun number member => ?_) rfl
      (selected_numbers array view slab)).trans (by simp [values])
    obtain ⟨cell, -, rfl⟩ := List.mem_map.mp member
    exact array.typed _
  | texts array =>
    obtain ⟨typed, resolved⟩ := valuesFromRaw_texts array slab
    rw [resolved, Outcome.ok_bind]
    exact typed element

theorem toStrings_selected (contents : Contents view dataset) (slab : Hyperslab) :
    (valuesFromRaw view dataset (Read.selected dataset contents.elements slab) >>= Values.toStrings) =
      contents.strings slab := by
  cases contents with
  | numbers array =>
    rw [valuesFromRaw_numbers array, Outcome.ok_bind]
    exact toStringsOf_numbers array _
  | texts array =>
    obtain ⟨-, resolved⟩ := valuesFromRaw_texts array slab
    rw [resolved]
    rfl

theorem bytes_selected (contents : Contents view dataset) (slab : Hyperslab) :
    (valuesFromRaw view dataset (Read.selected dataset contents.elements slab) >>= fun values =>
      (.ok values.raw.bytes : Code Bytes)) = .ok (Read.selected dataset contents.elements slab).bytes := by
  obtain ⟨values, returned, same⟩ := contents.exists_values slab
  rw [returned, Outcome.ok_bind, same]

end Contents

end Oxcdf
