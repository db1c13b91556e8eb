import Oxcdf.Dataset
import Oxcdf.GlobalHeap.Vlen

/-! Variable-length strings: a descriptor for each, and the text in the heap that it leads to.

A text is cut at the length of its descriptor, and at a terminator before that.
-/

set_option autoImplicit false

namespace Oxcdf

open Foundation Foundation.Buffer Foundation.Format

namespace Vlen

section Decoding

variable (view : View)

/-- The text in the bytes of an element, given its length. -/
def decodeText (bytes : Bytes) (length : Nat) : String :=
  let len := min length bytes.length
  fromUtf8Lossy (untilNul (bytes.take len))

/-- Follow the descriptors of some strings into the global heap. -/
def resolveVlenStringsOf (what : String) (raw : RawData) : Code (List String) :=
  (withVlenDescriptors view what raw (fun bytes length => pure (decodeText bytes length)) ()).1

def resolveVlenStrings (dataset : DatasetIndex) (raw : RawData) : Code (List String) :=
  match dataset.datatype.class_ with
  | .variableLength .string _ _ _ => resolveVlenStringsOf view dataset.path raw
  | .variableLength .sequence _ _ _ =>
    .error (.unsupported "variable-length sequences are not decoded as strings")
  | _ => .error (.unsupported s!"dataset {dataset.path} is not a variable-length type")

end Decoding

section Stored

def encodeDescriptor (sizes : Sizes) (descriptor : VlenDescriptor) : Bytes :=
  littleEndian 4 descriptor.length ++
    (encodeAddress sizes (some descriptor.collectionAddress) ++ littleEndian 4 descriptor.objectIndex)

def HoldsObject (view : View) (address : Nat) (o : GlobalHeapObject) : Prop :=
  ∃ objects body, GlobalHeap.Laid view.sizes objects body ∧ GlobalHeap.Stored view address body ∧
    (objects.map GlobalHeapObject.index).Nodup ∧ o ∈ objects

/-- A text as a file stores it. An empty one may stand for itself; any other is in an object of the heap, with any
number of terminators that its length counts and any bytes behind them. -/
structure StoredText (view : View) where
  text : String
  descriptor : VlenDescriptor
  clean : 0 ∉ utf8Bytes text
  length : descriptor.length < 256 ^ 4
  address : descriptor.collectionAddress < undefinedForWidth view.sizes.offset
  index : descriptor.objectIndex < 256 ^ 2
  stored : descriptor.length = 0 ∧ text = "" ∨
    ∃ referenceCount nuls rest, descriptor.length = (utf8Bytes text).length + nuls ∧
      HoldsObject view descriptor.collectionAddress
        ⟨descriptor.objectIndex, referenceCount, utf8Bytes text ++ (List.replicate nuls 0 ++ rest)⟩

variable {view : View}

def StoredText.encode (stored : StoredText view) : Bytes := encodeDescriptor view.sizes stored.descriptor

theorem encodeDescriptor_length (sizes : Sizes) (descriptor : VlenDescriptor) :
    (encodeDescriptor sizes descriptor).length = VlenDescriptor.encodedLen sizes := by
  simp only [encodeDescriptor, List.length_append, littleEndian_length, encodeAddress_length,
    VlenDescriptor.encodedLen]
  omega

theorem reads_descriptor {sizes : Sizes} (narrow : sizes.offset ≤ 8) {descriptor : VlenDescriptor}
    (length : descriptor.length < 256 ^ 4) (address : descriptor.collectionAddress < undefinedForWidth sizes.offset)
    (index : descriptor.objectIndex < 256 ^ 4) :
    Reads (VlenDescriptor.parse sizes) (encodeDescriptor sizes descriptor) descriptor := by
  refine (Cursor.reads_u32 length).bind ((reads_addressRequired narrow address _).bind ?_)
  exact (Cursor.reads_u32 index).bind_done fun _ => rfl

/-- What is cut at its length and at its terminators is the text. -/
theorem decodeText_stored {text : String} (clean : 0 ∉ utf8Bytes text) (nuls : Nat) (rest : Bytes) :
    decodeText (utf8Bytes text ++ (List.replicate nuls 0 ++ rest)) ((utf8Bytes text).length + nuls) = text := by
  have cut : (utf8Bytes text ++ (List.replicate nuls 0 ++ rest)).take ((utf8Bytes text).length + nuls) =
      utf8Bytes text ++ List.replicate nuls 0 := by
    rw [← List.append_assoc]
    exact List.take_left' (by simp)
  have padding : untilNul (List.replicate nuls 0) = [] := by
    cases nuls <;> simp [untilNul, List.replicate_succ]
  have whole : min ((utf8Bytes text).length + nuls) (utf8Bytes text ++ (List.replicate nuls 0 ++ rest)).length =
      (utf8Bytes text).length + nuls := by
    simp only [List.length_append, List.length_replicate]
    omega
  simp only [decodeText, whole, cut]
  rw [Cursor.untilNul_clean clean, padding, List.append_nil, fromUtf8Lossy_utf8Bytes]

variable {what : String} {raw : RawData} {texts : List (StoredText view)}

/-- A block of the descriptors of some texts. -/
structure HoldsTexts (view : View) (raw : RawData) (texts : List (StoredText view)) : Prop where
  offset : view.sizes.offset ≤ 8
  length : view.sizes.length ≤ 8
  size : raw.elementSize = VlenDescriptor.encodedLen view.sizes
  bytes : raw.bytes = texts.flatMap StoredText.encode

namespace HoldsTexts

theorem len (holds : HoldsTexts view raw texts) : raw.len = texts.length := by
  have long := length_flatMap_block fun (stored : StoredText view) (_ : stored ∈ texts) =>
    encodeDescriptor_length view.sizes stored.descriptor
  have positive : 0 < VlenDescriptor.encodedLen view.sizes := by unfold VlenDescriptor.encodedLen; omega
  rw [RawData.len, holds.size, if_neg positive.ne', holds.bytes]
  exact (congrArg (· / _) long).trans (Nat.mul_div_cancel _ positive)

theorem descriptorAt (holds : HoldsTexts view raw texts) {i : Nat} {stored : StoredText view}
    (found : texts[i]? = some stored) : Vlen.descriptorAt view raw i = .ok stored.descriptor := by
  have uniform : ∀ stored ∈ texts, stored.encode.length = VlenDescriptor.encodedLen view.sizes :=
    fun stored _ => encodeDescriptor_length view.sizes stored.descriptor
  have window := slice_flatMap_block uniform found
  have inside : i < texts.length := (List.getElem?_eq_some_iff.mp found).1
  have total := length_flatMap_block uniform
  have stop : (i + 1) * VlenDescriptor.encodedLen view.sizes ≤ texts.length * VlenDescriptor.encodedLen view.sizes :=
    Nat.mul_le_mul_right _ inside
  rw [Nat.succ_mul] at stop
  have parsed := reads_descriptor holds.offset stored.length stored.address
    (Nat.lt_trans stored.index (by decide)) [] []
  simp only [List.nil_append, List.append_nil, List.length_nil] at parsed
  unfold Vlen.descriptorAt
  dsimp only
  rw [holds.size, holds.bytes, range_of_le _ (by rw [total]; exact stop), Outcome.ok_bind, window]
  exact congrArg Prod.fst parsed

/-- What an element leads to decodes to its text. -/
theorem decodes (holds : HoldsTexts view raw texts) {i : Nat} {stored : StoredText view}
    (found : texts[i]? = some stored) :
    ∃ value, narrowed view what raw i = .ok value ∧ decodeText value.1 value.2 = stored.text := by
  unfold narrowed lookedUp
  rw [holds.descriptorAt found, Outcome.ok_bind]
  dsimp only
  by_cases none_ : stored.descriptor.length = 0
  · refine ⟨_, if_pos none_, ?_⟩
    rcases stored.stored with ⟨-, empty⟩ | ⟨_, nuls, _, counted, -⟩
    · rw [empty]
      rfl
    · have empty : utf8Bytes stored.text = [] := List.eq_nil_of_length_eq_zero (by omega)
      rw [← fromUtf8Lossy_utf8Bytes stored.text, empty]
      rfl
  · rcases stored.stored with ⟨none_', -⟩ | ⟨referenceCount, nuls, rest, counted, objects, body, laid, held, distinct, member⟩
    · exact absurd none_' none_
    · have read := GlobalHeap.read_laid holds.length laid held
      have object := GlobalHeap.object_of_mem distinct member
      rw [if_neg none_, read, Outcome.ok_bind, Nat.mod_eq_of_lt (by exact stored.index), object]
      refine ⟨_, rfl, ?_⟩
      rw [counted]
      exact decodeText_stored stored.clean nuls rest

/-- The descriptors of some texts are resolved to the texts. -/
theorem resolves (holds : HoldsTexts view raw texts) :
    resolveVlenStringsOf view what raw = .ok (texts.map StoredText.text) := by
  have wide : ¬ raw.elementSize < VlenDescriptor.encodedLen view.sizes := by rw [holds.size]; exact Nat.lt_irrefl _
  have each (i : Nat) : (Session.lift (narrowed view what raw i) >>= fun found =>
      (pure (decodeText found.1 found.2) : Session Unit Error String)).Returns (fun _ => True)
      (narrowed view what raw i >>= fun found => .ok (decodeText found.1 found.2)) :=
    (Session.Returns.lift _).bind fun _ _ => Session.Returns.lift _
  have returned := (Session.Returns.mapM each (List.range raw.len) () trivial).1
  have decoded : (List.range raw.len).mapM (fun i => narrowed view what raw i >>= fun found =>
      (.ok (decodeText found.1 found.2) : Code String)) =
      .ok ((List.range raw.len).map fun i => (texts[i]?.map StoredText.text).getD "") := by
    refine Outcome.mapM_of_ok _ fun i member => ?_
    have inside : i < texts.length := holds.len ▸ List.mem_range.mp member
    obtain ⟨value, named, text⟩ := @decodes view what raw texts holds i texts[i] (List.getElem?_eq_getElem inside)
    rw [named, Outcome.ok_bind, text, List.getElem?_eq_getElem inside]
    rfl
  have listed : (List.range raw.len).map (fun i => (texts[i]?.map StoredText.text).getD "") =
      texts.map StoredText.text := by
    apply List.ext_getElem (by simp [holds.len])
    intro i _ inside
    rw [List.length_map] at inside
    simp [List.getElem?_eq_getElem inside]
  unfold resolveVlenStringsOf withVlenDescriptors
  rw [if_neg wide, walk_eq (List.range raw.len) (show Sound view [] by simp [Sound]), returned, decoded, listed]

end HoldsTexts

end Stored

end Vlen

end Oxcdf
