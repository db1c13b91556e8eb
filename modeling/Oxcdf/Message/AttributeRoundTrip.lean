import Oxcdf.Message.Attribute
import Oxcdf.Message.DatatypeRoundTrip
import Oxcdf.Message.Panic

/-! Dataspaces and attributes as they are stored, and what is read of them.

The three versions of an attribute differ in their padding. The value is what is left of a
message, padding included, or what the dataspace implies, so that records can stand back
to back.
-/

set_option autoImplicit false

namespace Oxcdf

open Foundation Foundation.Format

section Spaces

namespace Dataspace

def kindCode : DataspaceKind → Nat
  | .scalar => 0
  | .simple => 1
  | .null => 2

variable (sizes : Sizes) (space : Dataspace)

def encodeDims : Bytes :=
  space.dims.flatMap (littleEndian sizes.length) ++
    (space.maxDims.elim [] fun dims => dims.flatMap (littleEndian sizes.length))

def flags : Nat := if space.maxDims.isSome then 1 else 0

/-- A dataspace message of version 1 or 2. -/
def encode (second : Bool) : Bytes :=
  littleEndian 1 (if second then 2 else 1) ++
    (littleEndian 1 space.dims.length ++ (littleEndian 1 space.flags ++
    ((if second then littleEndian 1 (kindCode space.kind) else List.replicate 5 0) ++ space.encodeDims sizes)))

/-- The fields hold what is stored in them. Version 1 has no kind: no dimension means a scalar. -/
structure Fits (second : Bool) : Prop where
  rank : space.dims.length < 256
  dims : ∀ dim ∈ space.dims, dim < 256 ^ sizes.length
  maxDims : ∀ dims, space.maxDims = some dims →
    dims.length = space.dims.length ∧ ∀ dim ∈ dims, dim < 256 ^ sizes.length
  kind : second = false → space.kind = if space.dims.length = 0 then .scalar else .simple

variable {sizes space}

theorem reads_dims (narrow : sizes.length ≤ 8) {dims : List Nat}
    (fits : ∀ dim ∈ dims, dim < 256 ^ sizes.length) :
    Reads (readDims sizes dims.length) (dims.flatMap (littleEndian sizes.length)) dims := by
  have each : ∀ dim ∈ dims, Reads (Cursor.length sizes) (littleEndian sizes.length dim) (id dim) :=
    fun dim member => Cursor.reads_uint narrow (fits dim member)
  have all := Reads.times each
  rwa [List.map_id] at all

theorem reads_maxDims (narrow : sizes.length ≤ 8) {second : Bool} (fits : space.Fits sizes second) :
    Reads (readMaxDims sizes (space.flags.testBit 0) space.dims.length)
      (space.maxDims.elim [] fun dims => dims.flatMap (littleEndian sizes.length)) space.maxDims := by
  unfold readMaxDims flags
  cases present : space.maxDims with
  | none => exact Reads.pure none
  | some dims =>
    obtain ⟨same, words⟩ := fits.maxDims dims present
    have bit : Nat.testBit 1 0 = true := rfl
    rw [← same, Option.isSome_some, if_pos rfl, bit, if_pos rfl]
    exact (reads_dims narrow words).bind_pure some

theorem kindOf_code (kind : DataspaceKind) : kindOf (kindCode kind) = .ok kind := by cases kind <;> rfl

theorem reads_space (narrow : sizes.length ≤ 8) {second : Bool} (fits : space.Fits sizes second) :
    Reads (parseAt sizes) (space.encode sizes second) space := by
  have small : space.flags < 256 ^ 1 := by
    unfold flags
    split <;> decide
  have code : kindCode space.kind < 256 ^ 1 := by cases space.kind <;> decide
  have permuted : space.flags.testBit 1 = false := by
    unfold flags
    split <;> rfl
  have maxDims := reads_maxDims narrow fits
  unfold parseAt encode encodeDims
  cases second with
  | false =>
    have reserved : List.replicate 5 (0 : UInt8) = List.replicate 1 0 ++ List.replicate 4 0 := rfl
    have kind := fits.kind rfl
    simp only [Bool.false_eq_true, if_false, reserved, List.append_assoc]
    apply (@Cursor.reads_u8 1 (by decide)).bind
    apply (Cursor.reads_u8 fits.rank).bind
    apply (Cursor.reads_u8 small).bind
    apply (Cursor.reads_skip (List.replicate 1 0)).bind
    apply (Cursor.reads_skip (List.replicate 4 0)).bind
    apply (reads_dims narrow fits.dims).bind
    rw [permuted, ← kind]
    exact maxDims.bind_done fun cursor => rfl
  | true =>
    apply (@Cursor.reads_u8 2 (by decide)).bind
    apply (Cursor.reads_u8 fits.rank).bind
    apply (Cursor.reads_u8 small).bind
    apply (Cursor.reads_u8 code).bind
    apply Reads.bind_lift (kindOf_code space.kind)
    apply (reads_dims narrow fits.dims).bind
    exact maxDims.bind_pure fun dims => (⟨space.kind, space.dims, dims⟩ : Dataspace)

end Dataspace

end Spaces

section Attributes

namespace Attribute

inductive Version where
  | one
  | two
  | three
  deriving DecidableEq, Repr

/-- An attribute as a message stores it: the blocks of its name, its datatype and its dataspace, and its value. -/
structure StoredAttribute where
  version : Version
  name : Bytes
  /-- The character set of the name, in version 3. -/
  charset : Nat
  datatype : Bytes
  dataspace : Bytes
  value : Bytes

namespace StoredAttribute

variable (a : StoredAttribute)

def versionCode : Nat :=
  match a.version with
  | .one => 1
  | .two => 2
  | .three => 3

/-- Version 1 pads a block to a multiple of eight bytes. -/
def pad (block : Bytes) : Bytes :=
  match a.version with
  | .one => block ++ List.replicate (padded8 block.length - block.length) 0
  | .two | .three => block

def encodeSizes : Bytes :=
  littleEndian 1 a.versionCode ++ (littleEndian 1 0 ++ (littleEndian 2 a.name.length ++
    (littleEndian 2 a.datatype.length ++ (littleEndian 2 a.dataspace.length ++
      match a.version with
      | .three => littleEndian 1 a.charset
      | .one | .two => []))))

def encodeFront : Bytes := a.encodeSizes ++ (a.pad a.name ++ (a.pad a.datatype ++ a.pad a.dataspace))

/-- The record, without what pads the value of version 1. -/
def encode : Bytes := a.encodeFront ++ a.value

/-- The fields hold what is stored in them, and the blocks are those of this type and dataspace. -/
structure Fits (sizes : Sizes) (type : Datatype) (space : Dataspace) : Prop where
  name : a.name.length < 256 ^ 2
  charset : a.charset < 256
  datatype : a.datatype.length < 256 ^ 2
  dataspace : a.dataspace.length < 256 ^ 2
  typed : Reads Datatype.parseAt a.datatype type
  shaped : Reads (Dataspace.parseAt sizes) a.dataspace space

end StoredAttribute

variable {sizes : Sizes} {a : StoredAttribute} {type : Datatype} {space : Dataspace}

/-- All of an attribute before its value. -/
def readFront (sizes : Sizes) : Parse (String × Datatype × Dataspace) := do
  let (nameSize, paddedName, datatypeSize, dataspaceSize) ← blockSizes
  let (name, block) ← datatypeBlock nameSize paddedName datatypeSize
  let datatype ← Session.lift (Datatype.parse block)
  let block ← Cursor.take dataspaceSize
  let dataspace ← Session.lift (Dataspace.parse sizes block)
  pure (name, datatype, dataspace)

theorem read_eq (extent : ValueExtent) :
    read sizes extent = (do
      let (name, datatype, dataspace) ← readFront sizes
      let data ← takeValue datatype dataspace extent
      pure { name, datatype, dataspace, data }) := by
  unfold read readFront
  simp only [bind_assoc, pure_bind]

theorem pad_length (block : Bytes) : (a.pad block).length =
    match a.version with
    | .one => padded8 block.length
    | .two | .three => block.length := by
  unfold StoredAttribute.pad
  cases a.version with
  | one =>
    rw [List.length_append, List.length_replicate]
    exact Nat.add_sub_cancel' (Datatype.le_padded8 _)
  | two => rfl
  | three => rfl

/-- Padding stands behind a block. -/
theorem pad_eq (block : Bytes) : ∃ zeros, a.pad block = block ++ zeros := by
  unfold StoredAttribute.pad
  cases a.version
  · exact ⟨_, rfl⟩
  · exact ⟨[], (List.append_nil block).symm⟩
  · exact ⟨[], (List.append_nil block).symm⟩

/-- A name ends at its first NUL, or with its block. -/
theorem reads_name {block padded zeros : Bytes} (split : padded = block ++ zeros) :
    Reads (readName block.length padded.length) padded (fromUtf8Lossy (untilNul block)) := by
  have name : padded.take block.length = block := by rw [split, List.take_left]
  have long : block.length ≤ padded.length := by
    rw [split, List.length_append]
    exact Nat.le_add_right _ _
  unfold readName
  refine (Cursor.reads_take padded).bind_done fun input => ?_
  have short : (untilNul block).length ≤ block.length := (List.takeWhile_sublist _).length_le
  have cut : block.take (untilNul block).length = untilNul block :=
    (List.prefix_iff_eq_take.mp (List.takeWhile_prefix _)).symm
  have stop : (if (untilNul block).length = block.length then block.length else (untilNul block).length) =
      (untilNul block).length := by
    split
    · next whole => exact whole.symm
    · rfl
  have inner : padded.take (untilNul block).length = untilNul block := by
    rw [split, List.take_append_of_le_length short, cut]
  rw [name, Nat.min_eq_left long, stop, if_pos (short.trans long), inner, Session.pure_apply]

/-- The version, and the three sizes with what they take when they are padded. -/
theorem reads_blockSizes (fits : a.Fits sizes type space) :
    Reads blockSizes a.encodeSizes
      (a.name.length, (a.pad a.name).length, (a.pad a.datatype).length, (a.pad a.dataspace).length) := by
  have named := @Cursor.reads_u16 a.name.length fits.name
  have typed := @Cursor.reads_u16 a.datatype.length fits.datatype
  have shaped := @Cursor.reads_u16 a.dataspace.length fits.dataspace
  have clear : (Nat.testBit 0 0 || Nat.testBit 0 1) = false := rfl
  rw [pad_length, pad_length, pad_length]
  unfold blockSizes StoredAttribute.encodeSizes StoredAttribute.versionCode
  cases version : a.version with
  | one =>
    apply (@Cursor.reads_u8 1 (by decide)).bind
    apply (Cursor.reads_skip (littleEndian 1 0)).bind
    apply named.bind
    apply typed.bind
    refine shaped.bind_done fun input => ?_
    unfold pad8
    rw [pad8_eq fits.name, pad8_eq fits.datatype, pad8_eq fits.dataspace]
    rfl
  | two =>
    apply (@Cursor.reads_u8 2 (by decide)).bind
    apply (@Cursor.reads_u8 0 (by decide)).bind
    apply named.bind
    apply typed.bind
    refine shaped.bind_done fun input => ?_
    rfl
  | three =>
    apply (@Cursor.reads_u8 3 (by decide)).bind
    apply (@Cursor.reads_u8 0 (by decide)).bind
    apply named.bind
    apply typed.bind
    apply shaped.bind
    rw [clear]
    exact (Cursor.reads_skip (littleEndian 1 a.charset)).bind_pure fun _ => _

theorem reads_front (fits : a.Fits sizes type space) :
    Reads (readFront sizes) a.encodeFront (fromUtf8Lossy (untilNul a.name), type, space) := by
  obtain ⟨_, named⟩ := @pad_eq a a.name
  obtain ⟨typePad, typed⟩ := @pad_eq a a.datatype
  obtain ⟨spacePad, shaped⟩ := @pad_eq a a.dataspace
  have type_eq : Datatype.parse (a.pad a.datatype) = .ok type := by
    rw [typed]
    exact congrArg Prod.fst (fits.typed [] typePad)
  have space_eq : Dataspace.parse sizes (a.pad a.dataspace) = .ok space := by
    rw [shaped]
    exact congrArg Prod.fst (fits.shaped [] spacePad)
  unfold readFront StoredAttribute.encodeFront
  apply (reads_blockSizes fits).bind
  rw [← List.append_assoc]
  refine Reads.bind ((reads_name named).bind ((Cursor.reads_take (a.pad a.datatype)).bind_pure fun block =>
    (fromUtf8Lossy (untilNul a.name), block))) ?_
  apply Reads.bind_lift type_eq
  refine (Cursor.reads_take (a.pad a.dataspace)).bind_done fun input => ?_
  rw [space_eq]
  rfl

/-- A value without a length of its own is all that is left. -/
theorem takeValue_rest (before value : Bytes) :
    takeValue type space .rest ⟨before ++ value, before.length⟩ =
      (.ok value, ⟨before ++ value, (before ++ value).length⟩) := by
  have left : (before ++ value).length - before.length = value.length := by
    rw [List.length_append, Nat.add_sub_cancel_left]
  have read := Cursor.reads_take value before []
  rw [List.append_nil] at read
  dsimp only [takeValue]
  rw [Session.bind_ok (rfl : Cursor.left _ = _), Cursor.remaining, left, read, List.length_append]

/-- A message body is read with all that is left as the value. -/
theorem parse_encode (fits : a.Fits sizes type space) (rest : Bytes) :
    parse sizes (a.encode ++ rest) =
      .ok ⟨fromUtf8Lossy (untilNul a.name), type, space, a.value ++ rest⟩ := by
  have body : a.encode ++ rest = [] ++ (a.encodeFront ++ (a.value ++ rest)) := by
    rw [StoredAttribute.encode, List.append_assoc, List.nil_append]
  unfold parse
  rw [read_eq, body]
  change ((readFront sizes >>= _) ⟨[] ++ (a.encodeFront ++ (a.value ++ rest)), ([] : Bytes).length⟩).1 = _
  rw [(reads_front fits).step]
  dsimp only
  rw [Session.bind_ok (takeValue_rest _ _)]
  rfl

/-- Where records stand back to back, the dataspace says how long the value is. -/
theorem reads_record (fits : a.Fits sizes type space) (sized : space.elementCount * type.size = a.value.length)
    (small : a.value.length < wordSize) :
    Reads (parseAt sizes) a.encode ⟨fromUtf8Lossy (untilNul a.name), type, space, a.value⟩ := by
  have length : checkedMul space.elementCount type.size = some a.value.length := by
    rw [checkedMul, sized, if_pos small]
  unfold parseAt StoredAttribute.encode
  rw [read_eq]
  apply (reads_front fits).bind
  dsimp only [takeValue]
  rw [length]
  exact (Cursor.reads_take a.value).bind_pure fun data =>
    (⟨fromUtf8Lossy (untilNul a.name), type, space, data⟩ : Attribute)

end Attribute

end Attributes

end Oxcdf
