import Oxcdf.Message.Dataspace
import Oxcdf.Message.Datatype

/-! The attribute message: one named value with its type and shape inline. -/

set_option autoImplicit false

namespace Oxcdf

open Foundation

structure Attribute where
  name : String
  datatype : Datatype
  dataspace : Dataspace
  /-- The value, in the byte order of the file. -/
  data : Bytes

/-- How much after the dataspace belongs to the value. -/
inductive ValueExtent where
  /-- All that is left: the caller bounded the body. -/
  | rest
  /-- What the dataspace and the datatype imply: records sit back to back. -/
  | computed
  deriving DecidableEq, Repr

namespace Attribute

def valueTooLong : Error := .malformed "attribute value length overflows a machine word"

def takeValue (datatype : Datatype) (dataspace : Dataspace) (extent : ValueExtent) : Parse Bytes :=
  match extent with
  | .rest => do
    let left ← Cursor.left
    Cursor.take left
  | .computed => do
    let len ← Session.lift (Outcome.ofOption valueTooLong
      (checkedMul dataspace.elementCount datatype.size))
    Cursor.take len

/-- Read a name of `size` bytes, padded to so many. -/
def readName (size padded : Nat) : Parse String := do
  let raw ← Cursor.take padded
  let text := untilNul (raw.take size)
  let stop := if text.length = (raw.take size).length then min size raw.length else text.length
  if stop ≤ raw.length then pure (fromUtf8Lossy (raw.take stop)) else Session.lift (.panic .index)

/-- `n.div_ceil(8) * 8`. -/
def pad8 (n : Nat) : Parse Nat := Cursor.product ((n + 7) / 8) 8

/-- Version 1 pads each of the three blocks to a multiple of eight bytes: the size
of the name, and the three sizes with their padding. -/
def sizesV1 : Parse (Nat × Nat × Nat × Nat) := do
  Cursor.skip 1
  let nameSize ← Cursor.u16
  let datatypeSize ← Cursor.u16
  let dataspaceSize ← Cursor.u16
  let paddedName ← pad8 nameSize
  let paddedDatatype ← pad8 datatypeSize
  let paddedDataspace ← pad8 dataspaceSize
  pure (nameSize, paddedName, paddedDatatype, paddedDataspace)

/-- Versions 2 and 3 store the three blocks unpadded. -/
def sizesV2V3 (version : Nat) : Parse (Nat × Nat × Nat × Nat) := do
  let flags ← Cursor.u8
  let nameSize ← Cursor.u16
  let datatypeSize ← Cursor.u16
  let dataspaceSize ← Cursor.u16
  if flags.testBit 0 || flags.testBit 1 then
    Session.throw (.unsupported "attribute with a shared datatype or dataspace")
  else do
    -- Version 3 names the character set of the name.
    Cursor.skipIf (version == 3) 1
    pure (nameSize, nameSize, datatypeSize, dataspaceSize)

def blockSizes : Parse (Nat × Nat × Nat × Nat) := do
  let version ← Cursor.u8
  match version with
  | 1 => sizesV1
  | 2 | 3 => sizesV2V3 version
  | other => Session.throw (.unsupported s!"attribute message version {other}")

/-- The name, and the block with the datatype. -/
def datatypeBlock (nameSize paddedName datatypeSize : Nat) : Parse (String × Bytes) := do
  let name ← readName nameSize paddedName
  let block ← Cursor.take datatypeSize
  pure (name, block)

/-- The three blocks and the value. -/
def read (sizes : Sizes) (extent : ValueExtent) : Parse Attribute := do
  let (nameSize, paddedName, datatypeSize, dataspaceSize) ← blockSizes
  let (name, block) ← datatypeBlock nameSize paddedName datatypeSize
  let datatype ← Session.lift (Datatype.parse block)
  let block ← Cursor.take dataspaceSize
  let dataspace ← Session.lift (Dataspace.parse sizes block)
  let data ← takeValue datatype dataspace extent
  pure { name, datatype, dataspace, data }

/-- Parse a whole attribute message body. -/
def parse (sizes : Sizes) (body : Bytes) : Code Attribute := (read sizes .rest (Cursor.start body)).1

/-- Parse one attribute at the cursor, leaving it on the next record. -/
def parseAt (sizes : Sizes) : Parse Attribute := read sizes .computed

end Attribute

end Oxcdf
