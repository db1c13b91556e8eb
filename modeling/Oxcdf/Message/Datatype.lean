import Oxcdf.Datatype

/-! The datatype message. Nested types (compound members, bases of arrays,
enumerations and sequences) are encoded inline, so the parser is resumable: it
leaves the cursor just past the datatype. -/

set_option autoImplicit false

namespace Oxcdf

open Foundation

def compoundOffsetWidth (size : Nat) : Nat :=
  if size = 0 then 1
  else
    let log2 := Nat.log2 size
    max ((log2 + 7) / 8) 1

def stringPad (code : Nat) : Code StringPad :=
  match code with
  | 0 => .ok .nullTerminate
  | 1 => .ok .nullPad
  | 2 => .ok .spacePad
  | other => .error (.malformed s!"string padding code {other}")

def charSet (code : Nat) : Code CharSet :=
  match code with
  | 0 => .ok .ascii
  | 1 => .ok .utf8
  | other => .error (.unsupported s!"character set code {other}")

/-- `u32::saturating_mul`. -/
def saturatingMul32 (x y : Nat) : Nat := min (x * y) (2 ^ 32 - 1)

namespace Datatype

def parseFixedPoint (bitfield : Nat) : Parse DatatypeClass := do
  let order := if bitfield.testBit 0 then ByteOrder.big else .little
  let signed := bitfield.testBit 3
  let bitOffset ← Cursor.u16
  let bitPrecision ← Cursor.u16
  pure (.fixedPoint order signed bitOffset bitPrecision)

/-- Bit 0 is the low bit of the byte order and bit 6 the high one. -/
def floatOrder (bitfield : Nat) : Code ByteOrder :=
  match bitfield.testBit 6, bitfield.testBit 0 with
  | false, false => .ok .little
  | false, true => .ok .big
  | true, _ => .error (.unsupported "VAX-order floating point (mixed-endian)")

def parseFloatingPoint (bitfield : Nat) : Parse DatatypeClass := do
  let order ← Session.lift (floatOrder bitfield)
  let signLocation := bitfield / 2 ^ 8 % 2 ^ 8
  let bitOffset ← Cursor.u16
  let bitPrecision ← Cursor.u16
  let exponentLocation ← Cursor.u8
  let exponentSize ← Cursor.u8
  let mantissaLocation ← Cursor.u8
  let mantissaSize ← Cursor.u8
  let exponentBias ← Cursor.u32
  pure (.floatingPoint order bitOffset bitPrecision exponentLocation exponentSize mantissaLocation
    mantissaSize exponentBias signLocation)

def parseString (bitfield : Nat) : Parse DatatypeClass := do
  let pad ← Session.lift (stringPad (bitfield % 2 ^ 4))
  let charset ← Session.lift (charSet (bitfield / 2 ^ 4 % 2 ^ 4))
  pure (.string pad charset)

/-- The low byte of the bit field is the length of the tag, padding included. -/
def parseOpaque (bitfield : Nat) : Parse DatatypeClass := do
  let raw ← Cursor.take (bitfield % 2 ^ 8)
  pure (.opaqueBlob (fromUtf8Lossy (untilNul raw)))

section Nested

/-! The parsers of nested types take the parser of a whole type. -/

variable (parseAt : Parse Datatype)

/-- What a version 1 member declares before its type: its name, its offset, and
the rank and dimensions of an inline array. -/
def memberHeaderV1 : Parse (String × Nat × Nat × List Nat) := do
  let name ← Cursor.cstringPadded 8
  let offset ← Cursor.u32
  let rank ← Cursor.u8
  Cursor.skip 3
  Cursor.skip 4
  Cursor.skip 4
  let dims ← Format.times Cursor.u32 4
  pure (name, offset, rank, dims)

/-- `dims[..rank]`. -/
def leadingDims (dims : List Nat) (rank : Nat) : Code (List Nat) :=
  if rank ≤ dims.length then .ok (dims.take rank) else .panic .index

/-- The type of a version 1 member. A rank of zero means a plain scalar. -/
def inlineArray (version rank : Nat) (dims : List Nat) (base : Datatype) : Code Datatype :=
  if rank = 0 then .ok base
  else do
    let dims ← leadingDims dims rank
    .ok { version, size := dims.foldl saturatingMul32 base.size, class_ := .array dims base }

def parseMemberV1 (version : Nat) : Parse CompoundMember := do
  let (name, offset, rank, dims) ← memberHeaderV1
  let base ← parseAt
  let datatype ← Session.lift (inlineArray version rank dims base)
  pure { name, offset, datatype }

def parseMemberV2 : Parse CompoundMember := do
  let name ← Cursor.cstringPadded 8
  let offset ← Cursor.u32
  let datatype ← parseAt
  pure { name, offset, datatype }

/-- The offset field is only as wide as the compound's own size needs. -/
def parseMemberV3 (size : Nat) : Parse CompoundMember := do
  let name ← Cursor.cstring
  let offset ← Cursor.uint (compoundOffsetWidth size)
  let datatype ← parseAt
  pure { name, offset, datatype }

def parseMember (version size : Nat) : Parse CompoundMember :=
  match version with
  | 1 => parseMemberV1 parseAt version
  | 2 => parseMemberV2 parseAt
  | 3 | 4 => parseMemberV3 parseAt size
  | other => Session.throw (.unsupported s!"compound datatype version {other}")

def parseCompound (version bitfield size : Nat) : Parse DatatypeClass := do
  let members ← Format.times (parseMember parseAt version size) (bitfield % 2 ^ 16)
  pure (.compound members)

def parseName (version : Nat) : Parse String :=
  if version ≥ 3 then Cursor.cstring else Cursor.cstringPadded 8

def parseEnum (version bitfield : Nat) : Parse DatatypeClass := do
  let count := bitfield % 2 ^ 16
  let base ← parseAt
  let names ← Format.times (parseName version) count
  let values ← Format.times (Cursor.take base.size) count
  pure (.enumeration base names values)

def vlenKind (code : Nat) : Code VlenKind :=
  match code with
  | 0 => .ok .sequence
  | 1 => .ok .string
  | other => .error (.malformed s!"variable-length datatype flavour {other}")

def parseVlen (bitfield : Nat) : Parse DatatypeClass := do
  let kind ← Session.lift (vlenKind (bitfield % 2 ^ 4))
  let pad ← Session.lift (stringPad (bitfield / 2 ^ 4 % 2 ^ 4))
  let charset ← Session.lift (charSet (bitfield / 2 ^ 8 % 2 ^ 4))
  let base ← parseAt
  pure (.variableLength kind base pad charset)

/-- Version 2 has reserved bytes and permutation indices around the dimensions. -/
def arrayDims (version : Nat) : Parse (List Nat) := do
  let rank ← Cursor.u8
  Cursor.skipIf (version == 2) 3
  let dims ← Format.times Cursor.u32 rank
  Cursor.skipEach (version == 2) rank 4
  pure dims

def parseArray (version : Nat) : Parse DatatypeClass := do
  let dims ← arrayDims version
  let base ← parseAt
  pure (.array dims base)

def parseClass (version class_ bitfield size : Nat) : Parse DatatypeClass :=
  match class_ with
  | 0 => parseFixedPoint bitfield
  | 1 => parseFloatingPoint bitfield
  | 3 => parseString bitfield
  | 5 => parseOpaque bitfield
  | 6 => parseCompound parseAt version bitfield size
  | 7 => pure (.reference (bitfield % 2 ^ 4))
  | 8 => parseEnum parseAt version bitfield
  | 9 => parseVlen parseAt bitfield
  | 10 => parseArray parseAt version
  -- Class 2 is Time and class 4 is Bit field.
  | other => pure (.unsupported other)

/-- The bit field and the size, after a byte with the class and the version. -/
def parseFields (classAndVersion : Nat) : Parse (Nat × Nat × Nat × Nat) :=
  let version := classAndVersion / 2 ^ 4
  if version = 0 ∨ version > 4 then
    Session.throw (.malformed s!"datatype message version {version}")
  else do
    let bits0 ← Cursor.u8
    let bits1 ← Cursor.u8
    let bits2 ← Cursor.u8
    let size ← Cursor.u32
    pure (version, classAndVersion % 2 ^ 4, bits0 + bits1 * 2 ^ 8 + bits2 * 2 ^ 16, size)

/-- What every datatype starts with: version, class, bit field and size. -/
def parseHeader : Parse (Nat × Nat × Nat × Nat) := do
  let classAndVersion ← Cursor.u8
  parseFields classAndVersion

/-- One datatype, given the parser of the types inside it. -/
def parseWith : Parse Datatype := do
  let (version, class_, bitfield, size) ← parseHeader
  let class_ ← parseClass parseAt version class_ bitfield size
  pure { version, size, class_ }

end Nested

/-- The recursion of the parser, to a depth. Every level takes eight bytes, so a
depth of the bytes left is never reached. -/
def parseTo : Nat → Parse Datatype
  | 0 => fun cursor => (.error (Cursor.oob cursor.pos 1 cursor.buf.length), cursor)
  | depth + 1 => parseWith (parseTo depth)

def parseAt : Parse Datatype := fun cursor => parseTo (cursor.remaining + 1) cursor

/-- Parse a datatype message body. -/
def parse (data : Bytes) : Code Datatype := (parseAt (Cursor.start data)).1

end Datatype

end Oxcdf
