import Oxcdf.Text

/-! Element types, and the numbers that elements are read as.

Bytes of the type that is asked for are copied, and any other number is converted.
Byte order is no concern here: a read has put every element in native order.
-/

set_option autoImplicit false

namespace Oxcdf

open Foundation Foundation.Buffer Foundation.Format

section Types

/-- A netCDF type. -/
inductive DType where
  | int (width : Nat)
  | uint (width : Nat)
  | float (width : Nat)
  | char
  | string
  | fixedString (size : Nat)
  | vlen (base : DType)
  | other
  deriving DecidableEq, Repr

namespace DType

mutual

/-- The netCDF type of an HDF5 datatype. Of the width of a number only a byte is kept. -/
def of : Datatype → DType
  | ⟨_, size, class_⟩ => ofClass size class_

def ofClass (size : Nat) : DatatypeClass → DType
  | .fixedPoint _ true _ _ => .int (size % 2 ^ 8)
  | .fixedPoint _ false _ _ => .uint (size % 2 ^ 8)
  | .floatingPoint .. => .float (size % 2 ^ 8)
  -- A `char` is a string of one byte, and its length is in the dataspace.
  | .string .. => if size = 1 then .char else .fixedString size
  | .variableLength .string _ _ _ => .string
  | .variableLength .sequence base _ _ => .vlen (of base)
  | _ => .other

end

/-- The name of a type. That of a number is the type which reads it without a conversion. -/
def name : DType → String
  | .int 1 => "i8"
  | .int 2 => "i16"
  | .int 4 => "i32"
  | .int 8 => "i64"
  | .uint 1 => "u8"
  | .uint 2 => "u16"
  | .uint 4 => "u32"
  | .uint 8 => "u64"
  | .float 4 => "f32"
  | .float 8 => "f64"
  | .int n => s!"a {n}-byte signed integer"
  | .uint n => s!"a {n}-byte unsigned integer"
  | .float n => s!"a {n}-byte float"
  | .char => "char"
  | .string => "string"
  | .fixedString n => s!"a {n}-byte fixed string"
  | .vlen base =>
    let inner := base.name
    s!"a ragged array of {inner}"
  | .other => "a type this reader does not model"

end DType

/-- A type that a variable can be read as. -/
inductive Element where
  | i8 | i16 | i32 | i64
  | u8 | u16 | u32 | u64
  | f32 | f64
  deriving DecidableEq, Repr

namespace Element

def Value : Element → Type
  | .i8 => Int8
  | .i16 => Int16
  | .i32 => Int32
  | .i64 => Int64
  | .u8 => UInt8
  | .u16 => UInt16
  | .u32 => UInt32
  | .u64 => UInt64
  | .f32 => Float32
  | .f64 => Float

/-- The stored type that needs no conversion. -/
def dtype : Element → DType
  | .i8 => .int 1
  | .i16 => .int 2
  | .i32 => .int 4
  | .i64 => .int 8
  | .u8 => .uint 1
  | .u16 => .uint 2
  | .u32 => .uint 4
  | .u64 => .uint 8
  | .f32 => .float 4
  | .f64 => .float 8

def name : Element → String
  | .i8 => "i8"
  | .i16 => "i16"
  | .i32 => "i32"
  | .i64 => "i64"
  | .u8 => "u8"
  | .u16 => "u16"
  | .u32 => "u32"
  | .u64 => "u64"
  | .f32 => "f32"
  | .f64 => "f64"

def size : Element → Nat
  | .i8 | .u8 => 1
  | .i16 | .u16 => 2
  | .i32 | .u32 | .f32 => 4
  | .i64 | .u64 | .f64 => 8

/-- Decode one element from native-order bytes of exactly this type. -/
def fromNeBytes : (element : Element) → Bytes → element.Value
  | .i8, bytes => (UInt8.ofNat (ofLittleEndian bytes)).toInt8
  | .i16, bytes => (UInt16.ofNat (ofLittleEndian bytes)).toInt16
  | .i32, bytes => (UInt32.ofNat (ofLittleEndian bytes)).toInt32
  | .i64, bytes => (UInt64.ofNat (ofLittleEndian bytes)).toInt64
  | .u8, bytes => UInt8.ofNat (ofLittleEndian bytes)
  | .u16, bytes => UInt16.ofNat (ofLittleEndian bytes)
  | .u32, bytes => UInt32.ofNat (ofLittleEndian bytes)
  | .u64, bytes => UInt64.ofNat (ofLittleEndian bytes)
  | .f32, bytes => Float32.ofBits (UInt32.ofNat (ofLittleEndian bytes))
  | .f64, bytes => Float.ofBits (UInt64.ofNat (ofLittleEndian bytes))

/-- Convert from a stored signed integer: to a narrower type the low bits. -/
def fromI64 : (element : Element) → Int64 → element.Value
  | .i8, value => value.toInt8
  | .i16, value => value.toInt16
  | .i32, value => value.toInt32
  | .i64, value => value
  | .u8, value => value.toUInt64.toUInt8
  | .u16, value => value.toUInt64.toUInt16
  | .u32, value => value.toUInt64.toUInt32
  | .u64, value => value.toUInt64
  | .f32, value => value.toFloat32
  | .f64, value => value.toFloat

/-- Convert from a stored unsigned integer. -/
def fromU64 : (element : Element) → UInt64 → element.Value
  | .i8, value => value.toUInt8.toInt8
  | .i16, value => value.toUInt16.toInt16
  | .i32, value => value.toUInt32.toInt32
  | .i64, value => value.toInt64
  | .u8, value => value.toUInt8
  | .u16, value => value.toUInt16
  | .u32, value => value.toUInt32
  | .u64, value => value
  | .f32, value => value.toFloat32
  | .f64, value => value.toFloat

/-- Convert from a stored float: toward zero, and at the limits of an integer to these. -/
def fromF64 : (element : Element) → Float → element.Value
  | .i8, value => value.toInt8
  | .i16, value => value.toInt16
  | .i32, value => value.toInt32
  | .i64, value => value.toInt64
  | .u8, value => value.toUInt8
  | .u16, value => value.toUInt16
  | .u32, value => value.toUInt32
  | .u64, value => value.toUInt64
  | .f32, value => value.toFloat32
  | .f64, value => value

end Element

end Types

section Decoding

/-- `slice::chunks_exact`: windows of one width, without the rest. -/
def chunksExact (width : Nat) (bytes : Bytes) : List Bytes :=
  (List.range (bytes.length / width)).map fun i => slice bytes (i * width) width

/-- Decode a whole block of elements of exactly this type. -/
def Element.fromNeSlice (element : Element) (bytes : Bytes) : List element.Value :=
  (chunksExact element.size bytes).map element.fromNeBytes

def integerWidth (n : Nat) : Error := .unsupported s!"{n}-byte integer"

/-- Read a native-order unsigned integer of 1 to 8 bytes. -/
def readUnsigned (bytes : Bytes) : Code UInt64 :=
  let n := bytes.length
  if n = 0 ∨ n > 8 then .error (integerWidth n)
  else .ok (UInt64.ofNat (ofLittleEndian bytes))

/-- Read an integer of 1 to 8 bytes, extended from its own width when it is signed. -/
def readInteger (bytes : Bytes) (signed : Bool) : Code Int64 :=
  let n := bytes.length
  if n = 0 ∨ n > 8 then .error (integerWidth n)
  else
    let raw := UInt64.ofNat (ofLittleEndian bytes)
    if !signed then .ok raw.toInt64
    else
      let shift := 64 - n * 8
      .ok ((raw <<< UInt64.ofNat shift).toInt64 >>> Int64.ofNat shift)

def readFloat (size : Nat) (bytes : Bytes) : Code Float :=
  match size with
  | 4 => .ok (Float32.ofBits (UInt32.ofNat (ofLittleEndian bytes))).toFloat
  | 8 => .ok (Float.ofBits (UInt64.ofNat (ofLittleEndian bytes)))
  | other => .error (.unsupported s!"{other}-byte floating point")

/-- Decode the elements of a block as numbers of one type, given what is stored. -/
def RawData.getOf (raw : RawData) (element : Element) (datatype : Datatype) (what : String) :
    Code (List element.Value) :=
  let size := raw.elementSize
  -- The stored type is the one asked for.
  if DType.of datatype = element.dtype ∧ size = element.size then .ok (element.fromNeSlice raw.bytes)
  else
    let elements := (chunksExact (max size 1) raw.bytes).take raw.len
    match datatype.class_ with
    | .fixedPoint _ true _ _ => elements.mapM fun b => do
      let value ← readInteger b true
      .ok (element.fromI64 value)
    | .fixedPoint _ false _ _ => elements.mapM fun b => do
      let value ← readUnsigned b
      .ok (element.fromU64 value)
    | .floatingPoint .. => elements.mapM fun b => do
      let value ← readFloat size b
      .ok (element.fromF64 value)
    | _ => .error (.typeMismatch (DType.of datatype).name element.name what)

end Decoding

end Oxcdf
