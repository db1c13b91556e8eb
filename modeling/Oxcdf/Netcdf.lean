import Oxcdf.Classic.Header
import Oxcdf.Message.Attribute
import Oxcdf.Text

/-! The attributes of a netCDF file, as typed values.

A classic attribute becomes the attribute message that an HDF5 file would hold, so
that one decoder serves both.
-/

set_option autoImplicit false

namespace Oxcdf

open Foundation Foundation.Buffer

inductive AttributeValue where
  | uchar (value : UInt8)
  | uchars (values : List UInt8)
  | schar (value : Int8)
  | schars (values : List Int8)
  | ushort (value : UInt16)
  | ushorts (values : List UInt16)
  | short (value : Int16)
  | shorts (values : List Int16)
  | uint (value : UInt32)
  | uints (values : List UInt32)
  | int (value : Int32)
  | ints (values : List Int32)
  | ulonglong (value : UInt64)
  | ulonglongs (values : List UInt64)
  | longlong (value : Int64)
  | longlongs (values : List Int64)
  | float (value : Float32)
  | floats (values : List Float32)
  | double (value : Float)
  | doubles (values : List Float)
  | str (text : String)
  | strs (texts : List String)
  /-- A value that is not decoded, as stored. -/
  | raw (bytes : Bytes)

structure NcAttribute where
  name : String
  value : AttributeValue

def Attribute.elementCount (attr : Attribute) : Nat := attr.dataspace.elementCount

namespace Netcdf

/-- `resolve_vlen_strings_of` in the context of an open HDF5 file. -/
abbrev VlenStrings := String → RawData → Except Error (List String)

section Elements

/-- Whether the values of an attribute need their bytes reversed. -/
def needsSwap (attr : Attribute) : Bool := attr.datatype.byteOrder = some .big

/-- How many elements an attribute holds: the dataspace says so, bounded by what is there. -/
def attributeElementCount (attr : Attribute) : Nat :=
  if attr.datatype.size = 0 then 0 else min attr.elementCount (attr.data.length / attr.datatype.size)

/-- The bytes of one element, in native order. -/
def element (attr : Attribute) (index : Nat) : Option Bytes :=
  let size := attr.datatype.size
  if size = 0 ∨ (index + 1) * size > attr.data.length then none
  else
    let bytes := slice attr.data (index * size) size
    some (if needsSwap attr then bytes.reverse else bytes)

def shortAttribute : Error := .malformed "attribute value is shorter than its datatype"

def decodeFloat (size : Nat) (bytes : Bytes) : Except Error Float :=
  match size with
  | 4 => .ok (Float32.ofBits (UInt32.ofNat (Format.ofLittleEndian bytes))).toFloat
  | 8 => .ok (Float.ofBits (UInt64.ofNat (Format.ofLittleEndian bytes)))
  | other => .error (.unsupported s!"{other}-byte float attribute")

def decodeFloats (attr : Attribute) : Except Error (List Float) :=
  (List.range (attributeElementCount attr)).mapM fun i => do
    let bytes ← (element attr i).elim (.error shortAttribute) .ok
    decodeFloat attr.datatype.size bytes

/-- A value of `size` bytes in the low bytes of a word, sign-extended when it is signed. -/
def decodeInt (signed : Bool) (size : Nat) (bytes : Bytes) : Int64 :=
  let raw := UInt64.ofNat (Format.ofLittleEndian bytes)
  if signed then
    let shift := 64 - size * 8
    (raw <<< UInt64.ofNat shift).toInt64 >>> Int64.ofNat shift
  else raw.toInt64

def decodeInts (attr : Attribute) : Except Error (List Int64) :=
  match attr.datatype.class_ with
  | .fixedPoint _ signed _ _ =>
    let size := attr.datatype.size
    if size = 0 ∨ size > 8 then .error (.unsupported s!"{size}-byte integer attribute")
    else
      (List.range (attributeElementCount attr)).mapM fun i => do
        let bytes ← (element attr i).elim (.error shortAttribute) .ok
        .ok (decodeInt signed size bytes)
  | _ => .error (.unsupported "attribute is not an integer")

/-- The values from one position on, until the data ends. -/
def textsFrom (pad : StringPad) (size : Nat) (data : Bytes) : Nat → Nat → List String
  | _, 0 => []
  | i, count + 1 =>
    let start := i * size
    let stop := min (start + size) data.length
    if start ≥ stop then [] else pad.decode
      (slice data start (stop - start)) :: textsFrom pad size data (i + 1) count

/-- Decode every value of a string attribute. -/
def decodeAllText (attr : Attribute) : Option (List String) :=
  match attr.datatype.class_ with
  | .string pad _ =>
    if attr.datatype.size = 0 then some [""]
    else some (textsFrom pad attr.datatype.size attr.data 0 (max (attributeElementCount attr) 1))
  | _ => none

end Elements

section Values

/-- One value stays singular. Several become a list. -/
def fold {α : Type} (values : List α) (single : α → AttributeValue) (plural : List α → AttributeValue) :
    AttributeValue :=
  match values with
  | [value] => single value
  | values => plural values

def foldFloats (size : Nat) (values : List Float) : Option AttributeValue :=
  match size with
  | 4 => some (fold (values.map Float.toFloat32) .float .floats)
  | 8 => some (fold values .double .doubles)
  | _ => none

def foldInts (signed : Bool) (size : Nat) (values : List Int64) : Option AttributeValue :=
  match signed, size with
  | true, 1 => some (fold (values.map Int64.toInt8) .schar .schars)
  | true, 2 => some (fold (values.map Int64.toInt16) .short .shorts)
  | true, 4 => some (fold (values.map Int64.toInt32) .int .ints)
  | true, 8 => some (fold values .longlong .longlongs)
  | false, 1 => some (fold (values.map fun v => v.toUInt64.toUInt8) .uchar .uchars)
  | false, 2 => some (fold (values.map fun v => v.toUInt64.toUInt16) .ushort .ushorts)
  | false, 4 => some (fold (values.map fun v => v.toUInt64.toUInt32) .uint .uints)
  | false, 8 => some (fold (values.map Int64.toUInt64) .ulonglong .ulonglongs)
  | _, _ => none

/-- Decode an attribute by its type, where this reader can. -/
def decodeTyped (hdf5 : Option VlenStrings) (owner : String) (attr : Attribute) : Option AttributeValue :=
  let size := attr.datatype.size
  match attr.datatype.class_ with
  -- A text is one string, however many elements the dataspace holds.
  | .string .. => (decodeAllText attr).map fun texts => .str (String.join texts)
  | .variableLength .string .. => do
    let resolve ← hdf5
    let texts ← (resolve owner ⟨attr.data, size, [attr.elementCount]⟩).toOption
    some (.strs texts)
  | .floatingPoint .. => do
    let values ← (decodeFloats attr).toOption
    foldFloats size values
  | .fixedPoint _ signed _ _ => do
    let values ← (decodeInts attr).toOption
    foldInts signed size values
  | _ => none

/-- Decode an attribute by its type. A type that is not decoded stays as its bytes. -/
def decodeValue (hdf5 : Option VlenStrings) (owner : String) (attr : Attribute) : AttributeValue :=
  (decodeTyped hdf5 owner attr).getD (.raw attr.data)

/-- The attribute message that an HDF5 file would hold for a classic attribute. -/
def messageOf (a : Classic.ClassicAttribute) : Attribute where
  name := a.name
  datatype := a.ncType.toDatatype
  dataspace := ⟨.simple, [a.raw.length / max a.ncType.size 1], none⟩
  data := a.raw

def classicAttributes (attributes : List Classic.ClassicAttribute) : List NcAttribute :=
  attributes.map fun a => ⟨a.name, decodeValue none a.name (messageOf a)⟩

end Values

end Netcdf

end Oxcdf
