import Oxcdf.Datatype
import Oxcdf.Hyperslab

/-! The header of a netCDF classic file: dimensions, attributes and variable
descriptors. Every number is big-endian and every name and value is padded to a
multiple of four bytes. -/

set_option autoImplicit false

namespace Oxcdf

open Foundation Foundation.Buffer

inductive Container where
  | hdf5
  | cdf1
  | cdf2
  | cdf5
  deriving DecidableEq, Repr

namespace Classic

def ncDimension : Nat := 0x0A
def ncVariable : Nat := 0x0B
def ncAttribute : Nat := 0x0C

inductive NcType where
  | byte
  | char
  | short
  | int
  | float
  | double
  | uByte
  | uShort
  | uInt
  | int64
  | uInt64
  deriving DecidableEq, Repr

namespace NcType

def fromCode (code : Nat) : Code NcType :=
  match code with
  | 1 => .ok .byte
  | 2 => .ok .char
  | 3 => .ok .short
  | 4 => .ok .int
  | 5 => .ok .float
  | 6 => .ok .double
  | 7 => .ok .uByte
  | 8 => .ok .uShort
  | 9 => .ok .uInt
  | 10 => .ok .int64
  | 11 => .ok .uInt64
  | other => .error (.malformed s!"classic type code {other}")

/-- Width of one element in bytes. -/
def size : NcType → Nat
  | .byte | .char | .uByte => 1
  | .short | .uShort => 2
  | .int | .uInt | .float => 4
  | .double | .int64 | .uInt64 => 8

def isSignedInteger : NcType → Bool
  | .byte | .short | .int | .int64 => true
  | _ => false

/-- The canonical element descriptor. Classic files store values big-endian. -/
def toDatatype (type : NcType) : Datatype :=
  let size := type.size
  let class_ : DatatypeClass :=
    match type with
    | .char => .string .nullTerminate .ascii
    | .float | .double =>
      .floatingPoint .big 0 (size * 8) (if size = 4 then 23 else 52) (if size = 4 then 8 else 11) 0
        (if size = 4 then 23 else 52) (if size = 4 then 127 else 1023) (size * 8 - 1)
    | other => .fixedPoint .big other.isSignedInteger 0 (size * 8)
  { version := 1, size, class_ }

end NcType

structure ClassicDimension where
  name : String
  len : Nat
  isUnlimited : Bool
  deriving DecidableEq, Repr

structure ClassicAttribute where
  name : String
  ncType : NcType
  /-- Text value, for `char` attributes. -/
  text : Option String
  /-- Numeric values, widened to a double. -/
  numbers : List Float
  /-- The values as stored. -/
  raw : Bytes

structure ClassicVariable where
  name : String
  dimensions : List String
  shape : List Nat
  ncType : NcType
  datatype : Datatype
  attributes : List ClassicAttribute
  begin : Nat
  /-- Size on disk of one record, padded, for a record variable. -/
  recordSize : Nat
  isRecord : Bool

structure Header where
  dimensions : List ClassicDimension
  attributes : List ClassicAttribute
  vars : List ClassicVariable
  recordCount : Nat
  recordStride : Nat

def reverseElements (size : Nat) (bytes : Bytes) : Bytes := reverseBlocks size bytes

def signedOf (bits n : Nat) : Int := if n < 2 ^ (bits - 1) then n else (n : Int) - 2 ^ bits

/-- One native element, widened to a double. -/
def decodeNumber (type : NcType) (element : Bytes) : Float :=
  let bits := Format.ofLittleEndian element
  match type with
  | .float => (Float32.ofBits (UInt32.ofNat bits)).toFloat
  | .double => Float.ofBits (UInt64.ofNat bits)
  | .byte => (Int64.ofInt (signedOf 8 bits)).toFloat
  | .short => (Int64.ofInt (signedOf 16 bits)).toFloat
  | .int => (Int64.ofInt (signedOf 32 bits)).toFloat
  | .int64 => (Int64.ofInt (signedOf 64 bits)).toFloat
  | .uByte | .char | .uShort | .uInt | .uInt64 => (UInt64.ofNat bits).toFloat

def decodeNumbers (bytes : Bytes) (type : NcType) : List Float :=
  let size := type.size
  let count := bytes.length / size
  (List.range count).map fun i => decodeNumber type (slice bytes (i * size) size)

def beU32 : Parse Nat := do
  let bytes ← Cursor.take 4
  pure (Format.ofBigEndian bytes)

def beU64 : Parse Nat := do
  let bytes ← Cursor.take 8
  pure (Format.ofBigEndian bytes)

def pad4 (build : Build) (n : Nat) : Code Nat := build.mul ((n + 3) / 4) 4

/-- A list length, a dimension length or a dimension id. -/
def readSize (container : Container) : Parse Nat :=
  if container = .cdf5 then beU64 else beU32

/-- The position of a variable's data. -/
def readOffset (container : Container) : Parse Nat :=
  if container = .cdf1 then beU32 else beU64

/-- Skip what pads `n` bytes to a four-byte boundary. -/
def skipPad (build : Build) (n : Nat) : Parse Unit := do
  let padded ← Session.lift (pad4 build n)
  let rest ← Session.lift (build.sub padded n)
  Cursor.skip rest

/-- Names are a length, the bytes, then padding. -/
def readName (build : Build) (container : Container) : Parse String := do
  let len ← readSize container
  let raw ← Cursor.take len
  skipPad build len
  pure (fromUtf8Lossy raw)

def attributeOf (name : String) (type : NcType) (raw : Bytes) : ClassicAttribute :=
  if type = .char then
    { name, ncType := type, text := some (fromUtf8Lossy (untilNul raw)), numbers := [], raw }
  else
    let native := if type.size > 1 then reverseElements type.size raw else raw
    { name, ncType := type, text := none, numbers := decodeNumbers native type, raw }

def readAttribute (build : Build) (container : Container) : Parse ClassicAttribute := do
  let name ← readName build container
  let code ← beU32
  let type ← Session.lift (NcType.fromCode code)
  let n ← readSize container
  let bytes ← Session.lift (Outcome.ofOption
    (.malformed s!"attribute {name} claims {n} elements, which overflows a byte count")
    (checkedMul n type.size))
  let raw ← Cursor.take bytes
  skipPad build bytes
  pure (attributeOf name type raw)

def readAttributes (build : Build) (container : Container) : Parse (List ClassicAttribute) := do
  let tag ← beU32
  let count ← readSize container
  if tag ≠ ncAttribute then
    if tag ≠ 0 then Session.throw (.malformed s!"expected an attribute list, found tag {tag}")
    else pure []
  else Format.times (readAttribute build container) count

def readDimension (build : Build) (container : Container) : Parse ClassicDimension := do
  let name ← readName build container
  let len ← readSize container
  pure { name, len, isUnlimited := len == 0 }

def readDimensions (build : Build) (container : Container) : Parse (List ClassicDimension) := do
  let tag ← beU32
  let count ← readSize container
  if tag = ncDimension then Format.times (readDimension build container) count
  else if tag ≠ 0 then Session.throw (.malformed s!"expected a dimension list, found tag {tag}")
  else pure []

/-- The record dimension's length is the record count, not the stored zero. -/
def resolveLength (recordCount : Nat) (dimension : ClassicDimension) : ClassicDimension :=
  if dimension.isUnlimited then { dimension with len := recordCount } else dimension

/-- The dimensions that a variable names by position. -/
def lookupDimensions (name : String) (dimensions : List ClassicDimension) :
    List Nat → Code (List ClassicDimension)
  | [] => .ok []
  | id :: ids => do
    let d ← Outcome.ofOption
      (.malformed s!"variable {name} names dimension {id}, which does not exist") dimensions[id]?
    let rest ← lookupDimensions name dimensions ids
    .ok (d :: rest)

def readVariable (build : Build) (container : Container) (dimensions : List ClassicDimension) :
    Parse ClassicVariable := do
  let name ← readName build container
  let rank ← readSize container
  let dimIds ← Format.times (readSize container) rank
  let attributes ← readAttributes build container
  let code ← beU32
  let ncType ← Session.lift (NcType.fromCode code)
  let _vsize ← readSize container
  let begin ← readOffset container
  let found ← Session.lift (lookupDimensions name dimensions dimIds)
  let shape := found.map ClassicDimension.len
  let isRecord := (dimIds.head?.bind fun id => dimensions[id]?).any ClassicDimension.isUnlimited
  -- One record's worth of this variable, padded to four bytes.
  let recordSize ← Session.lift
    (if isRecord then pad4 build (saturatingMul (elementCount (shape.drop 1)) ncType.size) else .ok 0)
  pure
    { name, dimensions := found.map ClassicDimension.name, shape, ncType,
      datatype := ncType.toDatatype, attributes, begin, recordSize, isRecord }

def readVariables (build : Build) (container : Container) (dimensions : List ClassicDimension) :
    Parse (List ClassicVariable) := do
  let tag ← beU32
  let count ← readSize container
  if tag = ncVariable then Format.times (readVariable build container dimensions) count
  else if tag ≠ 0 then Session.throw (.malformed s!"expected a variable list, found tag {tag}")
  else pure []

def sumWords (build : Build) : Nat → List Nat → Code Nat
  | total, [] => .ok total
  | total, n :: rest => do
    let total ← build.add total n
    sumWords build total rest

/-- With exactly one record variable there is no padding between records. -/
def recordStride (build : Build) (vars : List ClassicVariable) : Code Nat :=
  match vars.filter ClassicVariable.isRecord with
  | [v] => .ok (saturatingMul (elementCount (v.shape.drop 1)) v.ncType.size)
  | recordVars => sumWords build 0 (recordVars.map ClassicVariable.recordSize)

namespace Header

def read (build : Build) (container : Container) : Parse Header := do
  Cursor.skip 4
  let recordCount ← beU32
  let stored ← readDimensions build container
  let dimensions := stored.map (resolveLength recordCount)
  let attributes ← readAttributes build container
  let vars ← readVariables build container dimensions
  let recordStride ← Session.lift (Classic.recordStride build vars)
  pure { dimensions, attributes, vars, recordCount, recordStride }

def parse (build : Build) (buf : Bytes) (container : Container) : Code Header :=
  (read build container (Cursor.start buf)).1

end Header

end Classic

end Oxcdf
