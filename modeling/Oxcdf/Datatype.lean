import Oxcdf.Cursor

/-! The datatype descriptor: how to interpret the bytes of one element. -/

set_option autoImplicit false

namespace Oxcdf

inductive ByteOrder where
  | little
  | big
  deriving DecidableEq, Repr

inductive StringPad where
  | nullTerminate
  | nullPad
  | spacePad
  deriving DecidableEq, Repr

inductive CharSet where
  | ascii
  | utf8
  deriving DecidableEq, Repr

inductive VlenKind where
  | sequence
  | string
  deriving DecidableEq, Repr

mutual

/-- A parsed datatype: its message version, the width of one element and the
class-specific detail. -/
structure Datatype where
  version : Nat
  size : Nat
  class_ : DatatypeClass

inductive DatatypeClass where
  | fixedPoint (order : ByteOrder) (signed : Bool) (bitOffset bitPrecision : Nat)
  | floatingPoint (order : ByteOrder) (bitOffset bitPrecision exponentLocation exponentSize
      mantissaLocation mantissaSize exponentBias signLocation : Nat)
  | string (pad : StringPad) (charset : CharSet)
  | opaqueBlob (tag : String)
  | compound (members : List CompoundMember)
  | reference (kind : Nat)
  | enumeration (base : Datatype) (names : List String) (values : List Bytes)
  | variableLength (kind : VlenKind) (base : Datatype) (pad : StringPad) (charset : CharSet)
  | array (dims : List Nat) (base : Datatype)
  | unsupported (class_ : Nat)

structure CompoundMember where
  name : String
  offset : Nat
  datatype : Datatype

end

def Datatype.byteOrder (type : Datatype) : Option ByteOrder :=
  match type.class_ with
  | .fixedPoint order .. => some order
  | .floatingPoint order .. => some order
  | _ => none

mutual

/-- Whether values of a type can be decoded. -/
def Datatype.isDecodable : Datatype → Bool
  | ⟨_, _, class_⟩ => class_.isDecodable

def DatatypeClass.isDecodable : DatatypeClass → Bool
  | .fixedPoint .. | .floatingPoint .. | .string .. | .reference _ | .enumeration ..
  | .variableLength .. | .opaqueBlob _ => true
  | .array _ base => base.isDecodable
  | .compound members => CompoundMember.areDecodable members
  | .unsupported _ => false

def CompoundMember.areDecodable : List CompoundMember → Bool
  | [] => true
  | ⟨_, _, datatype⟩ :: members => datatype.isDecodable && CompoundMember.areDecodable members

end

def DatatypeClass.isVariableLength : DatatypeClass → Bool
  | .variableLength .. => true
  | _ => false

end Oxcdf
