import Oxcdf.Cursor

/-! The messages that say how a group holds its children, and an object its
attributes. -/

set_option autoImplicit false

namespace Oxcdf

open Foundation

inductive LinkTarget where
  | hard (address : Nat)
  | soft (path : String)
  | external (raw : Bytes)
  | unknown (kind : Nat) (raw : Bytes)
  deriving DecidableEq, Repr

structure Link where
  name : String
  target : LinkTarget
  creationOrder : Option Nat
  deriving DecidableEq, Repr

namespace Link

/-- A field that only some messages have. -/
def optional (present : Bool) (field : Parse Nat) : Parse (Option Nat) :=
  if present then do
    let n ← field
    pure (some n)
  else pure none

def parseRaw : Parse Bytes := do
  let len ← Cursor.u16
  Cursor.take len

def parseTarget (sizes : Sizes) (linkType : Nat) : Parse LinkTarget :=
  match linkType with
  | 0 => do
    let address ← Cursor.addressRequired sizes "hard link target"
    pure (.hard address)
  | 1 => do
    let raw ← parseRaw
    pure (.soft (fromUtf8Lossy raw))
  | 64 => do
    let raw ← parseRaw
    pure (.external raw)
  | kind => do
    let raw ← parseRaw
    pure (.unknown kind raw)

def parseAt (sizes : Sizes) : Parse Link := do
  let version ← Cursor.u8
  if version ≠ 1 then Session.throw (.unsupported s!"link message version {version}")
  else do
    let flags ← Cursor.u8
    -- Bits 0 and 1 select the width of the name-length field.
    let nameLenWidth := 2 ^ (flags % 4)
    let linkType ← optional (flags.testBit 3) Cursor.u8
    let creationOrder ← optional (flags.testBit 2) Cursor.u64
    Cursor.skipIf (flags.testBit 4) 1
    let nameLen ← Cursor.uint nameLenWidth
    let rawName ← Cursor.take nameLen
    let target ← parseTarget sizes (linkType.getD 0)
    pure { name := fromUtf8Lossy rawName, target, creationOrder }

/-- Parse a link message body. -/
def parse (sizes : Sizes) (body : Bytes) : Code Link := (parseAt sizes (Cursor.start body)).1

def hardAddress (link : Link) : Option Nat :=
  match link.target with
  | .hard address => some address
  | _ => none

end Link

structure LinkInfo where
  maxCreationIndex : Option Nat
  fractalHeapAddress : Option Nat
  nameBtreeAddress : Option Nat
  creationOrderBtreeAddress : Option Nat
  deriving DecidableEq, Repr

/-- The address of an index that only some objects have. -/
def optionalAddress (sizes : Sizes) (present : Bool) : Parse (Option Nat) :=
  if present then Cursor.address sizes else pure none

namespace LinkInfo

def parseAt (sizes : Sizes) : Parse LinkInfo := do
  let version ← Cursor.u8
  if version ≠ 0 then Session.throw (.unsupported s!"link info message version {version}")
  else do
    let flags ← Cursor.u8
    let maxCreationIndex ← Link.optional (flags.testBit 0) Cursor.u64
    let fractalHeapAddress ← Cursor.address sizes
    let nameBtreeAddress ← Cursor.address sizes
    let creationOrderBtreeAddress ← optionalAddress sizes (flags.testBit 1)
    pure { maxCreationIndex, fractalHeapAddress, nameBtreeAddress, creationOrderBtreeAddress }

/-- Parse a link info message body. -/
def parse (sizes : Sizes) (body : Bytes) : Code LinkInfo := (parseAt sizes (Cursor.start body)).1

end LinkInfo

structure AttributeInfo where
  fractalHeapAddress : Option Nat
  nameBtreeAddress : Option Nat
  creationOrderBtreeAddress : Option Nat
  deriving DecidableEq, Repr

namespace AttributeInfo

def parseAt (sizes : Sizes) : Parse AttributeInfo := do
  let version ← Cursor.u8
  if version ≠ 0 then Session.throw (.unsupported s!"attribute info message version {version}")
  else do
    let flags ← Cursor.u8
    Cursor.skipIf (flags.testBit 0) 2
    let fractalHeapAddress ← Cursor.address sizes
    let nameBtreeAddress ← Cursor.address sizes
    let creationOrderBtreeAddress ← optionalAddress sizes (flags.testBit 1)
    pure { fractalHeapAddress, nameBtreeAddress, creationOrderBtreeAddress }

/-- Parse an attribute info message body. -/
def parse (sizes : Sizes) (body : Bytes) : Code AttributeInfo := (parseAt sizes (Cursor.start body)).1

end AttributeInfo

end Oxcdf
