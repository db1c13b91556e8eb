import Oxcdf.Cursor
import Oxcdf.Hyperslab

/-! The dataspace message: the shape of a dataset or of an attribute. -/

set_option autoImplicit false

namespace Oxcdf

open Foundation

inductive DataspaceKind where
  | scalar
  | simple
  | null
  deriving DecidableEq, Repr

structure Dataspace where
  kind : DataspaceKind
  dims : List Nat
  /-- A maximum with all bits set marks an unlimited dimension. -/
  maxDims : Option (List Nat)
  deriving DecidableEq, Repr

namespace Dataspace

/-- A scalar holds one element; a null dataspace holds none. -/
def elementCount (space : Dataspace) : Nat :=
  match space.kind with
  | .null => 0
  | .scalar => 1
  | .simple => Oxcdf.elementCount space.dims

def readDims (sizes : Sizes) (rank : Nat) : Parse (List Nat) := Format.times (Cursor.length sizes) rank

def readMaxDims (sizes : Sizes) (present : Bool) (rank : Nat) : Parse (Option (List Nat)) :=
  if present then do
    let dims ← readDims sizes rank
    pure (some dims)
  else pure none

/-- Version 1 has no type field: rank zero means a scalar. -/
def parseV1 (sizes : Sizes) : Parse Dataspace := do
  let rank ← Cursor.u8
  let flags ← Cursor.u8
  Cursor.skip 1
  Cursor.skip 4
  let dims ← readDims sizes rank
  let maxDims ← readMaxDims sizes (flags.testBit 0) rank
  -- Permutation indices were never implemented, so their values mean nothing.
  Cursor.skipEach (flags.testBit 1) rank sizes.length
  pure { kind := if rank = 0 then .scalar else .simple, dims, maxDims }

def kindOf (code : Nat) : Code DataspaceKind :=
  match code with
  | 0 => .ok .scalar
  | 1 => .ok .simple
  | 2 => .ok .null
  | other => .error (.malformed s!"dataspace type {other}")

def parseV2 (sizes : Sizes) : Parse Dataspace := do
  let rank ← Cursor.u8
  let flags ← Cursor.u8
  let code ← Cursor.u8
  let kind ← Session.lift (kindOf code)
  let dims ← readDims sizes rank
  let maxDims ← readMaxDims sizes (flags.testBit 0) rank
  pure { kind, dims, maxDims }

def parseAt (sizes : Sizes) : Parse Dataspace := do
  let version ← Cursor.u8
  match version with
  | 1 => parseV1 sizes
  | 2 => parseV2 sizes
  | other => Session.throw (.unsupported s!"dataspace message version {other}")

/-- Parse a dataspace message body. -/
def parse (sizes : Sizes) (data : Bytes) : Code Dataspace := (parseAt sizes (Cursor.start data)).1

end Dataspace

end Oxcdf
