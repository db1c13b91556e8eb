import Oxcdf.Dataset

/-! The messages that say how a dataset is stored: its layout, its filters, and
what storage that was never written reads as. -/

set_option autoImplicit false

namespace Oxcdf

open Foundation

namespace Layout

def zeroDimensionality : Error := .malformed "chunked layout declares a dimensionality of zero"

/-- Versions 1 and 2 record the shape rather than a byte count. -/
def saturatingTotal (dims : List Nat) : Nat := dims.foldl saturatingMul 1

/-- The stored entries of a chunk shape: the last is the element size. -/
def chunkShape (entry : Parse Nat) (dimensionality : Nat) : Parse (List Nat × Nat) := do
  let rank ← Session.lift (Build.debug.sub dimensionality 1)
  let chunkDims ← Format.times entry rank
  let elementSize ← entry
  pure (chunkDims, elementSize)

def parseCompact (width : Parse Nat) : Parse Layout := do
  let size ← width
  let data ← Cursor.take size
  pure (.compact data)

def parseContiguous (sizes : Sizes) : Parse Layout := do
  let address ← Cursor.address sizes
  let size ← Cursor.length sizes
  pure (.contiguous address size)

def parseV1V2 (sizes : Sizes) : Parse Layout := do
  let dimensionality ← Cursor.u8
  let class_ ← Cursor.u8
  Cursor.skip 5
  match class_ with
  | 0 => do
    let _ ← Format.times Cursor.u32 dimensionality
    parseCompact Cursor.u32
  | 1 => do
    let address ← Cursor.address sizes
    let dims ← Format.times Cursor.u32 dimensionality
    pure (.contiguous address (saturatingTotal dims))
  | 2 => do
    let address ← Cursor.address sizes
    if dimensionality = 0 then Session.throw zeroDimensionality
    else do
      let (chunkDims, elementSize) ← chunkShape Cursor.u32 dimensionality
      pure (.chunked address chunkDims elementSize .btreeV1)
  | other => Session.throw (.malformed s!"data layout class {other}")

def parseV3 (sizes : Sizes) : Parse Layout := do
  let class_ ← Cursor.u8
  match class_ with
  | 0 => parseCompact Cursor.u16
  | 1 => parseContiguous sizes
  | 2 => do
    let dimensionality ← Cursor.u8
    let address ← Cursor.address sizes
    if dimensionality = 0 then Session.throw zeroDimensionality
    else do
      let (chunkDims, elementSize) ← chunkShape Cursor.u32 dimensionality
      pure (.chunked address chunkDims elementSize .btreeV1)
  | other => Session.throw (.malformed s!"data layout class {other}")

/-- The size and mask of a single chunk are only stored when it is filtered. -/
def parseSingleChunk (sizes : Sizes) (flags : Nat) : Parse ChunkIndex :=
  if flags.testBit 1 then do
    let filteredSize ← Cursor.length sizes
    let filterMask ← Cursor.u32
    pure (.singleChunk filteredSize filterMask)
  else pure (.singleChunk 0 0)

def parseIndex (sizes : Sizes) (flags indexType : Nat) : Parse ChunkIndex :=
  match indexType with
  | 1 => parseSingleChunk sizes flags
  | 2 => pure .implicit
  | 3 => do
    let pageBits ← Cursor.u8
    pure (.fixedArray pageBits)
  | 4 => do
    let maxBits ← Cursor.u8
    let indexElements ← Cursor.u8
    let minPointers ← Cursor.u8
    let minElements ← Cursor.u8
    let pageBits ← Cursor.u8
    pure (.extensibleArray maxBits indexElements minPointers minElements pageBits)
  | 5 => do
    let nodeSize ← Cursor.u32
    let splitPercent ← Cursor.u8
    let mergePercent ← Cursor.u8
    pure (.btreeV2 nodeSize splitPercent mergePercent)
  | other => Session.throw (.unsupported s!"version 4 chunk index type {other}")

/-- `cur.uint(width)? as u32`. -/
def entryOf (width : Nat) : Parse Nat := do
  let n ← Cursor.uint width
  pure (n % 2 ^ 32)

def parseV4 (sizes : Sizes) : Parse Layout := do
  let class_ ← Cursor.u8
  match class_ with
  | 0 => parseCompact Cursor.u16
  | 1 => parseContiguous sizes
  | 2 => do
    let flags ← Cursor.u8
    let dimensionality ← Cursor.u8
    if dimensionality = 0 then Session.throw zeroDimensionality
    else do
      let dimWidth ← Cursor.u8
      let (chunkDims, elementSize) ← chunkShape (entryOf dimWidth) dimensionality
      let indexType ← Cursor.u8
      let index ← parseIndex sizes flags indexType
      let address ← Cursor.address sizes
      pure (.chunked address chunkDims elementSize index)
  | other => Session.throw (.malformed s!"data layout class {other}")

def parseAt (sizes : Sizes) : Parse Layout := do
  let version ← Cursor.u8
  match version with
  | 1 | 2 => parseV1V2 sizes
  | 3 => parseV3 sizes
  | 4 => parseV4 sizes
  | other => Session.throw (.unsupported s!"data layout message version {other}")

/-- Parse a data layout message body. -/
def parse (sizes : Sizes) (data : Bytes) : Code Layout := (parseAt sizes (Cursor.start data)).1

end Layout

namespace FillValue

/-- A size and as many bytes; a message cut short defines no value. -/
def parseValue : Parse FillValue := do
  let left ← Cursor.left
  if left < 4 then pure { bytes := none }
  else do
    let size ← Cursor.u32
    let left ← Cursor.left
    if size = 0 ∨ left < size then pure { bytes := none }
    else do
      let bytes ← Cursor.take size
      pure { bytes := some bytes }

def parseAt : Parse FillValue := do
  let version ← Cursor.u8
  match version with
  | 1 | 2 => do
    Cursor.skip 1
    Cursor.skip 1
    let defined ← Cursor.u8
    -- Version 1 always carries the value, version 2 only when it says so.
    if version = 1 ∨ defined ≠ 0 then parseValue else pure { bytes := none }
  | 3 => do
    let flags ← Cursor.u8
    if flags.testBit 5 then parseValue else pure { bytes := none }
  | other => Session.throw (.unsupported s!"fill value message version {other}")

/-- Parse a fill value message body. -/
def parse (data : Bytes) : Code FillValue := (parseAt (Cursor.start data)).1

/-- Parse the message from before it had versions. -/
def parseOld (data : Bytes) : Code FillValue := (parseValue (Cursor.start data)).1

end FillValue

namespace FilterPipeline

/-- `n.div_ceil(8) * 8`. -/
def pad8 (n : Nat) : Parse Nat := Cursor.product ((n + 7) / 8) 8

/-- Version 1 pads the name to a multiple of eight bytes. -/
def nameV1 (nameLen : Nat) : Parse String :=
  if nameLen > 0 then do
    let padded ← pad8 nameLen
    let raw ← Cursor.take padded
    -- Without a NUL the name ends where it is declared to.
    let text := untilNul raw
    let stop := if text.length = raw.length then nameLen else text.length
    if stop ≤ raw.length then pure (fromUtf8Lossy (raw.take stop)) else Session.lift (.panic .index)
  else pure ""

def parseFilterV1 : Parse Filter := do
  let id ← Cursor.u16
  let nameLen ← Cursor.u16
  let flags ← Cursor.u16
  let nClient ← Cursor.u16
  let name ← nameV1 nameLen
  let clientData ← Format.times Cursor.u32 nClient
  -- Version 1 pads the client data to a multiple of eight bytes.
  Cursor.skipIf (nClient % 2 == 1) 4
  pure { id, name, flags, clientData }

def nameV2 (nameLen : Nat) : Parse String :=
  if nameLen > 0 then do
    let raw ← Cursor.take nameLen
    pure (fromUtf8Lossy (untilNul raw))
  else pure ""

/-- Version 2 omits the name length for the filters the library defines. -/
def nameLength (id : Nat) : Parse Nat := if id < 256 then pure 0 else Cursor.u16

def parseFilterV2 : Parse Filter := do
  let id ← Cursor.u16
  let nameLen ← nameLength id
  let flags ← Cursor.u16
  let nClient ← Cursor.u16
  let name ← nameV2 nameLen
  let clientData ← Format.times Cursor.u32 nClient
  pure { id, name, flags, clientData }

def parseAt : Parse FilterPipeline := do
  let version ← Cursor.u8
  let count ← Cursor.u8
  match version with
  | 1 => do
    Cursor.skip 6
    let filters ← Format.times parseFilterV1 count
    pure { filters }
  | 2 => do
    let filters ← Format.times parseFilterV2 count
    pure { filters }
  | other => Session.throw (.unsupported s!"filter pipeline message version {other}")

/-- Parse a filter pipeline message body. -/
def parse (data : Bytes) : Code FilterPipeline := (parseAt (Cursor.start data)).1

end FilterPipeline

end Oxcdf
