import Oxcdf.Datatype
import Oxcdf.Filters
import Oxcdf.Hyperslab

/-! One dataset of an open file: its shape, its type, where its bytes live, and
what storage that was never written reads as. -/

set_option autoImplicit false

namespace Oxcdf

open Foundation Foundation.Buffer

structure ChunkRecord where
  /-- Stored size in bytes, after filters. -/
  size : Nat
  filterMask : Nat
  /-- Position of the chunk's first element on each axis. -/
  offset : List Nat
  address : Nat
  deriving DecidableEq, Repr

inductive ChunkIndex where
  | singleChunk (filteredSize filterMask : Nat)
  | implicit
  | fixedArray (pageBits : Nat)
  | extensibleArray (maxBits indexElements minPointers minElements pageBits : Nat)
  | btreeV2 (nodeSize splitPercent mergePercent : Nat)
  | btreeV1
  deriving DecidableEq, Repr

/-- Where and how a dataset's bytes are stored. -/
inductive Layout where
  | compact (data : Bytes)
  | contiguous (address : Option Nat) (size : Nat)
  | chunked (address : Option Nat) (chunkDims : List Nat) (elementSize : Nat) (index : ChunkIndex)

structure FillValue where
  bytes : Option Bytes
  deriving DecidableEq, Repr

namespace FillValue

/-- Copy what is already written over the rest, twice as much each time. The
budget bounds the number of copies. -/
def tile : Nat → Nat → Bytes → Bytes
  | 0, _, buf => buf
  | budget + 1, done, buf =>
    if done < buf.length then
      let take := min done (buf.length - done)
      tile budget (done + take) (splice buf done (slice buf 0 take))
    else buf

/-- Fill a buffer with repetitions of the fill value. -/
def fill (value : FillValue) (buf : Bytes) (elementSize : Nat) : Bytes :=
  match value.bytes with
  | none => List.replicate buf.length 0
  | some bytes =>
    if bytes = [] ∨ elementSize = 0 then List.replicate buf.length 0
    -- A fill value of another width than an element cannot be tiled.
    else if bytes.length ≠ elementSize then List.replicate buf.length 0
    else
      let head := min elementSize buf.length
      tile buf.length head (splice buf 0 (bytes.take head))

end FillValue

structure DatasetIndex where
  path : String
  shape : List Nat
  datatype : Datatype
  layout : Layout
  pipeline : FilterPipeline
  fillValue : FillValue
  /-- The resolved chunk index. -/
  chunks : Option (List ChunkRecord)

namespace DatasetIndex

/-- Single unsigned bytes without filters and without a fill value. -/
def ofBytes (shape : List Nat) (layout : Layout) (chunks : Option (List ChunkRecord)) : DatasetIndex where
  path := "/v"
  shape := shape
  datatype := { version := 1, size := 1, class_ := .fixedPoint .little false 0 8 }
  layout := layout
  pipeline := { filters := [] }
  fillValue := { bytes := none }
  chunks := chunks

def elementSize (dataset : DatasetIndex) : Nat := dataset.datatype.size

def elementCount (dataset : DatasetIndex) : Nat := Oxcdf.elementCount dataset.shape

end DatasetIndex

end Oxcdf
