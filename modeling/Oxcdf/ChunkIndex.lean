import Oxcdf.Dataset
import Oxcdf.Hyperslab
import Oxcdf.View

/-! Version 4 chunk indexes: resolving an index into chunk records. -/

set_option autoImplicit false

namespace Oxcdf

open Foundation

namespace ChunkIndex

section Grid

/-- Number of chunks along each axis. -/
def chunkGrid (shape chunkDims : List Nat) : List Nat :=
  List.zipWith (fun d c => if c = 0 then 0 else (d + c - 1) / c) shape chunkDims

/-- The axes from the last to the first: what each takes of a chunk number, and
what is left of it. The slowest axis wraps as well. -/
def takeAxes : List Nat → List Nat → Nat → List Nat × Nat
  | extent :: grid, c :: chunkDims, index =>
    let (out, rest) := takeAxes grid chunkDims index
    let extent := max extent 1
    (rest % extent * c :: out, rest / extent)
  | _, _, index => ([], index)

/-- Element offset of chunk number `index`, in row-major chunk order. No product
overflows: each is the start of a chunk that its axis has. -/
def chunkOffset (index : Nat) (grid chunkDims : List Nat) : List Nat := (takeAxes grid chunkDims index).1

/-- Refuse a chunk count the file could not possibly hold. -/
def chunkCount (view : View) (total : Nat) : Code Nat :=
  if total > view.size then
    .error (.malformed s!"a chunk index claims {total} chunks, and the file holds {view.size} bytes")
  else .ok total

end Grid

section Elements

/-- One entry of an array-style index. -/
structure Element where
  address : Option Nat
  size : Nat
  filterMask : Nat
  deriving DecidableEq, Repr

/-- The entry of a chunk that is not stored. -/
def Element.unwritten : Element := ⟨none, 0, 0⟩

/-- The record of an element, if it has an address. An element without a size is
a whole chunk; its size is cut to 32 bits. -/
def Element.toRecord (grid chunkDims : List Nat) (unfilteredSize : Nat) (element : Element) (index : Nat) :
    Option ChunkRecord :=
  element.address.map fun address =>
    { size := if element.size = 0 then unfilteredSize % 2 ^ 32 else element.size
      filterMask := element.filterMask
      offset := chunkOffset index grid chunkDims
      address }

def elementsToRecords (elements : List Element) (grid chunkDims : List Nat) (unfilteredSize : Nat) :
    List ChunkRecord :=
  elements.zipIdx.filterMap fun (element, index) => element.toRecord grid chunkDims unfilteredSize index

def clientFilteredChunks : Nat := 1

/-- One index entry, whose shape depends on whether chunks are filtered. -/
def readElement (sizes : Sizes) (entrySize clientId : Nat) : Parse Element :=
  if clientId = clientFilteredChunks then do
    let address ← Cursor.address sizes
    let sizeWidth ← Session.lift (if sizes.offset + 4 ≤ entrySize then .ok (entrySize - (sizes.offset + 4))
      else .error (.malformed "chunk index entry is too small"))
    let size ← Cursor.uint sizeWidth
    let filterMask ← Cursor.u32
    pure { address, size := size % 2 ^ 32, filterMask }
  else do
    let address ← Cursor.address sizes
    pure { address, size := 0, filterMask := 0 }

/-- `Vec::with_capacity`, for entries of a width in memory. -/
def withCapacity (count width : Nat) : Code Unit :=
  if count * width ≤ isizeMax then .ok () else .panic .capacity

def readElements (sizes : Sizes) (count entrySize clientId : Nat) : Parse (List Element) := do
  let _ ← Session.lift (withCapacity count 24)
  Format.times (readElement sizes entrySize clientId) count

/-- The only version of the structures of both arrays. -/
def expectVersionZero (what : String) : Parse Unit := do
  let version ← Cursor.u8
  if version ≠ 0 then Session.throw (.unsupported s!"{what} version {version}") else pure ()

end Elements

section FixedArray

def fahdSignature : Bytes := [0x46, 0x41, 0x48, 0x44]
def fadbSignature : Bytes := [0x46, 0x41, 0x44, 0x42]

structure FixedArrayHeader where
  clientId : Nat
  entrySize : Nat
  pageBits : Nat
  maxEntries : Nat
  dataBlockAddress : Option Nat

def parseFixedArrayHeader (sizes : Sizes) : Parse FixedArrayHeader := do
  expectSignature fahdSignature "fixed array header"
  expectVersionZero "fixed array header"
  let clientId ← Cursor.u8
  let entrySize ← Cursor.u8
  let pageBits ← Cursor.u8
  let maxEntries ← Cursor.length sizes
  let dataBlockAddress ← Cursor.address sizes
  pure { clientId, entrySize, pageBits, maxEntries, dataBlockAddress }

/-- `1usize << bits`: a shift past the width of a word overflows. -/
def shiftOne (build : Build) (bits : Nat) : Code Nat :=
  if bits < 64 then .ok (2 ^ bits)
  else
    match build with
    | .debug => .panic .overflow
    | .release => .ok (2 ^ (bits % 64))

/-- A paged data block interleaves a bitmap and checksums for each page. -/
def refusePaged (build : Build) (header : FixedArrayHeader) : Code Unit :=
  if header.pageBits > 0 then do
    let page ← shiftOne build header.pageBits
    if header.maxEntries > page then .error (.unsupported "paged fixed array data block") else .ok ()
  else .ok ()

/-- What stands before the elements of a data block. -/
def skipFixedArrayBlock (sizes : Sizes) : Parse Unit := do
  expectSignature fadbSignature "fixed array data block"
  expectVersionZero "fixed array data block"
  Cursor.skip 1
  Cursor.skip sizes.offset

def readFixedArrayBlock (build : Build) (view : View) (header : FixedArrayHeader) (address count : Nat) :
    Code (List Element) := do
  let entries ← build.mul count header.entrySize
  let before ← build.add (4 + 1 + 1 + view.sizes.offset) entries
  let blockLen ← build.add before 4
  let block ← view.read address blockLen
  let (found, cursor) := skipFixedArrayBlock view.sizes (Cursor.start block)
  let _ ← found
  let _ ← verifyChecksum block (blockLen - 4) "fixed array data block"
  (readElements view.sizes count header.entrySize header.clientId cursor).1

def readFixedArray (build : Build) (view : View) (address expected : Nat) : Code (List Element) := do
  let headerLen := 4 + 1 + 1 + 1 + 1 + view.sizes.length + view.sizes.offset + 4
  let buf ← view.read address headerLen
  let header ← (parseFixedArrayHeader view.sizes (Cursor.start buf)).1
  let _ ← verifyChecksum buf (headerLen - 4) "fixed array header"
  match header.dataBlockAddress with
  | none => .ok []
  | some dataBlockAddress => do
    let count := min header.maxEntries (max expected header.maxEntries)
    let _ ← refusePaged build header
    readFixedArrayBlock build view header dataBlockAddress count

end FixedArray

section ExtensibleArray

def eahdSignature : Bytes := [0x45, 0x41, 0x48, 0x44]
def eaibSignature : Bytes := [0x45, 0x41, 0x49, 0x42]
def eadbSignature : Bytes := [0x45, 0x41, 0x44, 0x42]

/-- Super blocks whose data blocks the index block points at directly. -/
def sblkFirstIdx : Nat := 2

structure ExtensibleArrayHeader where
  clientId : Nat
  elementSize : Nat
  maxNelmtsBits : Nat
  indexBlockElements : Nat
  dataBlockMinElements : Nat
  maxIndexSet : Nat
  indexBlockAddress : Option Nat

def parseExtensibleArrayHeader (sizes : Sizes) : Parse ExtensibleArrayHeader := do
  expectSignature eahdSignature "extensible array header"
  expectVersionZero "extensible array header"
  let clientId ← Cursor.u8
  let elementSize ← Cursor.u8
  let maxNelmtsBits ← Cursor.u8
  let indexBlockElements ← Cursor.u8
  let dataBlockMinElements ← Cursor.u8
  -- The least number of pointers in a secondary block, and the page bits.
  let _ ← Cursor.u8
  let _ ← Cursor.u8
  -- Numbers and sizes of the secondary blocks and the data blocks.
  let _ ← Format.times (Cursor.length sizes) 4
  let maxIndexSet ← Cursor.length sizes
  let _ ← Cursor.length sizes
  let indexBlockAddress ← Cursor.address sizes
  pure ⟨clientId, elementSize, maxNelmtsBits, indexBlockElements, dataBlockMinElements, maxIndexSet,
    indexBlockAddress⟩

/-- Elements held by the single data block of super block `sblk`. -/
def dataBlockCapacity (sblk minElements : Nat) : Nat := minElements * 2 ^ ((sblk + 1) / 2)

def skipDataBlock (sizes : Sizes) (blockOffsetSize : Nat) : Parse Unit := do
  expectSignature eadbSignature "extensible array data block"
  expectVersionZero "extensible array data block"
  Cursor.skip 1
  Cursor.skip sizes.offset
  Cursor.skip blockOffsetSize

/-- Read `wanted` elements out of one extensible array data block. -/
def readDataBlock (view : View) (header : ExtensibleArrayHeader) (address wanted capacity : Nat) :
    Code (List Element) := do
  let blockOffsetSize := (header.maxNelmtsBits + 7) / 8
  let len := 4 + 1 + 1 + view.sizes.offset + blockOffsetSize + capacity * header.elementSize + 4
  let block ← view.read address len
  let (found, cursor) := skipDataBlock view.sizes blockOffsetSize (Cursor.start block)
  let _ ← found
  let _ ← verifyChecksum block (len - 4) "extensible array data block"
  (readElements view.sizes wanted header.elementSize header.clientId cursor).1

/-- Append the elements of one data block. One that is not allocated leaves its
whole run unwritten. -/
def appendDataBlock (view : View) (header : ExtensibleArrayHeader) (out : List Element)
    (sblk : Nat) (address : Option Nat) : Code (List Element) :=
  if out.length ≥ header.maxIndexSet then .ok out
  else
    let capacity := dataBlockCapacity sblk header.dataBlockMinElements
    let wanted := min capacity (header.maxIndexSet - out.length)
    match address with
    | none => .ok (out ++ List.replicate wanted .unwritten)
    | some address => do
      let elements ← readDataBlock view header address wanted capacity
      .ok (out ++ elements)

/-- The length of the index block: elements, then one address for each data block
it points at and for each super block. -/
def indexBlockLen (build : Build) (sizes : Sizes) (header : ExtensibleArrayHeader) : Code Nat := do
  let supers ← build.sub header.maxNelmtsBits (Nat.log2 header.dataBlockMinElements)
  let nsblks ← build.add 1 supers
  let totalAddresses ← build.add sblkFirstIdx nsblks
  let elements ← build.mul header.indexBlockElements header.elementSize
  let addresses ← build.mul totalAddresses sizes.offset
  let len ← build.add (4 + 1 + 1 + sizes.offset) elements
  let len ← build.add len addresses
  build.add len 4

def skipIndexBlock (sizes : Sizes) : Parse Unit := do
  expectSignature eaibSignature "extensible array index block"
  expectVersionZero "extensible array index block"
  Cursor.skip 1
  Cursor.skip sizes.offset

def readInline (sizes : Sizes) (header : ExtensibleArrayHeader) : Parse (List Element) := do
  let wanted := min header.indexBlockElements header.maxIndexSet
  let out ← readElements sizes wanted header.elementSize header.clientId
  Cursor.skip ((header.indexBlockElements - wanted) * header.elementSize)
  pure out

/-- The elements past those stored inline. -/
def readDataBlocks (view : View) (header : ExtensibleArrayHeader) (out : List Element)
    (addresses : List (Option Nat)) : Code (List Element) := do
  let out ← addresses.zipIdx.foldlM
    (fun out (address, sblk) => appendDataBlock view header out sblk address) out
  if out.length < header.maxIndexSet then
    .error (.unsupported (s!"extensible array with {header.maxIndexSet - out.length} elements beyond its " ++
      "directly addressed data blocks; secondary blocks are not implemented"))
  else .ok out

def readIndexBlock (build : Build) (view : View) (header : ExtensibleArrayHeader) (address : Nat) :
    Code (List Element) := do
  let indexLen ← indexBlockLen build view.sizes header
  let block ← view.read address indexLen
  let (found, cursor) := skipIndexBlock view.sizes (Cursor.start block)
  let _ ← found
  let _ ← verifyChecksum block (indexLen - 4) "extensible array index block"
  let (inline, cursor) := readInline view.sizes header cursor
  let out ← inline
  if out.length ≥ header.maxIndexSet then .ok out
  else do
    let addresses ← (Format.times (Cursor.address view.sizes) sblkFirstIdx cursor).1
    readDataBlocks view header out addresses

def readExtensibleArray (build : Build) (view : View) (address : Nat) : Code (List Element) := do
  let headerLen := 4 + 1 + 1 + 1 + 1 + 1 + 1 + 1 + 1 + view.sizes.length * 6 + view.sizes.offset + 4
  let buf ← view.read address headerLen
  let header ← (parseExtensibleArrayHeader view.sizes (Cursor.start buf)).1
  let _ ← verifyChecksum buf (headerLen - 4) "extensible array header"
  match header.indexBlockAddress with
  | none => .ok []
  | some indexBlockAddress =>
    if header.elementSize = 0 ∨ header.dataBlockMinElements = 0 then
      .error (.malformed "extensible array header declares a zero element or block size")
    else readIndexBlock build view header indexBlockAddress

end ExtensibleArray

section Resolving

/-- Sorted by offset, slowest axis first; equal ones keep their order. -/
def sortByOffset (records : List ChunkRecord) : List ChunkRecord :=
  records.mergeSort fun a b => decide (a.offset ≤ b.offset)

/-- The records of a version 2 B-tree store no size for a whole chunk. -/
def fillSize (storedSize : Nat) (record : ChunkRecord) : ChunkRecord :=
  if record.size = 0 then { record with size := storedSize } else record

def singleRecord (filteredSize filterMask storedSize rank address : Nat) (filtered : Bool) : ChunkRecord :=
  { size := if filtered then filteredSize % 2 ^ 32 else storedSize
    filterMask
    offset := List.replicate rank 0
    address }

/-- Chunks that sit back to back in row-major chunk order. -/
def implicitRecord (grid chunkDims : List Nat) (unfilteredSize storedSize address index : Nat) : ChunkRecord :=
  { size := storedSize
    filterMask := 0
    offset := chunkOffset index grid chunkDims
    address := saturatingAdd address (saturatingMul index unfilteredSize) }

variable (readBtree2Chunks : Nat → List Nat → Bool → Code (List ChunkRecord))

/-- The records at an address, in the order the index has them. -/
def readAt (build : Build) (view : View) (index : ChunkIndex) (address : Nat) (shape chunkDims : List Nat)
    (elementSize : Nat) (filtered : Bool) : Code (List ChunkRecord) :=
  let grid := chunkGrid shape chunkDims
  let total := elementCount grid
  let unfilteredSize := saturatingMul (elementCount chunkDims) elementSize
  let storedSize := min unfilteredSize (2 ^ 32 - 1)
  match index with
  | .singleChunk filteredSize filterMask =>
    .ok [singleRecord filteredSize filterMask storedSize shape.length address filtered]
  | .implicit => do
    let count ← chunkCount view total
    .ok ((List.range count).map (implicitRecord grid chunkDims unfilteredSize storedSize address))
  | .fixedArray _ => do
    let expected ← chunkCount view total
    let elements ← readFixedArray build view address expected
    .ok (elementsToRecords elements grid chunkDims unfilteredSize)
  | .extensibleArray .. => do
    let elements ← readExtensibleArray build view address
    .ok (elementsToRecords elements grid chunkDims unfilteredSize)
  | .btreeV2 .. => do
    let records ← readBtree2Chunks address chunkDims filtered
    .ok (records.map (fillSize storedSize))
  | .btreeV1 => .error (.malformed "a version 1 B-tree index reached the version 4 resolver")

/-- Resolve a version 4 chunk index into chunk records. -/
def read (build : Build) (view : View) (index : ChunkIndex) (address : Option Nat) (shape chunkDims : List Nat)
    (elementSize : Nat) (filtered : Bool) : Code (List ChunkRecord) :=
  match address with
  | none => .ok []
  | some address => do
    let records ← readAt readBtree2Chunks build view index address shape chunkDims elementSize filtered
    .ok (sortByOffset records)

end Resolving

end ChunkIndex

end Oxcdf
