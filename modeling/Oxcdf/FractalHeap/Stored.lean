import Oxcdf.Foundation.Doubling
import Oxcdf.Foundation.Extents
import Oxcdf.FractalHeap

/-! Fractal heaps as they are stored, and the direct blocks that one has. -/

set_option autoImplicit false

namespace Oxcdf.FractalHeap

open Foundation Foundation.Buffer Foundation.Format Foundation.Doubling

/-- A block and what hangs below it. An indirect block has a child for each place of
its table, in the order of the table; a place may be unallocated. -/
inductive StoredBlock where
  | direct (address : Nat) (payload : Bytes)
  | indirect (address : Nat) (children : List (Option StoredBlock))

def StoredBlock.address : StoredBlock → Nat
  | direct address _ => address
  | indirect address _ => address

/-- What a heap header says that its reader skips. -/
structure Bookkeeping where
  maxManagedObjectSize : Nat := 0
  nextHugeId : Nat := 0
  hugeBtreeAddress : Nat := 0
  freeSpace : Nat := 0
  freeSpaceManager : Nat := 0
  allocatedManagedSpace : Nat := 0
  directBlockIteratorOffset : Nat := 0
  hugeSize : Nat := 0
  hugeCount : Nat := 0
  tinySize : Nat := 0
  tinyCount : Nat := 0
  startingRootRows : Nat := 0

/-- A heap without filters. Its table width and its block sizes are powers of two, of
which the exponents are kept. -/
structure StoredHeap where
  headerAddress : Nat
  widthBits : Nat
  startBits : Nat
  maxDirectBits : Nat
  maxHeapSizeBits : Nat
  flags : Nat
  /-- How wide the length of an object is in its heap ID. -/
  lengthSize : Nat
  managedObjectCount : Nat
  rootRows : Nat
  root : Option StoredBlock
  bookkeeping : Bookkeeping

namespace StoredHeap

variable (heap : StoredHeap) (sizes : Sizes)

def tableWidth : Nat := 2 ^ heap.widthBits

def startingBlockSize : Nat := 2 ^ heap.startBits

def maxDirectBlockSize : Nat := 2 ^ heap.maxDirectBits

def offsetSize : Nat := (heap.maxHeapSizeBits + 7) / 8

def heapIdLen : Nat := 1 + heap.offsetSize + heap.lengthSize

def header : Header where
  heapHeaderAddress := heap.headerAddress
  heapIdLen := heap.heapIdLen
  flags := heap.flags
  ioFilterEncodedLen := 0
  managedObjectCount := heap.managedObjectCount
  tableWidth := heap.tableWidth
  startingBlockSize := heap.startingBlockSize
  maxDirectBlockSize := heap.maxDirectBlockSize
  blockOffsetSize := heap.offsetSize
  rootBlockAddress := heap.root.map StoredBlock.address
  currentRootRows := heap.rootRows

def rowSize (row : Nat) : Nat := Doubling.rowSize heap.startingBlockSize row

/-- What the first rows of a table cover. -/
def span (rows : Nat) : Nat := Doubling.span heap.tableWidth heap.startingBlockSize rows

/-- Where the block at a place of a table starts. -/
def place (entry : Nat) : Nat := Doubling.place heap.tableWidth heap.startingBlockSize entry

/-- The space of the heap that its root covers. -/
def managedSpace : Nat :=
  match heap.root with
  | none => 0
  | some (.direct ..) => heap.startingBlockSize
  | some (.indirect ..) => heap.span heap.rootRows

section Encoding

def encodeStart (signature : Bytes) : Bytes := signature ++ littleEndian 1 0

def encodeFields : Bytes :=
  let b := heap.bookkeeping
  encodeStart frhpSignature ++ (littleEndian 2 heap.heapIdLen ++
    (littleEndian 2 0 ++ (littleEndian 1 heap.flags ++
    (littleEndian 4 b.maxManagedObjectSize ++ (littleEndian sizes.length b.nextHugeId ++
    (littleEndian sizes.offset b.hugeBtreeAddress ++ (littleEndian sizes.length b.freeSpace ++
    (littleEndian sizes.offset b.freeSpaceManager ++ (littleEndian sizes.length heap.managedSpace ++
    (littleEndian sizes.length b.allocatedManagedSpace ++
      (littleEndian sizes.length b.directBlockIteratorOffset ++
    (littleEndian sizes.length heap.managedObjectCount ++ (littleEndian sizes.length b.hugeSize ++
    (littleEndian sizes.length b.hugeCount ++ (littleEndian sizes.length b.tinySize ++
    (littleEndian sizes.length b.tinyCount ++ (littleEndian 2 heap.tableWidth ++
    (littleEndian sizes.length heap.startingBlockSize ++ (littleEndian sizes.length heap.maxDirectBlockSize ++
    (littleEndian 2 heap.maxHeapSizeBits ++ (littleEndian 2 b.startingRootRows ++
    (encodeAddress sizes (heap.root.map StoredBlock.address) ++
      littleEndian 2 heap.rootRows))))))))))))))))))))))

def encodeHeader : Bytes := withChecksum (heap.encodeFields sizes)

/-- What a block starts with: the heap it belongs to and its place there. -/
def encodeFront (signature : Bytes) (offset : Nat) : Bytes :=
  (encodeStart signature ++ encodeAddress sizes (some heap.headerAddress)) ++
    littleEndian heap.offsetSize offset

/-- The checksum of a direct block stands before its payload, and is of the block with
zeros in its place. -/
def encodeDirect (offset : Nat) (payload : Bytes) : Bytes :=
  let front := heap.encodeFront sizes fhdbSignature offset
  if heap.header.checksumsDirectBlocks then
    front ++ (littleEndian 4 (Checksum.metadata (front ++ (List.replicate 4 0 ++ payload))).toNat ++ payload)
  else front ++ payload

def encodeChildren (children : List (Option StoredBlock)) : Bytes :=
  children.flatMap fun child => encodeAddress sizes (child.map StoredBlock.address)

def encodeIndirect (offset : Nat) (children : List (Option StoredBlock)) : Bytes :=
  withChecksum (heap.encodeFront sizes fhibSignature offset ++ encodeChildren sizes children)

end Encoding

/-- A block that fills a place of a size. A place that is too large for a direct block
has an indirect one, with as many rows as cover the place. -/
inductive Fills : Nat → StoredBlock → Prop
  | direct {size address : Nat} {payload : Bytes} (named : address < undefinedForWidth sizes.offset)
      (small : size ≤ heap.maxDirectBlockSize)
      (whole : heap.header.directBlockHeaderLen sizes + payload.length = size) :
      Fills size (.direct address payload)
  | indirect {size rows address : Nat} {children : List (Option StoredBlock)}
      (named : address < undefinedForWidth sizes.offset) (large : heap.maxDirectBlockSize < size)
      (some_ : 0 < rows) (covers : heap.span rows = size) (long : children.length = rows * heap.tableWidth)
      (inner : ∀ entry child, children[entry]? = some (some child) →
        Fills (heap.rowSize (entry / heap.tableWidth)) child) :
      Fills size (.indirect address children)

/-- The root is one direct block, or a table of some rows. -/
def RootFits : StoredBlock → Prop
  | .direct address payload => heap.rootRows = 0 ∧ heap.Fills sizes heap.startingBlockSize (.direct address payload)
  | .indirect address children =>
    0 < heap.rootRows ∧ address < undefinedForWidth sizes.offset ∧
      children.length = heap.rootRows * heap.tableWidth ∧
      ∀ entry child, children[entry]? = some (some child) →
        heap.Fills sizes (heap.rowSize (entry / heap.tableWidth)) child

/-- A well-formed heap whose fields hold what is to be stored in them. -/
structure Fits : Prop where
  widths : sizes.Valid
  headerAddress : heap.headerAddress < undefinedForWidth sizes.offset
  tableWidth : heap.widthBits < 16
  ordered : heap.startBits ≤ heap.maxDirectBits
  maxDirectBlockSize : heap.maxDirectBlockSize < 256 ^ sizes.length
  maxHeapSizeBits : heap.maxHeapSizeBits ≤ 64
  flags : heap.flags < 256 ^ 1
  lengthSize : heap.lengthSize ≤ 8
  managedObjectCount : heap.managedObjectCount < 256 ^ sizes.length
  rootRows : heap.rootRows < 256 ^ 2
  addressed : heap.managedSpace ≤ 2 ^ heap.maxHeapSizeBits
  managedSpace : heap.managedSpace < 256 ^ sizes.length
  root : ∀ root, heap.root = some root → heap.RootFits sizes root

variable (view : View)

/-- The file holds a block that starts at an offset of the heap, and those below it. -/
inductive Stands : Nat → StoredBlock → Prop
  | direct {offset address : Nat} {payload : Bytes}
      (block : view.Holds address (heap.encodeDirect view.sizes offset payload)) :
      Stands offset (.direct address payload)
  | indirect {offset address : Nat} {children : List (Option StoredBlock)}
      (block : view.Holds address (heap.encodeIndirect view.sizes offset children))
      (inner : ∀ entry child, children[entry]? = some (some child) → Stands (offset + heap.place entry) child) :
      Stands offset (.indirect address children)

/-- The file holds the heap. -/
structure Held : Prop where
  header : view.Holds heap.headerAddress (heap.encodeHeader view.sizes)
  root : ∀ root, heap.root = some root → heap.Stands view 0 root

mutual

/-- The payloads of the direct blocks under a block, each with the offset of the heap
that it starts at. -/
def loaded (offset : Nat) : StoredBlock → HeapBlocks
  | .direct _ payload => [(offset + heap.header.directBlockHeaderLen sizes, payload)]
  | .indirect _ children => loadedFrom offset 0 children

def loadedFrom (offset entry : Nat) : List (Option StoredBlock) → HeapBlocks
  | [] => []
  | none :: children => loadedFrom offset (entry + 1) children
  | some child :: children =>
    loaded (offset + heap.place entry) child ++ loadedFrom offset (entry + 1) children

end

/-- The payload of every allocated direct block, in heap order. -/
def blocks : HeapBlocks :=
  match heap.root with
  | none => []
  | some root => heap.loaded sizes 0 root

/-- The bytes at an offset of the heap are in one direct block: every managed object
is such bytes. -/
def Stores (offset : Nat) (bytes : Bytes) : Prop :=
  ∃ block ∈ heap.blocks sizes, ∃ skip, offset = block.1 + skip ∧ skip + bytes.length ≤ block.2.length ∧
    slice block.2 skip bytes.length = bytes ∧ bytes ≠ []

/-- The heap ID of a managed object: a flags byte, the offset and the length. -/
def heapId (offset length : Nat) : Bytes :=
  littleEndian 1 0 ++ (littleEndian heap.offsetSize offset ++ littleEndian heap.lengthSize length)

end StoredHeap

end Oxcdf.FractalHeap
