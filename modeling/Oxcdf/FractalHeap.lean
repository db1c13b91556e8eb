import Oxcdf.View

/-! The reader of fractal heaps.

A fractal heap keeps many small objects in direct blocks. Indirect blocks form a
tree over those: a table of blocks whose sizes double row by row, up to the row
from which on its blocks are indirect again. The reader loads every direct block
and then resolves heap IDs in what it has loaded.
-/

set_option autoImplicit false

namespace Oxcdf

open Foundation Foundation.Buffer Foundation.Format

/-- The payload of each direct block, with the place in the heap it starts at. -/
abbrev HeapBlocks := List (Nat × Bytes)

structure FractalHeap where
  blocks : HeapBlocks
  managedObjectCount : Nat
  heapIdLen : Nat
  offsetSize : Nat
  deriving DecidableEq, Repr

namespace FractalHeap

def frhpSignature : Bytes := [0x46, 0x52, 0x48, 0x50]
def fhdbSignature : Bytes := [0x46, 0x48, 0x44, 0x42]
def fhibSignature : Bytes := [0x46, 0x48, 0x49, 0x42]

/-- Guard against a cyclic or absurd block tree. -/
def maxBlocks : Nat := 2 ^ 20

structure Header where
  heapHeaderAddress : Nat
  heapIdLen : Nat
  flags : Nat
  ioFilterEncodedLen : Nat
  managedObjectCount : Nat
  tableWidth : Nat
  startingBlockSize : Nat
  maxDirectBlockSize : Nat
  blockOffsetSize : Nat
  rootBlockAddress : Option Nat
  currentRootRows : Nat
  deriving DecidableEq, Repr

/-- Every structure of a heap starts with four letters and version 0. -/
def expectStart (signature : Bytes) (letters what : String) : Parse Unit := do
  let found ← Cursor.take 4
  if found ≠ signature then
    Session.throw (.malformed s!"{what} is missing its {letters} signature")
  else pure ()
  let version ← Cursor.u8
  if version ≠ 0 then Session.throw (.unsupported s!"{what} version {version}") else pure ()

namespace Header

/-- The fixed part and the filter fields. -/
def maxLen (sizes : Sizes) : Nat :=
  4 + 1 + 2 + 2 + 1 + 4 + sizes.length + sizes.offset + sizes.length + sizes.offset + sizes.length * 8 + 2 +
    sizes.length * 2 + 2 + 2 + sizes.offset + 2 + sizes.length + 4 + 4

/-- The bytes before the cursor are what the checksum after them is of. -/
def expectChecksum (what : String) : Parse Unit := do
  let before ← Cursor.passed
  let stored ← Cursor.u32
  let computed := (Checksum.metadata before).toNat
  if stored ≠ computed then Session.throw (.checksumMismatch what stored computed) else pure ()

/-- What a heap with filtered blocks says of them. -/
def skipFilters (sizes : Sizes) (ioFilterEncodedLen : Nat) : Parse Unit :=
  if ioFilterEncodedLen > 0 then do
    let _ ← Cursor.length sizes
    let _ ← Cursor.u32
    Cursor.skip ioFilterEncodedLen
  else pure ()

/-- The fields of a heap header, as far as every heap has them. -/
def parseFields (sizes : Sizes) (address : Nat) : Parse Header := do
  expectStart frhpSignature "FRHP" "fractal heap header"
  let heapIdLen ← Cursor.u16
  let ioFilterEncodedLen ← Cursor.u16
  let flags ← Cursor.u8
  -- The largest managed object, the huge objects and the free space.
  let _ ← Cursor.u32
  let _ ← Cursor.length sizes
  let _ ← Cursor.address sizes
  let _ ← Cursor.length sizes
  let _ ← Cursor.address sizes
  -- The managed space, how much of it is allocated, and where to go on.
  let _ ← Cursor.length sizes
  let _ ← Cursor.length sizes
  let _ ← Cursor.length sizes
  let managedObjectCount ← Cursor.length sizes
  -- Sizes and counts of the huge and of the tiny objects.
  let _ ← Cursor.length sizes
  let _ ← Cursor.length sizes
  let _ ← Cursor.length sizes
  let _ ← Cursor.length sizes
  let tableWidth ← Cursor.u16
  let startingBlockSize ← Cursor.length sizes
  let maxDirectBlockSize ← Cursor.length sizes
  let maxHeapSizeBits ← Cursor.u16
  let _ ← Cursor.u16
  let rootBlockAddress ← Cursor.address sizes
  let currentRootRows ← Cursor.u16
  pure ⟨address, heapIdLen, flags, ioFilterEncodedLen, managedObjectCount, tableWidth, startingBlockSize,
    maxDirectBlockSize, (maxHeapSizeBits + 7) / 8, rootBlockAddress, currentRootRows⟩

def parse (sizes : Sizes) (address : Nat) : Parse Header := do
  let header ← parseFields sizes address
  skipFilters sizes header.ioFilterEncodedLen
  expectChecksum "fractal heap header"
  if header.tableWidth = 0 ∨ header.startingBlockSize = 0 then
    Session.throw (.malformed "fractal heap header declares a zero table width or block size")
  else pure header

def read (view : View) (address : Nat) : Code Header := do
  let buf ← view.readUpto address (maxLen view.sizes)
  (parse view.sizes address (Cursor.start buf)).1

/-- `n << bits` on 64 bits. Bits shifted out are lost; a shift past the width of a
word overflows. -/
def shiftLeft (build : Build) (n bits : Nat) : Code Nat :=
  if bits < 64 then .ok (n * 2 ^ bits % wordSize)
  else
    match build with
    | .debug => .panic .overflow
    | .release => .ok (n * 2 ^ (bits % 64) % wordSize)

variable (build : Build) (header : Header)

/-- Size of the blocks in a row: rows 0 and 1 both use the starting size, each later
row doubles. -/
def rowBlockSize (row : Nat) : Code Nat :=
  if row < 2 then .ok header.startingBlockSize else shiftLeft build header.startingBlockSize (row - 1)

/-- Count up to the first row with blocks larger than the largest direct block. -/
def countDirectRows : Nat → Nat → Code Nat
  | 0, row => .ok row
  | budget + 1, row => do
    let size ← header.rowBlockSize build row
    if size ≤ header.maxDirectBlockSize then countDirectRows budget (row + 1) else .ok row

/-- Number of rows whose blocks are direct; rows have 16 bits. -/
def maxDirectRows : Code Nat := header.countDirectRows build (2 ^ 16 - 1) 0

def checksumsDirectBlocks : Bool := header.flags / 2 % 2 = 1

def directBlockHeaderLen (sizes : Sizes) : Nat :=
  4 + 1 + sizes.offset + header.blockOffsetSize + (if header.checksumsDirectBlocks then 4 else 0)

end Header

variable (build : Build) (view : View) (header : Header)

def expectHeapAddress (sizes : Sizes) (block : String) : Parse Unit := do
  let heapAddress ← Cursor.addressRequired sizes s!"{block} block heap header"
  if heapAddress ≠ header.heapHeaderAddress then
    Session.throw (.malformed s!"fractal heap {block} block points at a different heap header")
  else pure ()

def expectBlock (sizes : Sizes) (signature : Bytes) (letters block : String) : Parse Unit := do
  expectStart signature letters s!"fractal heap {block} block"
  expectHeapAddress header sizes block

/-- The checksum of a direct block covers it with the checksum's own field zeroed. -/
def expectBlockChecksum (block : Bytes) : Parse Unit := do
  let checksumPos ← Cursor.position
  let stored ← Cursor.u32
  let scratch := splice block checksumPos (List.replicate 4 0)
  let computed := (Checksum.metadata scratch).toNat
  if stored ≠ computed then
    Session.throw (.checksumMismatch "fractal heap direct block" stored computed)
  else pure ()

def checkBlock (block : Bytes) : Parse Unit :=
  if header.checksumsDirectBlocks then expectBlockChecksum block else pure ()

/-- The header of a direct block: where in the heap it starts. -/
def parseDirectBlock (sizes : Sizes) (block : Bytes) : Parse Nat := do
  expectBlock header sizes fhdbSignature "FHDB" "direct"
  let blockOffset ← Cursor.uint (header.blockOffsetSize % 256)
  checkBlock header block
  pure blockOffset

def readDirectBlock (address blockSize : Nat) (out : HeapBlocks) : Code HeapBlocks :=
  if out.length > maxBlocks then
    .error (.malformed "fractal heap has implausibly many blocks; the file may be cyclic")
  else do
    let block ← view.read address blockSize
    let blockOffset ← (parseDirectBlock header view.sizes block (Cursor.start block)).1
    let payloadStart := header.directBlockHeaderLen view.sizes
    if payloadStart > block.length then
      .error (.malformed "fractal heap direct block is smaller than its own header")
    else do
      -- Offsets count the headers of blocks as well as their payloads.
      let start ← build.add blockOffset payloadStart
      .ok (out ++ [(start, block.drop payloadStart)])

/-- Visit so many children of an indirect block, from the one with a number on. -/
def readChildren (sizes : Sizes) (visit : Nat → Nat → HeapBlocks → Code HeapBlocks) :
    Nat → Nat → HeapBlocks → Parse HeapBlocks
  | _, 0, out => pure out
  | entry, count + 1, out => do
    let child ← Cursor.address sizes
    let out ← Session.lift (match child with
      | none => .ok out
      | some address => visit entry address out)
    readChildren sizes visit (entry + 1) count out

def parseIndirectBlock (sizes : Sizes) : Parse Unit := do
  expectBlock header sizes fhibSignature "FHIB" "indirect"
  Cursor.skip header.blockOffsetSize

/-- The length of an indirect block. Rows, widths and addresses are too few bits for
it to leave a word. -/
def indirectBlockLen (sizes : Sizes) (directEntries indirectEntries : Nat) : Nat :=
  4 + 1 + sizes.offset + header.blockOffsetSize + directEntries * sizes.offset +
    indirectEntries * sizes.offset + 4

def readDirectChild (entry child : Nat) (out : HeapBlocks) : Code HeapBlocks := do
  let size ← header.rowBlockSize build (entry / header.tableWidth)
  readDirectBlock build view header child size out

/-- A child indirect block covers the rows below its own size. -/
def readIndirectChild (maxDirectRows : Nat) (readIndirectBlock : Nat → Nat → HeapBlocks → Code HeapBlocks)
    (entry child : Nat) (out : HeapBlocks) : Code HeapBlocks :=
  let row := maxDirectRows + entry / header.tableWidth
  let childRows := row - maxDirectRows + 1
  readIndirectBlock child childRows out

/-- The children are read in the order of the table: direct blocks first, row by row,
then indirect blocks. -/
def readTable (maxDirectRows : Nat) (readIndirectBlock : Nat → Nat → HeapBlocks → Code HeapBlocks)
    (rows : Nat) (out : HeapBlocks) : Parse HeapBlocks := do
  let directEntries := min rows maxDirectRows * header.tableWidth
  let indirectEntries := (rows - maxDirectRows) * header.tableWidth
  let out ← readChildren view.sizes (readDirectChild build view header) 0 directEntries out
  readChildren view.sizes (readIndirectChild header maxDirectRows readIndirectBlock) 0 indirectEntries out

/-- Walk an indirect block, descending into its children. The first argument counts
the levels down to the depth at which the walk stops. -/
def readIndirectBlock : Nat → Nat → Nat → HeapBlocks → Code HeapBlocks
  | 0, _, _, _ =>
    .error (.malformed "fractal heap indirect blocks nest too deeply; the file may be cyclic")
  | levels + 1, address, rows, out => do
    let maxDirectRows ← header.maxDirectRows build
    let directEntries := min rows maxDirectRows * header.tableWidth
    let indirectEntries := (rows - maxDirectRows) * header.tableWidth
    let block ← view.read address (indirectBlockLen header view.sizes directEntries indirectEntries)
    let (found, cursor) := parseIndirectBlock header view.sizes (Cursor.start block)
    let _ ← found
    let _ ← verifyChecksum block (block.length - 4) "fractal heap indirect block"
    (readTable build view header maxDirectRows (readIndirectBlock levels) rows out cursor).1

/-- Depths up to 64 are read. -/
def maxLevels : Nat := 65

def readRoot : Code HeapBlocks :=
  match header.rootBlockAddress with
  | none => .ok []
  | some root =>
    if header.currentRootRows = 0 then
      readDirectBlock build view header root header.startingBlockSize []
    else readIndirectBlock build view header maxLevels root header.currentRootRows []

def sortBlocks (blocks : HeapBlocks) : HeapBlocks := blocks.mergeSort fun first second => first.1 ≤ second.1

/-- Read the heap whose header is at an address. -/
def read (address : Nat) : Code FractalHeap := do
  let header ← Header.read view address
  if header.ioFilterEncodedLen > 0 then .error (.unsupported "fractal heap with filtered direct blocks")
  else do
    let blocks ← readRoot build view header
    .ok ⟨sortBlocks blocks, header.managedObjectCount, header.heapIdLen, header.blockOffsetSize⟩

/-- The object at an offset of the heap, in the first block that offset is in. -/
def findObject (offset length : Nat) : HeapBlocks → Code Bytes
  | [] => .error (.malformed s!"fractal heap offset {offset} falls in no direct block")
  | (blockOffset, payload) :: blocks => do
    let stop ← build.add blockOffset payload.length
    if blockOffset ≤ offset ∧ offset < stop then do
      let start := offset - blockOffset
      let last ← build.add start length
      if last > payload.length then
        .error (.malformed "fractal heap object runs past the end of its direct block")
      else range payload start last
    else findObject offset length blocks

/-- The class of an object: bits 4 and 5 of the first byte of its ID. -/
def objectClass (flags : Nat) : Nat := flags / 16 % 4

def parseHeapId (offsetSize lengthSize : Nat) : Parse (Nat × Nat) := do
  let offset ← Cursor.uint (offsetSize % 256)
  let length ← Cursor.uint (lengthSize % 256)
  pure (offset, length)

/-- Resolve a managed-object heap ID to its bytes. -/
def get (heap : FractalHeap) (heapId : Bytes) : Code Bytes :=
  if heapId.length < heap.heapIdLen then
    let given := heapId.length
    let used := heap.heapIdLen
    .error (.malformed s!"heap ID is {given} bytes but this heap uses {used}")
  else do
    let first ← range heapId 0 1
    let kind := objectClass (ofLittleEndian first)
    if kind ≠ 0 then
      .error (.unsupported s!"fractal heap object of class {kind} (only managed objects are read)")
    else do
      let rest ← build.sub heap.heapIdLen 1
      let lengthSize ← build.sub rest heap.offsetSize
      let (offset, length) ← (parseHeapId heap.offsetSize lengthSize (Cursor.startAt heapId 1)).1
      findObject build offset length heap.blocks

end FractalHeap

end Oxcdf
