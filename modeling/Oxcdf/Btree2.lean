import Oxcdf.FractalHeap

/-! The reader of version 2 B-trees.

An internal node has a pointer before, between and after its records. How wide the
counts in a pointer are is not stored: it follows from how much the nodes below hold, so
that the widths are derived level by level from the leaves upwards.
-/

set_option autoImplicit false

namespace Oxcdf

open Foundation Foundation.Buffer Foundation.Format

/-- A tree with every record collected. -/
structure BtreeV2 where
  recordType : Nat
  recordSize : Nat
  records : List Bytes
  deriving DecidableEq, Repr

namespace BtreeV2

def bthdSignature : Bytes := [0x42, 0x54, 0x48, 0x44]
def btinSignature : Bytes := [0x42, 0x54, 0x49, 0x4e]
def btlfSignature : Bytes := [0x42, 0x54, 0x4c, 0x46]

/-- Bytes of prefix and checksum around a node's records. -/
def nodeOverhead : Nat := 4 + 1 + 1 + 4

/-- Guard against a cyclic tree. -/
def maxNodes : Nat := 2 ^ 20

section Layout

/-- Bytes needed to hold a value. -/
def encSize (value : Nat) : Nat := (Nat.log2 value + 8) / 8

/-- How many records a node of some depth holds at most, alone and with all below it, and
the width of the latter. -/
structure Level where
  maxNrec : Nat
  cumMaxNrec : Nat
  cumMaxNrecSize : Nat
  deriving DecidableEq, Repr

def leafMax (nodeSize recordSize : Nat) : Nat :=
  -- A header whose nodes are no larger than the overhead is refused, so nothing is cut off here.
  (nodeSize - nodeOverhead) / recordSize

/-- Width of the number of records in a pointer. It follows from the leaves alone. -/
def maxNrecSize (nodeSize recordSize : Nat) : Nat := encSize (leafMax nodeSize recordSize)

def leafLevel (nodeSize recordSize : Nat) : Level :=
  ⟨leafMax nodeSize recordSize, leafMax nodeSize recordSize, 0⟩

/-- The level at a depth, above another one. -/
def nextLevel (build : Build) (nodeSize recordSize offsetSize depth : Nat) (below : Level) : Code Level := do
  let nrecSize := maxNrecSize nodeSize recordSize
  let pointerSize := offsetSize + nrecSize + (if depth > 1 then below.cumMaxNrecSize else 0)
  let denominator := recordSize + pointerSize
  let numerator := nodeSize - (nodeOverhead + nrecSize)
  let max := if denominator = 0 then 0 else numerator / denominator
  let pointers ← build.add max 1
  let inChildren ← build.mul pointers below.cumMaxNrec
  let cum ← build.add inChildren max
  pure ⟨max, cum, encSize cum⟩

/-- The levels up to a depth, the leaves first. -/
def deriveLevels (build : Build) (nodeSize recordSize offsetSize : Nat) : Nat → Code (List Level)
  | 0 => .ok [leafLevel nodeSize recordSize]
  | depth + 1 => do
    let levels ← deriveLevels build nodeSize recordSize offsetSize depth
    let below := levels.getD depth (leafLevel nodeSize recordSize)
    let next ← nextLevel build nodeSize recordSize offsetSize (depth + 1) below
    pure (levels ++ [next])

/-- Field widths of every depth. -/
structure NodeLayout where
  maxNrecSize : Nat
  cumMaxNrecSize : List Nat
  deriving DecidableEq, Repr

def NodeLayout.derive (build : Build) (nodeSize recordSize depth offsetSize : Nat) : Code NodeLayout := do
  let levels ← deriveLevels build nodeSize recordSize offsetSize depth
  pure ⟨BtreeV2.maxNrecSize nodeSize recordSize, levels.map Level.cumMaxNrecSize⟩

/-- Width of the number of records below a child, in a node of some depth. Leaves have no
records below them. -/
def NodeLayout.childTotalSize (layout : NodeLayout) (depth : Nat) : Nat :=
  if depth > 1 then layout.cumMaxNrecSize.getD (depth - 1) 0 else 0

def NodeLayout.pointerSize (layout : NodeLayout) (offsetSize depth : Nat) : Nat :=
  offsetSize + layout.maxNrecSize + layout.childTotalSize depth

end Layout

section Nodes

def leafLen (recordSize recordCount : Nat) : Nat := nodeOverhead + recordCount * recordSize

/-- The length of an internal node. Counts and widths are too few bits for it to leave a word. -/
def internalLen (recordSize pointerSize recordCount : Nat) : Nat :=
  nodeOverhead + recordCount * recordSize + (recordCount + 1) * pointerSize

/-- What a node starts with. Its version and its type are not looked at. -/
def expectNode (signature : Bytes) (letters node : String) : Parse Unit := do
  let found ← Cursor.take 4
  if found ≠ signature then
    Session.throw (.malformed s!"version 2 B-tree {node} is missing its {letters} signature")
  else pure ()
  Cursor.skip 2

def readPointer (offsetSize nrecSize totalSize : Nat) : Parse (Nat × Nat) := do
  let address ← Cursor.uint (offsetSize % 256)
  let records ← Cursor.uint (nrecSize % 256)
  Cursor.skipIf (0 < totalSize) totalSize
  pure (address, records)

/-- The records of a node, then its pointers: one more than records. -/
def readEntries (layout : NodeLayout) (recordSize offsetSize depth recordCount : Nat) :
    Parse (List Bytes × List (Nat × Nat)) := do
  let records ← Format.times (Cursor.take recordSize) recordCount
  let children ← Format.times (readPointer offsetSize layout.maxNrecSize (layout.childTotalSize depth))
    (recordCount + 1)
  pure (records, children)

variable (view : View) (layout : NodeLayout) (recordSize : Nat)

def readLeaf (address recordCount : Nat) : Code (List Bytes) := do
  let buf ← view.read address (leafLen recordSize recordCount)
  let (found, cursor) := expectNode btlfSignature "BTLF" "leaf" (Cursor.start buf)
  let _ ← found
  let _ ← verifyChecksum buf (buf.length - 4) "version 2 B-tree leaf"
  (Format.times (Cursor.take recordSize) recordCount cursor).1

def readInternal (address depth recordCount : Nat) : Code (List Bytes × List (Nat × Nat)) := do
  let pointerSize := layout.pointerSize view.sizes.offset depth
  let buf ← view.read address (internalLen recordSize pointerSize recordCount)
  let (found, cursor) := expectNode btinSignature "BTIN" "internal node" (Cursor.start buf)
  let _ ← found
  let _ ← verifyChecksum buf (buf.length - 4) "version 2 B-tree internal node"
  (readEntries layout recordSize view.sizes.offset depth recordCount cursor).1

end Nodes

section Collecting

/-- The records so far, and how many nodes have been visited. -/
structure Collected where
  records : List Bytes
  visited : Nat
  deriving DecidableEq, Repr

abbrev Collect (α : Type) := Session Collected Error α

/-- Count one more node. -/
def visit : Collect Unit := fun state =>
  let visited := state.visited + 1
  if visited > maxNodes then
    (.error (.malformed "version 2 B-tree has implausibly many nodes; the file may be cyclic"),
      { state with visited })
  else (.ok (), { state with visited })

def push (records : List Bytes) : Collect Unit :=
  Session.modify fun state => { state with records := state.records ++ records }

/-- In order: child, record, child, record, and so on to the last child. -/
def collectChildren (collect : Nat → Nat → Collect Unit) : List (Nat × Nat) → List Bytes → Collect Unit
  | [], _ => pure ()
  | (address, recordCount) :: children, records => do
    collect address recordCount
    push (records.take 1)
    collectChildren collect children (records.drop 1)

variable (view : View) (layout : NodeLayout) (recordSize : Nat)

/-- Read one node and, for an internal node, descend into its children. -/
def collect : Nat → Nat → Nat → Collect Unit
  | 0, address, recordCount => do
    visit
    let records ← Session.lift (readLeaf view recordSize address recordCount)
    push records
  | depth + 1, address, recordCount => do
    visit
    let (records, children) ← Session.lift (readInternal view layout recordSize address (depth + 1) recordCount)
    collectChildren (collect depth) children records

end Collecting

section Reading

structure Header where
  recordType : Nat
  nodeSize : Nat
  recordSize : Nat
  depth : Nat
  rootAddress : Option Nat
  rootRecords : Nat
  deriving DecidableEq, Repr

def headerLen (sizes : Sizes) : Nat :=
  4 + 1 + 1 + 4 + 2 + 2 + 1 + 1 + sizes.offset + 2 + sizes.length + 4

def parseFields (sizes : Sizes) : Parse Header := do
  FractalHeap.expectStart bthdSignature "BTHD" "version 2 B-tree header"
  let recordType ← Cursor.u8
  let nodeSize ← Cursor.u32
  let recordSize ← Cursor.u16
  let depth ← Cursor.u16
  -- The percentages at which nodes are split and merged.
  let _ ← Cursor.u8
  let _ ← Cursor.u8
  let rootAddress ← Cursor.address sizes
  let rootRecords ← Cursor.u16
  let _ ← Cursor.length sizes
  pure ⟨recordType, nodeSize, recordSize, depth, rootAddress, rootRecords⟩

def parseHeader (sizes : Sizes) : Parse Header := do
  let header ← parseFields sizes
  FractalHeap.Header.expectChecksum "version 2 B-tree header"
  if header.recordSize = 0 ∨ header.nodeSize ≤ nodeOverhead then
    Session.throw (.malformed "version 2 B-tree declares an impossible node or record size")
  else pure header

def readHeader (view : View) (address : Nat) : Code Header := do
  let buf ← view.readUpto address (headerLen view.sizes)
  (parseHeader view.sizes (Cursor.start buf)).1

def collectRoot (view : View) (layout : NodeLayout) (header : Header) : Code (List Bytes) :=
  match header.rootAddress with
  | none => .ok []
  | some root =>
    let (found, state) := collect view layout header.recordSize header.depth root header.rootRecords ⟨[], 0⟩
    found >>= fun _ => .ok state.records

/-- Read the tree whose header is at an address. -/
def read (build : Build) (view : View) (address : Nat) : Code BtreeV2 := do
  let header ← readHeader view address
  let layout ← NodeLayout.derive build header.nodeSize header.recordSize header.depth view.sizes.offset
  let records ← collectRoot view layout header
  .ok ⟨header.recordType, header.recordSize, records⟩

end Reading

end BtreeV2

end Oxcdf
