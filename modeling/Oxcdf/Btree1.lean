import Oxcdf.ChunkIndex
import Oxcdf.Foundation.Explore

/-! The reader of version 1 B-trees.

One structure indexes the children of an old-style group and the chunks of a chunked
dataset; a byte in each node says which. Both walks take the node that waits last, keep
a set of the nodes they visited, and refuse to go on past a limit.
-/

set_option autoImplicit false

namespace Oxcdf

open Foundation Foundation.Explore

namespace Btree1

def treeSignature : Bytes := [0x54, 0x52, 0x45, 0x45]

/-- Guard against cycles in a damaged file. -/
def maxNodes : Nat := 2 ^ 20

def nodeTypeGroup : Nat := 0
def nodeTypeChunk : Nat := 1

section Nodes

structure ChunkKey where
  size : Nat
  filterMask : Nat
  offset : List Nat
  deriving DecidableEq, Repr

structure Node where
  nodeType : Nat
  level : Nat
  children : List Nat
  chunkKeys : List ChunkKey
  deriving DecidableEq, Repr

/-- Signature, type, level, entries used, two sibling addresses. -/
def headerLen (sizes : Sizes) : Nat := 8 + 2 * sizes.offset

/-- The type of a node, its level, and how many entries it uses. -/
def parseNodeHeader (sizes : Sizes) (address : Nat) : Parse (Nat × Nat × Nat) := do
  let found ← Cursor.take 4
  if found ≠ treeSignature then
    Session.throw (.malformed s!"B-tree node at {address} is missing its TREE signature")
  else pure ()
  let nodeType ← Cursor.u8
  let level ← Cursor.u8
  let entriesUsed ← Cursor.u16
  let _ ← Cursor.address sizes
  let _ ← Cursor.address sizes
  pure (nodeType, level, entriesUsed)

/-- The length of a key; that of a chunk has one offset more than the dataset has axes. -/
def keyLen (build : Build) (sizes : Sizes) (rank nodeType : Nat) : Code Nat :=
  if nodeType = nodeTypeGroup then .ok sizes.length
  else if nodeType = nodeTypeChunk then do
    let axes ← build.add rank 1
    let offsets ← build.mul 8 axes
    build.add (4 + 4) offsets
  else .error (.malformed s!"B-tree node type {nodeType}")

def parseChunkKey (rank : Nat) : Parse ChunkKey := do
  let size ← Cursor.u32
  let filterMask ← Cursor.u32
  let _ ← Session.lift (ChunkIndex.withCapacity rank 8)
  let offset ← Format.times Cursor.u64 rank
  -- The final offset belongs to the element-size axis.
  Cursor.skip 8
  pure { size, filterMask, offset }

/-- A group's key is not looked at. -/
def parseKey (rank keyLen nodeType : Nat) : Parse (Option ChunkKey) :=
  if nodeType = nodeTypeGroup then do
    Cursor.skip keyLen
    pure none
  else do
    let key ← parseChunkKey rank
    pure (some key)

/-- One child and the key before it. -/
def parseEntry (sizes : Sizes) (rank keyLen nodeType : Nat) : Parse (Option ChunkKey × Nat) := do
  let key ← parseKey rank keyLen nodeType
  let child ← Cursor.addressRequired sizes "B-tree child"
  pure (key, child)

/-- `Node::read`. The trailing key bounds the last child; it names no child of its own. -/
def readNode (build : Build) (view : View) (rank address : Nat) : Code Node := do
  let header ← view.read address (headerLen view.sizes)
  let (nodeType, level, entriesUsed) ← (parseNodeHeader view.sizes address (Cursor.start header)).1
  let keyLen ← keyLen build view.sizes rank nodeType
  let keys ← build.mul (entriesUsed + 1) keyLen
  let pointers ← build.mul entriesUsed view.sizes.offset
  let bodyLen ← build.add keys pointers
  let bodyAddress ← build.add address (headerLen view.sizes)
  let body ← view.read bodyAddress bodyLen
  let entries ← (Format.times (parseEntry view.sizes rank keyLen nodeType) entriesUsed (Cursor.start body)).1
  .ok { nodeType, level, children := entries.map Prod.snd, chunkKeys := entries.filterMap Prod.fst }

end Nodes

section Walks

/-- A leaf's child is a chunk, described by the key that precedes it. -/
def ChunkKey.record (key : ChunkKey) (address : Nat) : ChunkRecord :=
  { size := key.size, filterMask := key.filterMask, offset := key.offset, address }

/-- The chunks in a node of a chunk B-tree, and the nodes below it. -/
def visitChunkNode (build : Build) (view : View) (rank address : Nat) : Code (List ChunkRecord × List Nat) := do
  let node ← readNode build view rank address
  if node.nodeType ≠ nodeTypeChunk then
    .error (.malformed s!"expected a chunk B-tree node, found node type {node.nodeType}")
  else if node.level = 0 then .ok (List.zipWith ChunkKey.record node.chunkKeys node.children, [])
  else .ok ([], node.children)

/-- The symbol table nodes in a node of a group B-tree, and the nodes below it. -/
def visitGroupNode (build : Build) (view : View) (address : Nat) : Code (List Nat × List Nat) := do
  let node ← readNode build view 0 address
  if node.nodeType ≠ nodeTypeGroup then
    .error (.malformed s!"expected a group B-tree node, found node type {node.nodeType}")
  else if node.level = 0 then .ok (node.children, [])
  else .ok ([], node.children)

/-- What a walk fails with at its limit. -/
def tooLarge (tree : String) : Error :=
  .malformed s!"{tree} B-tree is implausibly large; the file may be cyclic"

/-- The chunks below a node, and the nodes that were read, the last one first. -/
def walkChunks (build : Build) (view : View) (rank address : Nat) : Code (List ChunkRecord) × List Nat :=
  walk (visitChunkNode build view rank) maxNodes true (tooLarge "chunk") [address] [] []

/-- The symbol table nodes below a node, and the nodes that were read. Only these are counted. -/
def walkGroup (build : Build) (view : View) (address : Nat) : Code (List Nat) × List Nat :=
  walk (visitGroupNode build view) maxNodes false (tooLarge "group") [address] [] []

def readChunkIndex (build : Build) (view : View) (address rank : Nat) : Code (List ChunkRecord) := do
  let out ← (walkChunks build view rank address).1
  .ok (ChunkIndex.sortByOffset out)

/-- Walk a group B-tree and return the addresses of its symbol table nodes. -/
def readGroupNodeAddresses (build : Build) (view : View) (address : Nat) : Code (List Nat) :=
  (walkGroup build view address).1

end Walks

end Btree1

end Oxcdf
