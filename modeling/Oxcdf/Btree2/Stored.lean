import Oxcdf.Btree2.Layout
import Oxcdf.Foundation.SearchTree
import Oxcdf.FractalHeap.Stored

/-! Version 2 B-trees as they are stored, and the search tree that one is. -/

set_option autoImplicit false

namespace Oxcdf.BtreeV2

open Foundation Foundation.Buffer Foundation.Format Foundation.SearchTree

/-- Something at an address. -/
structure Placed (α : Type) where
  address : Nat
  body : α

/-- What a node of some depth holds: records, or children with records between them. -/
def Body : Nat → Type
  | 0 => List Bytes
  | depth + 1 => Branch Bytes (Placed (Body depth))

abbrev StoredNode (depth : Nat) : Type := Placed (Body depth)

namespace Body

def recordCount : (depth : Nat) → Body depth → Nat
  | 0, records => List.length records
  | _ + 1, branch => (Branch.entries branch).length

/-- The tree without the addresses of its nodes. -/
def tree : (depth : Nat) → Body depth → Tree Bytes depth
  | 0, records => records
  | depth + 1, branch => Branch.map (fun child => tree depth child.body) branch

def inOrder (depth : Nat) (body : Body depth) : List Bytes := (body.tree depth).inOrder depth

def nodes (depth : Nat) (body : Body depth) : Nat := (body.tree depth).nodes depth

variable (layout : NodeLayout) (offsetSize recordType : Nat)

/-- A pointer names the child and says how many records it holds, alone and with all below. -/
def encodePointer (depth : Nat) (child : StoredNode depth) : Bytes :=
  littleEndian offsetSize child.address ++ (littleEndian layout.maxNrecSize (child.body.recordCount depth) ++
    littleEndian (layout.childTotalSize (depth + 1)) (child.body.inOrder depth).length)

def encodeStart (signature : Bytes) : Bytes := signature ++ (littleEndian 1 0 ++ littleEndian 1 recordType)

def encode : (depth : Nat) → Body depth → Bytes
  | 0, records => withChecksum (encodeStart recordType btlfSignature ++ List.flatten records)
  | depth + 1, branch => withChecksum (encodeStart recordType btinSignature ++
      ((Branch.entries branch).flatten ++ (Branch.children branch).flatMap
        (encodePointer layout offsetSize depth)))

/-- Records have their size, and addresses and counts fit their fields. -/
def Fits (recordSize : Nat) : (depth : Nat) → Body depth → Prop
  | 0, (records : List Bytes) => ∀ record ∈ records, record.length = recordSize
  | depth + 1, branch => (∀ record ∈ Branch.entries branch, record.length = recordSize) ∧
      ∀ child ∈ Branch.children branch, child.address < 256 ^ offsetSize ∧
        child.body.recordCount depth < 256 ^ layout.maxNrecSize ∧ Fits recordSize depth child.body

/-- The file holds a node and those below it. -/
def Stands (view : View) : (depth : Nat) → StoredNode depth → Prop
  | 0, node => view.Holds node.address (node.body.encode layout view.sizes.offset recordType 0)
  | depth + 1, node =>
    view.Holds node.address (node.body.encode layout view.sizes.offset recordType (depth + 1)) ∧
      ∀ child ∈ Branch.children node.body, Stands view depth child

end Body

/-- A tree with its header. The root of a tree without records may be missing. -/
structure StoredTree where
  address : Nat
  recordType : Nat
  nodeSize : Nat
  recordSize : Nat
  depth : Nat
  splitPercent : Nat
  mergePercent : Nat
  root : Option (StoredNode depth)

namespace StoredTree

variable (tree : StoredTree) (sizes : Sizes) (layout : NodeLayout)

def rootRecords : Nat := (tree.root.map fun root => root.body.recordCount tree.depth).getD 0

/-- Every record, in order. -/
def records : List Bytes := (tree.root.map fun root => root.body.inOrder tree.depth).getD []

def nodeCount : Nat := (tree.root.map fun root => root.body.nodes tree.depth).getD 0

def encodeFields : Bytes :=
  FractalHeap.StoredHeap.encodeStart bthdSignature ++ (littleEndian 1 tree.recordType ++
    (littleEndian 4 tree.nodeSize ++ (littleEndian 2 tree.recordSize ++ (littleEndian 2 tree.depth ++
    (littleEndian 1 tree.splitPercent ++ (littleEndian 1 tree.mergePercent ++
    (encodeAddress sizes (tree.root.map Placed.address) ++ (littleEndian 2 tree.rootRecords ++
    littleEndian sizes.length tree.records.length))))))))

def encodeHeader : Bytes := withChecksum (tree.encodeFields sizes)

def header : Header where
  recordType := tree.recordType
  nodeSize := tree.nodeSize
  recordSize := tree.recordSize
  depth := tree.depth
  rootAddress := tree.root.map Placed.address
  rootRecords := tree.rootRecords

/-- A tree whose fields hold what is to be stored in them. -/
structure Fits : Prop where
  widths : sizes.Valid
  recordType : tree.recordType < 256 ^ 1
  nodeSize : nodeOverhead < tree.nodeSize ∧ tree.nodeSize < 256 ^ 4
  recordSize : 0 < tree.recordSize ∧ tree.recordSize < 256 ^ 2
  depth : tree.depth < 256 ^ 2
  rootAddress : sizes.FitsAddress (tree.root.map Placed.address)
  rootRecords : tree.rootRecords < 256 ^ 2
  root : ∀ root, tree.root = some root → root.body.Fits layout sizes.offset tree.recordSize tree.depth

/-- The file holds the tree. -/
structure Held (view : View) : Prop where
  header : view.Holds tree.address (tree.encodeHeader view.sizes)
  root : ∀ root, tree.root = some root → Body.Stands layout tree.recordType view tree.depth root

/-- The records divide what stands beside them. -/
def Ordered (lt : Bytes → Bytes → Prop) : Prop :=
  ∀ root, tree.root = some root → (root.body.tree tree.depth).Ordered lt tree.depth

end StoredTree

end Oxcdf.BtreeV2
