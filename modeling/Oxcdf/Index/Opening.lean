import Oxcdf.Btree1
import Oxcdf.Dense
import Oxcdf.Index
import Oxcdf.Index.Dataset
import Oxcdf.LocalHeap
import Oxcdf.Netcdf.Dimensions
import Oxcdf.Superblock.Probing

/-! Opening an HDF5 file: the superblock, then the index of the groups below its root.

What indexing asks of a file is answered here from its bytes, by the readers of object
headers and of the two ways in which a group lists its children.
-/

set_option autoImplicit false

namespace Oxcdf

open Foundation

section Messages

def SymbolTable.parse (sizes : Sizes) (body : Bytes) : Code SymbolTable :=
  (parseAt (Cursor.start body)).1
where
  parseAt : Parse SymbolTable := do
    let btreeAddress ← Cursor.addressRequired sizes "group B-tree"
    let localHeapAddress ← Cursor.addressRequired sizes "group local heap"
    pure { btreeAddress, localHeapAddress }

namespace ObjectHeader

variable (header : ObjectHeader)

/-- The message of one kind, when the object has one. It is never asked whether it is shared. -/
def inlineMessage {α : Type} (kind : MessageType) (parse : Bytes → Code α) : Code (Option α) :=
  match header.messageOf kind with
  | some message => do
    let value ← parse message.data
    .ok (some value)
  | none => .ok none

def linkInfo (sizes : Sizes) : Code (Option LinkInfo) := header.inlineMessage .linkInfo (LinkInfo.parse sizes)

/-- The symbol table message, when this object is an old-style group. -/
def symbolTable (sizes : Sizes) : Code (Option SymbolTable) :=
  header.inlineMessage .symbolTable (SymbolTable.parse sizes)

/-- Every link stored inline. One that does not parse fails the group. -/
def compactLinks (sizes : Sizes) : Code (List Link) :=
  (header.messagesOf .link).mapM fun message => Link.parse sizes message.data

def isDataset : Bool := (header.messageOf .dataLayout).isSome

/-- A type that datasets point at: it holds a datatype but no values. -/
def isCommittedDatatype : Bool := (header.messageOf .datatype).isSome && (header.messageOf .dataLayout).isNone

end ObjectHeader

end Messages

section Files

variable (build : Build) (view : View)

/-- What indexing asks of a file, answered from its bytes. -/
def View.objects : Objects ObjectHeader LocalHeap DatasetEntry where
  readHeader := ObjectHeader.read build view
  isDataset := ObjectHeader.isDataset
  isCommittedDatatype := ObjectHeader.isCommittedDatatype
  readAttributes header :=
    Oxcdf.readAttributes view (fun heap index => Dense.readDenseAttributes build view heap index view.sizes) header
  buildDataset header name path address :=
    Oxcdf.buildDataset build view (fun heap index => Dense.readDenseAttributes build view heap index view.sizes)
      header name path address
  symbolTable header := header.symbolTable view.sizes
  readLocalHeap := LocalHeap.read view
  nameAt := LocalHeap.nameAt
  readGroupNodeAddresses := Btree1.readGroupNodeAddresses build view
  readSymbolTableNode := SymbolTableNode.read view
  compactLinks header := header.compactLinks view.sizes
  linkInfo header := header.linkInfo view.sizes
  readDenseLinks := Dense.readDenseLinks build view

def Superblock.viewOf (superblock : Superblock) (file : FileImage) : View where
  file := file
  baseAddress := superblock.baseAddress
  sizes := superblock.sizes

/-- Open a file over its bytes: the index of everything below its root group. -/
def Hdf5File.fromSource (file : FileImage) (strings : Netcdf.VlenStrings) : Code Hdf5File := do
  let superblock ← Superblock.read build (fileSource file)
  let view := superblock.viewOf file
  let address ← superblock.rootObjectHeaderAddress
  let root ← (view.objects build).buildRoot address
  .ok { view, root, strings }

end Files

def Hdf5File.datasets (hdf5 : Hdf5File) : List DatasetEntry := hdf5.root.datasetsRecursive

end Oxcdf
