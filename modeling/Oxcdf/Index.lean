import Mathlib.Data.Finset.Insert
import Oxcdf.Foundation.Session
import Oxcdf.Message.Attribute
import Oxcdf.Message.Link
import Oxcdf.Superblock

/-! Indexing the groups of a file.

The index holds one record for each group met on the way down the hard links.
One set of visited object headers is shared by the whole walk: it is passed from
sibling to sibling and never shrinks.
-/

set_option autoImplicit false

namespace Oxcdf

open Foundation

/-- Deepest group nesting indexed. -/
def maxDepth : Nat := 64

structure Child where
  name : String
  address : Nat
deriving DecidableEq

structure SymbolTable where
  btreeAddress : Nat
  localHeapAddress : Nat

/-- What indexing asks of a file: its object headers and what is reached from them. -/
structure Objects (Header Heap Dataset : Type) where
  readHeader : Nat → Code Header
  isDataset : Header → Bool
  isCommittedDatatype : Header → Bool
  readAttributes : Header → Code (List Attribute × Bool)
  buildDataset : Header → String → String → Nat → Code Dataset
  symbolTable : Header → Code (Option SymbolTable)
  readLocalHeap : Nat → Code Heap
  nameAt : Heap → Nat → Code String
  readGroupNodeAddresses : Nat → Code (List Nat)
  readSymbolTableNode : Nat → Code (List SymbolTableEntry)
  compactLinks : Header → Code (List Link)
  linkInfo : Header → Code (Option LinkInfo)
  readDenseLinks : Nat → Option Nat → Code (List Link)

/-- The record of one group, with those of the groups in it. -/
structure GroupIndex (Dataset : Type) where
  name : String
  path : String
  address : Nat
  attributes : List Attribute
  attributesComplete : Bool
  groups : List (GroupIndex Dataset)
  datasets : List Dataset

/-- The record of a group inside another, by the positions of the groups on the way. -/
def GroupIndex.follow {Dataset : Type} (index : GroupIndex Dataset) : List Nat → Option (GroupIndex Dataset)
  | [] => some index
  | turn :: turns =>
    match index.groups[turn]? with
    | some inner => inner.follow turns
    | none => none

namespace Objects

variable {Header Heap Dataset : Type} (objects : Objects Header Heap Dataset)

section Children

/-- The child of a hard link. Soft and external links are not followed. -/
def hardChild (link : Link) : Option Child :=
  link.hardAddress.map fun address => ⟨link.name, address⟩

def nodeChildren (heap : Heap) (node : Nat) : Code (List Child) := do
  let entries ← objects.readSymbolTableNode node
  let children ← entries.mapM fun entry =>
    match entry.objectHeaderAddress with
    | some address => do
      let name ← objects.nameAt heap entry.linkNameOffset
      .ok (some ⟨name, address⟩)
    | none => .ok none
  .ok children.reduceOption

/-- The children an old-style group lists in the nodes of its B-tree. -/
def tableChildren (table : SymbolTable) : Code (List Child) := do
  let heap ← objects.readLocalHeap table.localHeapAddress
  let nodes ← objects.readGroupNodeAddresses table.btreeAddress
  let children ← nodes.mapM (objects.nodeChildren heap)
  .ok children.flatten

/-- The links in the fractal heap of a group with many of them. -/
def denseLinks (header : Header) : Code (List Link) := do
  match ← objects.linkInfo header with
  | some { fractalHeapAddress := some heap, nameBtreeAddress, .. } =>
    objects.readDenseLinks heap nameBtreeAddress
  | _ => .ok []

/-- List a group's children, whichever storage style it uses. -/
def resolveChildren (header : Header) : Code (List Child) := do
  match ← objects.symbolTable header with
  | some table => objects.tableChildren table
  | none => do
    let compact ← objects.compactLinks header
    let dense ← objects.denseLinks header
    .ok (compact.filterMap hardChild ++ dense.filterMap hardChild)

end Children

section Building

/-- What one child adds to the record of its group. -/
inductive Entry (Dataset : Type) where
  | dataset (index : Dataset)
  /-- A committed datatype holds no values and is left out. -/
  | datatype
  | group (index : GroupIndex Dataset)

def Entry.dataset? : Entry Dataset → Option Dataset
  | dataset index => some index
  | _ => none

def Entry.group? : Entry Dataset → Option (GroupIndex Dataset)
  | group index => some index
  | _ => none

/-- A walk of the groups carries the visited object headers. -/
abbrev Walk (α : Type) := Session (Finset Nat) Error α

/-- `visited.insert(address)`: whether the address is new. -/
def visit (address : Nat) : Walk Bool :=
  Session.run fun visited => (decide (address ∉ visited), insert address visited)

def childPath (path name : String) : String :=
  if path = "/" then s!"/{name}" else s!"{path}/{name}"

/-- Index one child, given how a group inside is indexed. -/
def indexChild (build : Nat → String → String → Walk (GroupIndex Dataset)) (path : String) (child : Child) :
    Walk (Entry Dataset) := do
  let header ← Session.lift (objects.readHeader child.address)
  let path := childPath path child.name
  if objects.isDataset header then do
    let dataset ← Session.lift (objects.buildDataset header child.name path child.address)
    pure (.dataset dataset)
  else if objects.isCommittedDatatype header then pure .datatype
  else do
    let group ← build child.address child.name path
    pure (.group group)

/-- The record of a group whose object header is new. -/
def indexGroup (build : Nat → String → String → Walk (GroupIndex Dataset)) (address : Nat)
    (name path : String) : Walk (GroupIndex Dataset) := do
  let header ← Session.lift (objects.readHeader address)
  let (attributes, attributesComplete) ← Session.lift (objects.readAttributes header)
  let children ← Session.lift (objects.resolveChildren header)
  let entries ← children.mapM (objects.indexChild build path)
  let groups := entries.filterMap Entry.group?
  let datasets := entries.filterMap Entry.dataset?
  pure { name, path, address, attributes, attributesComplete, groups, datasets }

/-- Build the index of the group at an address, with some levels of nesting left:
none is left where the depth exceeds the limit. -/
def buildGroup : Nat → Nat → String → String → Walk (GroupIndex Dataset)
  | 0, _, _, _ =>
    Session.throw (.malformed "group nesting exceeded the depth limit; the file may be cyclic")
  | levels + 1, address, name, path => do
    if ← visit address then objects.indexGroup (buildGroup levels) address name path
    else Session.throw (.malformed s!"group link cycle at object header {address}")

/-- The index of a whole file, from its root group. -/
def buildRoot (root : Nat) : Code (GroupIndex Dataset) :=
  (objects.buildGroup (maxDepth + 1) root "" "/" ∅).1

end Building

end Objects

end Oxcdf
