import Oxcdf.Btree1.Walked
import Oxcdf.LocalHeap

/-! The order in which an old-style group lists its children. The walk of its tree comes to
the leaves from right to left, and nothing turns them round again. -/

set_option autoImplicit false

namespace Oxcdf.Btree1

open Foundation Foundation.Buffer Foundation.Format Foundation.Explore
open BtreeV2 (Placed)

section Groups

variable {build : Build} {view : View}

/-- The symbol table nodes that a leaf names. -/
def tables (page : Page Nat Nat) : List Nat := page.children

theorem visitGroupNode_leaf (narrow : view.sizes.offset ≤ 8) (a : Nat) (page : Page Nat Nat)
    (stands : page.Stands 0 id view (groupForm view.sizes) a) :
    visitGroupNode build view a = .ok (tables page, []) := by
  rw [visitGroupNode, readNode_eq narrow stands, Outcome.ok_bind]
  simp [Page.node, groupForm, tables]

theorem visitGroupNode_inner (narrow : view.sizes.offset ≤ 8) (a level : Nat)
    (page : Page Nat (StoredNode Nat level))
    (stands : page.Stands (level + 1) Placed.address view (groupForm view.sizes) a) :
    visitGroupNode build view a = .ok ([], page.children.map Placed.address) := by
  rw [visitGroupNode, readNode_eq narrow stands, Outcome.ok_bind]
  simp [Page.node, groupForm]

/-- The symbol table nodes of a group, in the order of its tree. -/
def inOrder (depth : Nat) (root : StoredNode Nat depth) : List Nat :=
  ((Body.leaves depth root).map tables).flatten

/-- The walk has the leaves the other way round. -/
theorem readGroupNodeAddresses_eq {depth : Nat} {root : StoredNode Nat depth}
    (widths : view.sizes.Valid) (held : Body.Held view (groupForm view.sizes) depth root) :
    readGroupNodeAddresses build view root.address =
      if (Body.addresses depth root).length ≤ maxNodes + 1 then
        .ok ((Body.leaves depth root).map tables).reverse.flatten
      else .error (tooLarge "group") := by
  have narrow := widths.offset_le
  have order := Body.visitOrder_perm root
  have leaf := @visitGroupNode_leaf build view narrow
  have explored := Body.explores leaf (visitGroupNode_inner narrow) held.stands
  have distinct := order.nodup_iff.mpr held.apart
  rw [← List.map_reverse, ← List.flatMap_def, ← order.length_eq, readGroupNodeAddresses, walkGroup]
  split
  · next few =>
    have fits : ([] : List Nat).length + (Body.visitOrder depth root).length ≤ maxNodes + 1 := by
      rwa [List.length_nil, Nat.zero_add]
    have whole := @walk_of_explores _ _ _ _ _ maxNodes false (tooLarge "group") _ _ [] [] _ explored distinct
      (fun _ _ => List.not_mem_nil) fits nofun
    exact congrArg Prod.fst whole
  · next many =>
    apply walk_of_many explored distinct (fun _ _ => List.not_mem_nil) (Nat.zero_le _)
    rw [List.length_nil]
    omega

/-- An old-style group: a tree of symbol table nodes, and the heap with the names of its children. -/
structure StoredGroup where
  heap : LocalHeap.StoredHeap
  depth : Nat
  root : StoredNode Nat depth
  entries : Nat → List SymbolTableEntry

namespace StoredGroup

variable (group : StoredGroup)

/-- The symbol table nodes in the order of the tree. -/
def nodes : List Nat := inOrder group.depth group.root

/-- The child of an entry, unless it has no object of its own. -/
def child (entry : SymbolTableEntry) : Option Child :=
  entry.objectHeaderAddress.map fun address =>
    ⟨fromUtf8Lossy (untilNul (group.heap.data.drop entry.linkNameOffset)), address⟩

/-- The children in the order they are stored in. -/
def children : List Child := group.nodes.flatMap fun node => (group.entries node).filterMap group.child

/-- The file holds the group: its tree, its symbol table nodes, and a name for each child. -/
structure Held (view : View) : Prop where
  heap : group.heap.Held view
  tree : Body.Held view (groupForm view.sizes) group.depth group.root
  apart : group.nodes.Nodup
  stands : ∀ node ∈ group.nodes, SymbolTableNode.Stands view (group.entries node) node
  names : ∀ node ∈ group.nodes, ∀ entry ∈ group.entries node, ∀ address,
    entry.objectHeaderAddress = some address → entry.linkNameOffset < group.heap.data.length

end StoredGroup

variable {Header Dataset : Type} {objects : Objects Header LocalHeap Dataset} {group : StoredGroup}

/-- What indexing asks of a file is answered by the readers of old-style groups. -/
structure Answers (build : Build) (view : View) (objects : Objects Header LocalHeap Dataset) : Prop where
  readLocalHeap : objects.readLocalHeap = LocalHeap.read view
  nameAt : objects.nameAt = LocalHeap.nameAt
  readGroupNodeAddresses : objects.readGroupNodeAddresses = readGroupNodeAddresses build view
  readSymbolTableNode : objects.readSymbolTableNode = SymbolTableNode.read view

theorem nodeChildren_eq (widths : view.sizes.Valid) (held : group.Held view)
    (answers : Answers build view objects) {node : Nat} (member : node ∈ group.nodes) :
    objects.nodeChildren ⟨group.heap.data⟩ node = .ok ((group.entries node).filterMap group.child) := by
  have entries := SymbolTableNode.read_eq widths (held.stands node member)
  rw [Objects.nodeChildren, answers.readSymbolTableNode, entries, Outcome.ok_bind,
    Outcome.mapM_of_ok group.child, Outcome.ok_bind]
  · exact congrArg Outcome.ok List.filterMap_map
  · intro entry named
    cases address : entry.objectHeaderAddress with
    | none => simp [StoredGroup.child, address]
    | some a =>
      have within := held.names node member entry named a address
      simp only [answers.nameAt, LocalHeap.nameAt, if_neg (Nat.not_le.mpr within), Outcome.ok_bind,
        StoredGroup.child, address, Option.map_some]

/-- The children of symbol table nodes are listed in the order the walk returns the nodes. -/
theorem resolveChildren_of_nodes (widths : view.sizes.Valid) (held : group.Held view)
    (answers : Answers build view objects) {header : Header} {table : SymbolTable}
    (old : objects.symbolTable header = .ok (some table)) (tree : table.btreeAddress = group.root.address)
    (names : table.localHeapAddress = group.heap.address) {nodes : List Nat}
    (order : readGroupNodeAddresses build view group.root.address = .ok nodes)
    (known : ∀ node ∈ nodes, node ∈ group.nodes) :
    objects.resolveChildren header =
      .ok (nodes.flatMap fun node => (group.entries node).filterMap group.child) := by
  have heap := LocalHeap.read_eq widths held.heap
  have each : nodes.mapM (objects.nodeChildren ⟨group.heap.data⟩) =
      .ok (nodes.map fun node => (group.entries node).filterMap group.child) :=
    Outcome.mapM_of_ok _ fun node member => nodeChildren_eq widths held answers (known node member)
  simp only [Objects.resolveChildren, Objects.tableChildren, old, answers.readLocalHeap, names, heap,
    answers.readGroupNodeAddresses, tree, order, each, Outcome.ok_bind, List.flatMap_def]

/-- The symbol table nodes, and with them the children of the group, come in the order they are stored
in, exactly if one leaf of the tree at most names any. -/
theorem group_order_iff (widths : view.sizes.Valid) (held : group.Held view)
    (answers : Answers build view objects)
    {header : Header} {table : SymbolTable} (old : objects.symbolTable header = .ok (some table))
    (tree : table.btreeAddress = group.root.address) (names : table.localHeapAddress = group.heap.address) :
    (readGroupNodeAddresses build view group.root.address = .ok group.nodes ∧
      objects.resolveChildren header = .ok group.children) ↔
    (Body.addresses group.depth group.root).length ≤ maxNodes + 1 ∧
      ((Body.leaves group.depth group.root).filter fun page => Filled page.entries).length ≤ 1 := by
  have walked := @readGroupNodeAddresses_eq build view group.depth group.root widths held.tree
  have one : ((Body.leaves group.depth group.root).map tables).reverse.flatten = group.nodes ↔
      ((Body.leaves group.depth group.root).filter fun page => Filled page.entries).length ≤ 1 := by
    have same : Filled ∘ tables = fun page => Filled page.entries := by
      funext page
      simp [Filled, tables, Page.children]
    rw [StoredGroup.nodes, inOrder, flatten_reverse_eq_iff held.apart, List.filter_map, List.length_map, same]
  have listed : readGroupNodeAddresses build view group.root.address = .ok group.nodes ↔
      (Body.addresses group.depth group.root).length ≤ maxNodes + 1 ∧
        ((Body.leaves group.depth group.root).filter fun page => Filled page.entries).length ≤ 1 := by
    rw [walked, ← one]
    split
    · next few => simp [few]
    · next many => simp [many]
  rw [← listed]
  refine ⟨And.left, fun order => ⟨order, ?_⟩⟩
  exact resolveChildren_of_nodes widths held answers old tree names order fun _ member => member

section Example

/-- Keys that are places of names in a local heap. -/
theorem places_fit : PairFits (groupForm ⟨8, 8⟩) 0 4 6 198 286 :=
  ⟨True.intro, True.intro, True.intro, by decide, by decide, by decide⟩

def namesHeap : LocalHeap.StoredHeap := ⟨160, 1, 192, [0x61, 0x00, 0x62, 0x00, 0x63, 0x00]⟩

def namedEntries (node : Nat) : List SymbolTableEntry :=
  if node = 198 then [⟨0, some 4096, .none⟩, ⟨2, some 8192, .none⟩] else [⟨4, some 12288, .none⟩]

/-- Three children, two of them in the symbol table node below the first leaf. -/
def threeChildren : StoredGroup := ⟨namesHeap, 1, pair (groupForm ⟨8, 8⟩) 0 4 6 198 286, namedEntries⟩

def encodeTree : Bytes := encodePair (groupForm ⟨8, 8⟩) 0 4 6 198 286

def encodeNodes : Bytes :=
  SymbolTableNode.encode ⟨8, 8⟩ (namedEntries 198) ++ SymbolTableNode.encode ⟨8, 8⟩ (namedEntries 286)

def encodeChildren : Bytes := encodeTree ++ (namesHeap.encodeHeader ⟨8, 8⟩ ++ (namesHeap.data ++ encodeNodes))

theorem encodeTree_length : encodeTree.length = 160 := encodePair_length places_fit

theorem eightBytes_valid : Sizes.Valid ⟨8, 8⟩ := ⟨by decide, by decide⟩

theorem encodeNodes_length : encodeNodes.length = 136 := by
  rw [encodeNodes, List.length_append, SymbolTableNode.encode_length eightBytes_valid,
    SymbolTableNode.encode_length eightBytes_valid]
  rfl

theorem encodeNames_length : (namesHeap.encodeHeader ⟨8, 8⟩).length = 32 := LocalHeap.encodeHeader_length

/-- A file with nothing but the group in it. -/
def childrenView : View where
  file := ⟨encodeChildren, by
    rw [encodeChildren, List.length_append, List.length_append, List.length_append, encodeTree_length,
      encodeNames_length, encodeNodes_length]
    decide⟩
  baseAddress := 0
  sizes := ⟨8, 8⟩

theorem threeChildren_held : threeChildren.Held childrenView := by
  have file : childrenView.file.bytes =
    encodeTree ++ (namesHeap.encodeHeader ⟨8, 8⟩ ++ (namesHeap.data ++ encodeNodes)) :=
    rfl
  obtain ⟨-, header, segment, nodes⟩ := View.holds_in_turn rfl file
  simp only [List.length_append, encodeTree_length, encodeNames_length] at header segment nodes
  have first := nodes.front
  have second := nodes.back
  rw [SymbolTableNode.encode_length eightBytes_valid] at second
  have cases {property : Nat → Prop} (one : property 198) (other : property 286) :
      ∀ node ∈ threeChildren.nodes, property node :=
    List.forall_mem_cons.mpr ⟨one, List.forall_mem_singleton.mpr other⟩
  have fits (place address : Nat) (small : place < 256 ^ 8) (named : address < 2 ^ 64 - 1) :
      SymbolTableEntry.Fits childrenView.sizes ⟨place, some address, .none⟩ :=
    ⟨small, fun _ same => Option.some.inj same ▸ named, True.intro⟩
  constructor
  · exact ⟨by change 6 < 256 ^ 8; decide, by change 192 < 2 ^ 64 - 1; decide, header, segment⟩
  · exact pair_held places_fit rfl file
  · decide
  · apply cases
    · exact ⟨by decide, List.forall_mem_cons.mpr ⟨fits 0 4096 (by decide) (by decide),
        List.forall_mem_singleton.mpr (fits 2 8192 (by decide) (by decide))⟩, first⟩
    · exact ⟨by decide, List.forall_mem_singleton.mpr (fits 4 12288 (by decide) (by decide)), second⟩
  · apply cases
    · exact List.forall_mem_cons.mpr ⟨by decide, List.forall_mem_singleton.mpr (by decide)⟩
    · exact List.forall_mem_singleton.mpr (by decide)

def groupObjects (build : Build) (view : View) (group : StoredGroup) : Objects Unit LocalHeap Unit where
  readHeader _ := .ok ()
  isDataset _ := false
  isCommittedDatatype _ := false
  readAttributes _ := .ok ([], true)
  buildDataset _ _ _ _ := .ok ()
  symbolTable _ := .ok (some ⟨group.root.address, group.heap.address⟩)
  readLocalHeap := LocalHeap.read view
  nameAt := LocalHeap.nameAt
  readGroupNodeAddresses := readGroupNodeAddresses build view
  readSymbolTableNode := SymbolTableNode.read view
  compactLinks _ := .ok []
  linkInfo _ := .ok none
  readDenseLinks _ _ := .ok []

/-- The group with the first leaf for its whole tree. -/
def firstChildren : StoredGroup := ⟨namesHeap, 0, leftLeaf (groupForm ⟨8, 8⟩) 0 4 198, namedEntries⟩

theorem firstChildren_held : firstChildren.Held childrenView where
  heap := threeChildren_held.heap
  tree := ⟨threeChildren_held.tree.stands.2 _ List.mem_cons_self, List.nodup_singleton _⟩
  apart := List.nodup_singleton _
  stands := List.forall_mem_singleton.mpr (threeChildren_held.stands 198 List.mem_cons_self)
  names := List.forall_mem_singleton.mpr (threeChildren_held.names 198 List.mem_cons_self)

theorem group_order_of_one_leaf :
    readGroupNodeAddresses .debug childrenView 64 = .ok [198] ∧
      (groupObjects .debug childrenView firstChildren).resolveChildren () = .ok [⟨"a", 4096⟩, ⟨"b", 8192⟩] := by
  have answers : Answers .debug childrenView (groupObjects .debug childrenView firstChildren) := ⟨rfl, rfl, rfl, rfl⟩
  have stored : firstChildren.children = [⟨"a", 4096⟩, ⟨"b", 8192⟩] := by rfl
  obtain ⟨order, children⟩ :=
    (group_order_iff eightBytes_valid firstChildren_held answers rfl rfl rfl).mpr ⟨by decide, by decide⟩
  exact ⟨order, stored ▸ children⟩

/-- The leaf on the right is listed before the one on its left. -/
theorem group_order_of_two_leaves :
    threeChildren.Held childrenView ∧ threeChildren.children = [⟨"a", 4096⟩, ⟨"b", 8192⟩, ⟨"c", 12288⟩] ∧
      readGroupNodeAddresses .debug childrenView threeChildren.root.address = .ok [286, 198] ∧
      (groupObjects .debug childrenView threeChildren).resolveChildren () =
        .ok [⟨"c", 12288⟩, ⟨"a", 4096⟩, ⟨"b", 8192⟩] := by
  have walked := @readGroupNodeAddresses_eq .debug childrenView 1 threeChildren.root eightBytes_valid
    threeChildren_held.tree
  rw [if_pos (by decide)] at walked
  have answers : Answers .debug childrenView (groupObjects .debug childrenView threeChildren) :=
    ⟨rfl, rfl, rfl, rfl⟩
  have old : (groupObjects .debug childrenView threeChildren).symbolTable () =
      .ok (some ⟨threeChildren.root.address, namesHeap.address⟩) := rfl
  have listed := resolveChildren_of_nodes eightBytes_valid threeChildren_held answers old rfl rfl walked
    fun _ member => List.mem_reverse.mp member
  have turned : ([286, 198].flatMap fun node => (namedEntries node).filterMap threeChildren.child) =
      [⟨"c", 12288⟩, ⟨"a", 4096⟩, ⟨"b", 8192⟩] := by rfl
  exact ⟨threeChildren_held, by rfl, walked, turned ▸ listed⟩

end Example

end Groups

end Oxcdf.Btree1
