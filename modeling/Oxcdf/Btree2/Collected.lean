import Oxcdf.Btree2.Stored
import Oxcdf.FractalHeap.Loaded

/-! What is collected of a stored tree. -/

set_option autoImplicit false

namespace Oxcdf.BtreeV2

open Foundation Foundation.Buffer Foundation.Format Foundation.SearchTree

section Nodes

variable {sizes : Sizes} {layout : NodeLayout} {recordSize recordType : Nat}

theorem reads_node {signature : Bytes} (four : signature.length = 4) (letters node : String) :
    Reads (expectNode signature letters node) (Body.encodeStart recordType signature) () := by
  have taken := Cursor.reads_take signature
  rw [four] at taken
  unfold expectNode Body.encodeStart
  apply taken.bind
  rw [if_neg (not_not_intro rfl)]
  exact Cursor.reads_skip (littleEndian 1 0 ++ littleEndian 1 recordType)

theorem reads_records {records : List Bytes} (whole : ∀ record ∈ records, record.length = recordSize) :
    Reads (Format.times (Cursor.take recordSize) records.length) records.flatten records := by
  have each : ∀ record ∈ records, Reads (Cursor.take recordSize) (id record) (id record) := by
    intro record member
    have taken := Cursor.reads_take record
    rwa [whole record member] at taken
  have all := Reads.times each
  rwa [List.flatMap_id, List.map_id] at all

theorem records_length {records : List Bytes} (whole : ∀ record ∈ records, record.length = recordSize) :
    records.flatten.length = records.length * recordSize := by
  rw [← List.flatMap_id]
  exact length_flatMap_block fun record member => whole record member

/-- What stands behind the front of a sealed structure is read there. -/
theorem parse_behind {α : Type} {parse : Parse α} {front body : Bytes} {value : α}
    (reads : Reads parse body value) :
    (parse ⟨withChecksum (front ++ body), front.length⟩).1 = .ok value := by
  have here := reads front (littleEndian 4 (Checksum.metadata (front ++ body)).toNat)
  exact congrArg Prod.fst here

theorem encodeStart_length {signature : Bytes} (four : signature.length = 4) :
    (Body.encodeStart recordType signature).length = 6 := by
  simp [Body.encodeStart, four]

variable {offsetSize : Nat}

theorem encode_leaf_length (records : List Bytes) :
    (Body.encode layout offsetSize recordType 0 records).length = 10 + records.flatten.length := by
  unfold Body.encode
  rw [withChecksum_length, List.length_append, encodeStart_length rfl]
  omega

theorem encode_internal_length {depth : Nat} (branch : Branch Bytes (StoredNode depth)) :
    (Body.encode layout offsetSize recordType (depth + 1) branch).length = 10 + ((Branch.entries branch).flatten ++
      (Branch.children branch).flatMap (Body.encodePointer layout offsetSize depth)).length := by
  unfold Body.encode
  rw [withChecksum_length, List.length_append, encodeStart_length rfl]
  omega

variable {view : View} {address : Nat}

theorem readLeaf_eq {records : List Bytes} (whole : ∀ record ∈ records, record.length = recordSize)
    (held : view.Holds address (withChecksum (Body.encodeStart recordType btlfSignature ++ records.flatten))) :
    readLeaf view recordSize address records.length = .ok records := by
  have long : (withChecksum (Body.encodeStart recordType btlfSignature ++ records.flatten)).length =
      leafLen recordSize records.length := by
    rw [withChecksum_length, List.length_append, encodeStart_length rfl, records_length whole,
      leafLen, nodeOverhead]
    omega
  have start := parse_withChecksum (@reads_node recordType btlfSignature rfl "BTLF" "leaf") records.flatten
  have body : (withChecksum (Body.encodeStart recordType btlfSignature ++ records.flatten)).length - 4 =
      (Body.encodeStart recordType btlfSignature ++ records.flatten).length := by
    rw [withChecksum_length, Nat.add_sub_cancel]
  unfold readLeaf
  rw [← long, held.read, Outcome.ok_bind, start]
  dsimp only
  rw [Outcome.ok_bind, body, verifyChecksum_withChecksum, Outcome.ok_bind]
  exact parse_behind (reads_records whole)

theorem reads_pointer {depth : Nat} {child : StoredNode depth} (narrow : sizes.offset ≤ 8)
    (few : layout.maxNrecSize ≤ 8) (named : child.address < 256 ^ sizes.offset)
    (counted : child.body.recordCount depth < 256 ^ layout.maxNrecSize) :
    Reads (readPointer sizes.offset layout.maxNrecSize (layout.childTotalSize (depth + 1)))
      (Body.encodePointer layout sizes.offset depth child) (child.address, child.body.recordCount depth) := by
  have total : Reads (Cursor.skipIf (0 < layout.childTotalSize (depth + 1)) (layout.childTotalSize (depth + 1)))
      (littleEndian (layout.childTotalSize (depth + 1)) (child.body.inOrder depth).length) () := by
    unfold Cursor.skipIf
    split
    · have skipped := Cursor.reads_skip
        (littleEndian (layout.childTotalSize (depth + 1)) (child.body.inOrder depth).length)
      rwa [littleEndian_length] at skipped
    · next none =>
      have zero : layout.childTotalSize (depth + 1) = 0 := by simpa using none
      rw [zero]
      exact Reads.pure ()
  unfold readPointer Body.encodePointer
  rw [Nat.mod_eq_of_lt (by omega), Nat.mod_eq_of_lt (by omega)]
  apply (Cursor.reads_uint narrow named).bind
  apply (Cursor.reads_uint few counted).bind
  exact total.bind_pure fun _ => (child.address, child.body.recordCount depth)

/-- What is read of an internal node: its records, and where its children are. -/
theorem readInternal_eq {depth : Nat} {branch : Branch Bytes (StoredNode depth)}
    (narrow : view.sizes.offset ≤ 8) (few : layout.maxNrecSize ≤ 8)
    (fits : Body.Fits layout view.sizes.offset recordSize (depth + 1) branch)
    (held : view.Holds address (Body.encode layout view.sizes.offset recordType (depth + 1) branch)) :
    readInternal view layout recordSize address (depth + 1) branch.entries.length =
      .ok (branch.entries, branch.children.map fun child => (child.address, child.body.recordCount depth)) := by
  obtain ⟨whole, children⟩ := fits
  have pointers : Reads (Format.times (readPointer view.sizes.offset layout.maxNrecSize
      (layout.childTotalSize (depth + 1))) branch.children.length)
      (branch.children.flatMap (Body.encodePointer layout view.sizes.offset depth))
      (branch.children.map fun child => (child.address, child.body.recordCount depth)) := by
    apply Reads.times
    intro child member
    obtain ⟨named, counted, -⟩ := children child member
    exact reads_pointer narrow few named counted
  -- A node has one child more than it has records.
  have more : branch.children.length = branch.entries.length + 1 := by simp [Branch.children, Branch.entries]
  rw [more] at pointers
  have entries : Reads (readEntries layout recordSize view.sizes.offset (depth + 1) branch.entries.length)
      (branch.entries.flatten ++ branch.children.flatMap (Body.encodePointer layout view.sizes.offset depth))
      (branch.entries, branch.children.map fun child => (child.address, child.body.recordCount depth)) := by
    apply (reads_records whole).bind
    exact pointers.bind_pure fun children => (branch.entries, children)
  have width : (branch.children.flatMap (Body.encodePointer layout view.sizes.offset depth)).length =
      (branch.entries.length + 1) * layout.pointerSize view.sizes.offset (depth + 1) := by
    rw [← more]
    apply length_flatMap_block
    intro child member
    unfold Body.encodePointer NodeLayout.pointerSize
    simp only [List.length_append, littleEndian_length]
    omega
  unfold Body.encode at held
  have long : (withChecksum (Body.encodeStart recordType btinSignature ++ (branch.entries.flatten ++
      branch.children.flatMap (Body.encodePointer layout view.sizes.offset depth)))).length =
      internalLen recordSize (layout.pointerSize view.sizes.offset (depth + 1)) branch.entries.length := by
    rw [withChecksum_length, List.length_append, List.length_append, encodeStart_length rfl,
      records_length whole, width, internalLen, nodeOverhead]
    omega
  have start := parse_withChecksum (@reads_node recordType btinSignature rfl "BTIN" "internal node")
    (branch.entries.flatten ++ branch.children.flatMap (Body.encodePointer layout view.sizes.offset depth))
  unfold readInternal
  dsimp only
  rw [← long, held.read, Outcome.ok_bind, start]
  dsimp only
  rw [Outcome.ok_bind, withChecksum_length, Nat.add_sub_cancel, verifyChecksum_withChecksum, Outcome.ok_bind]
  exact parse_behind entries

end Nodes

section Collecting

variable {view : View} {layout : NodeLayout} {recordSize recordType : Nat}

theorem visit_eq {state : Collected} (room : state.visited < maxNodes) :
    visit state = (.ok (), { state with visited := state.visited + 1 }) := by
  unfold visit
  rw [if_neg (by omega)]

theorem collectChildren_eq {depth : Nat} {step : Nat → Nat → Collect Unit}
    (rest : List (Bytes × StoredNode depth)) (first : StoredNode depth) (state : Collected)
    (each : ∀ child ∈ Branch.children ⟨first, rest⟩, ∀ state : Collected,
      state.visited + child.body.nodes depth ≤ maxNodes →
        step child.address (child.body.recordCount depth) state =
          (.ok (), ⟨state.records ++ child.body.inOrder depth, state.visited + child.body.nodes depth⟩))
    (room : state.visited + Branch.total (fun child => child.body.nodes depth) ⟨first, rest⟩ ≤ maxNodes) :
    collectChildren step
        ((Branch.children ⟨first, rest⟩).map fun child => (child.address, child.body.recordCount depth))
        (Branch.entries ⟨first, rest⟩) state =
      (.ok (), ⟨state.records ++ Branch.inOrder (fun child => child.body.inOrder depth) ⟨first, rest⟩,
        state.visited + Branch.total (fun child => child.body.nodes depth) ⟨first, rest⟩⟩) := by
  induction rest generalizing first state with
  | nil =>
    have here := each first List.mem_cons_self state (by simpa [Branch.total, Branch.children] using room)
    simp only [Branch.children, Branch.entries, List.map_nil, List.map_cons, collectChildren]
    rw [Session.bind_ok here]
    simp [push, Session.bind_apply, Branch.inOrder, Branch.total, Branch.children]
  | cons pair rest ih =>
    obtain ⟨record, next⟩ := pair
    have total : Branch.total (fun child : StoredNode depth => child.body.nodes depth)
        ⟨first, (record, next) :: rest⟩ = first.body.nodes depth +
          Branch.total (fun child => child.body.nodes depth) ⟨next, rest⟩ := by
      simp [Branch.total, Branch.children]
    rw [total] at room ⊢
    have here := each first List.mem_cons_self state (by omega)
    have later := ih next ⟨state.records ++ first.body.inOrder depth ++ [record],
      state.visited + first.body.nodes depth⟩ (fun child member => each child (List.mem_cons_of_mem _ member))
      (by dsimp only; omega)
    have pushed : push (List.take 1 (Branch.entries ⟨first, (record, next) :: rest⟩))
        ⟨state.records ++ first.body.inOrder depth, state.visited + first.body.nodes depth⟩ =
        (.ok (), ⟨state.records ++ first.body.inOrder depth ++ [record],
          state.visited + first.body.nodes depth⟩) := rfl
    have split : Branch.children ⟨first, (record, next) :: rest⟩ = first :: Branch.children ⟨next, rest⟩ := rfl
    have behind : (Branch.entries ⟨first, (record, next) :: rest⟩).drop 1 = Branch.entries ⟨next, rest⟩ := rfl
    rw [split, List.map_cons, collectChildren, Session.bind_ok here, Session.bind_ok pushed, behind, later]
    simp [Branch.inOrder, Nat.add_assoc]

theorem nodes_branch {depth : Nat} (branch : Branch Bytes (StoredNode depth)) :
    Body.nodes (depth + 1) branch = 1 + Branch.total (fun child => child.body.nodes depth) branch :=
  congrArg (1 + ·) (Branch.total_map _ _ branch)

theorem inOrder_branch {depth : Nat} (branch : Branch Bytes (StoredNode depth)) :
    Body.inOrder (depth + 1) branch = Branch.inOrder (fun child => child.body.inOrder depth) branch :=
  Branch.inOrder_map _ _ branch

theorem collect_leaf {address : Nat} {records : List Bytes} {state : Collected}
    (whole : ∀ record ∈ records, record.length = recordSize)
    (held : view.Holds address (withChecksum (Body.encodeStart recordType btlfSignature ++ records.flatten)))
    (room : state.visited + 1 ≤ maxNodes) :
    collect view layout recordSize 0 address records.length state =
      (.ok (), ⟨state.records ++ records, state.visited + 1⟩) := by
  rw [collect, Session.bind_ok (visit_eq (Nat.lt_of_succ_le room)), readLeaf_eq whole held,
    Session.bind_lift_ok]
  rfl

/-- An internal node adds what its children add, if they add their records. -/
theorem collect_internal {address depth : Nat} {branch : Branch Bytes (StoredNode depth)} {state : Collected}
    (narrow : view.sizes.offset ≤ 8) (few : layout.maxNrecSize ≤ 8)
    (fits : Body.Fits layout view.sizes.offset recordSize (depth + 1) branch)
    (held : view.Holds address (Body.encode layout view.sizes.offset recordType (depth + 1) branch))
    (each : ∀ child ∈ branch.children, ∀ state : Collected, state.visited + child.body.nodes depth ≤ maxNodes →
      collect view layout recordSize depth child.address (child.body.recordCount depth) state =
        (.ok (), ⟨state.records ++ child.body.inOrder depth, state.visited + child.body.nodes depth⟩))
    (room : state.visited + Body.nodes (depth + 1) branch ≤ maxNodes) :
    collect view layout recordSize (depth + 1) address branch.entries.length state =
      (.ok (), ⟨state.records ++ Body.inOrder (depth + 1) branch,
        state.visited + Body.nodes (depth + 1) branch⟩) := by
  obtain ⟨first, rest⟩ := branch
  rw [nodes_branch] at room ⊢
  have children := collectChildren_eq rest first { state with visited := state.visited + 1 } each
    (by dsimp only; omega)
  rw [collect, Session.bind_ok (visit_eq (by omega)), readInternal_eq narrow few fits held,
    Session.bind_lift_ok]
  dsimp only
  rw [children, inOrder_branch, Nat.add_assoc]

/-- A stored node adds its records, in order, and its nodes. -/
theorem collect_eq (narrow : view.sizes.offset ≤ 8) (few : layout.maxNrecSize ≤ 8) :
    ∀ {depth : Nat} {node : StoredNode depth} {state : Collected},
      node.body.Fits layout view.sizes.offset recordSize depth → Body.Stands layout recordType view depth node →
      state.visited + node.body.nodes depth ≤ maxNodes →
      collect view layout recordSize depth node.address (node.body.recordCount depth) state =
        (.ok (), ⟨state.records ++ node.body.inOrder depth, state.visited + node.body.nodes depth⟩)
  | 0, _, _, whole, held, room => collect_leaf whole held room
  | _ + 1, _, _, fits, held, room =>
    collect_internal narrow few fits held.1
      (fun child member _ room => collect_eq narrow few (fits.2 child member).2.2
        (held.2 child member) room) room

theorem visited_of_visit {state after : Collected} (done : visit state = (.ok (), after)) :
    after.visited = state.visited + 1 := by
  unfold visit at done
  dsimp only at done
  split at done
  · cases done
  · obtain ⟨-, rfl⟩ := Prod.mk.inj done
    rfl

theorem visited_of_collectChildren {depth : Nat} {step : Nat → Nat → Collect Unit}
    {children : List (StoredNode depth)} {records : List Bytes} {state after : Collected}
    (each : ∀ child ∈ children, ∀ state after : Collected,
      step child.address (child.body.recordCount depth) state = (.ok (), after) →
        after.visited = state.visited + child.body.nodes depth)
    (done : collectChildren step (children.map fun child => (child.address, child.body.recordCount depth))
      records state = (.ok (), after)) :
    after.visited = state.visited + (children.map fun child => child.body.nodes depth).sum := by
  induction children generalizing records state with
  | nil =>
    cases done
    rfl
  | cons child children ih =>
    obtain ⟨_, middle, here, rest⟩ := Session.bind_eq_ok.mp done
    obtain ⟨_, pushed, kept, rest⟩ := Session.bind_eq_ok.mp rest
    have same : pushed.visited = middle.visited := by
      cases kept
      rfl
    have first := each child List.mem_cons_self _ _ here
    have others := ih (fun other member => each other (List.mem_cons_of_mem _ member)) rest
    rw [others, same, first, List.map_cons, List.sum_cons, Nat.add_assoc]

theorem visited_of_internal {address depth : Nat} {branch : Branch Bytes (StoredNode depth)}
    {state after : Collected} (narrow : view.sizes.offset ≤ 8) (few : layout.maxNrecSize ≤ 8)
    (fits : Body.Fits layout view.sizes.offset recordSize (depth + 1) branch)
    (held : view.Holds address (Body.encode layout view.sizes.offset recordType (depth + 1) branch))
    (each : ∀ child ∈ branch.children, ∀ state after : Collected,
      collect view layout recordSize depth child.address (child.body.recordCount depth) state =
        (.ok (), after) → after.visited = state.visited + child.body.nodes depth)
    (done : collect view layout recordSize (depth + 1) address branch.entries.length state =
      (.ok (), after)) : after.visited = state.visited + Body.nodes (depth + 1) branch := by
  obtain ⟨_, middle, counted, rest⟩ := Session.bind_eq_ok.mp done
  rw [readInternal_eq narrow few fits held, Session.bind_lift_ok] at rest
  rw [visited_of_collectChildren each rest, visited_of_visit counted, nodes_branch, Nat.add_assoc,
    Branch.total]

/-- Whenever a stored node is collected, its nodes are counted. -/
theorem visited_of_collect (narrow : view.sizes.offset ≤ 8) (few : layout.maxNrecSize ≤ 8) :
    ∀ {depth : Nat} {node : StoredNode depth} {state after : Collected},
      node.body.Fits layout view.sizes.offset recordSize depth → Body.Stands layout recordType view depth node →
      collect view layout recordSize depth node.address (node.body.recordCount depth) state =
        (.ok (), after) → after.visited = state.visited + node.body.nodes depth
  | 0, _, state, _, _, _, done => by
    obtain ⟨_, middle, counted, rest⟩ := Session.bind_eq_ok.mp done
    obtain ⟨records, _, found, pushed⟩ := Session.bind_eq_ok.mp rest
    obtain ⟨-, same⟩ := Session.lift_eq_ok.mp found
    have here := visited_of_visit counted
    rw [same] at here
    cases pushed
    exact here
  | _ + 1, _, _, _, fits, held, done =>
    visited_of_internal narrow few fits held.1
      (fun child member _ _ done => visited_of_collect narrow few (fits.2 child member).2.2
        (held.2 child member) done) done

/-- Counting starts below the limit and stops one above it at the latest. -/
def Bounded {α : Type} (step : Collect α) : Prop := ∀ state : Collected, state.visited ≤ maxNodes →
  (step state).2.visited ≤ maxNodes + 1 ∧ ∀ a, (step state).1 = .ok a → (step state).2.visited ≤ maxNodes

theorem Bounded.bind {α β : Type} {step : Collect α} {next : α → Collect β} (first : Bounded step)
    (later : ∀ a, Bounded (next a)) : Bounded (step >>= next) := by
  intro state before
  obtain ⟨limit, inside⟩ := first state before
  rw [Session.bind_apply]
  rcases found : step state with ⟨a | e | p, after⟩
  · rw [found] at inside
    exact later a after (inside a rfl)
  · rw [found] at limit
    exact ⟨limit, nofun⟩
  · rw [found] at limit
    exact ⟨limit, nofun⟩

theorem Bounded.of_same {α : Type} {step : Collect α}
    (same : ∀ state, (step state).2.visited = state.visited) : Bounded step := by
  intro state before
  rw [same state]
  exact ⟨Nat.le_succ_of_le before, fun _ _ => before⟩

theorem bounded_visit : Bounded visit := by
  intro state before
  unfold visit
  dsimp only
  split
  · exact ⟨Nat.succ_le_succ before, nofun⟩
  · next room => exact ⟨Nat.succ_le_succ before, fun _ _ => Nat.not_lt.mp room⟩

theorem bounded_collectChildren {step : Nat → Nat → Collect Unit}
    (each : ∀ address recordCount, Bounded (step address recordCount)) (children : List (Nat × Nat))
    (records : List Bytes) : Bounded (collectChildren step children records) := by
  induction children generalizing records with
  | nil => exact Bounded.of_same fun _ => rfl
  | cons child children ih =>
    apply (each child.1 child.2).bind
    intro _
    apply (Bounded.of_same fun _ => rfl).bind
    intro _
    exact ih (records.drop 1)

/-- Whatever the nodes of a file point at, collecting comes to an end. -/
theorem bounded_collect (depth address recordCount : Nat) :
    Bounded (collect view layout recordSize depth address recordCount) := by
  induction depth generalizing address recordCount with
  | zero =>
    apply bounded_visit.bind
    intro _
    apply (Bounded.of_same fun _ => rfl).bind
    intro records
    exact Bounded.of_same fun _ => rfl
  | succ depth ih =>
    apply bounded_visit.bind
    intro _
    apply (Bounded.of_same fun _ => rfl).bind
    intro entries
    exact bounded_collectChildren ih _ _

end Collecting

section Reading

variable {tree : StoredTree} {sizes : Sizes} {layout : NodeLayout} {view : View} {build : Build}

theorem reads_fields (fits : tree.Fits sizes layout) :
    Reads (parseFields sizes) (tree.encodeFields sizes) tree.header := by
  have narrow := fits.widths.offset_le
  apply (FractalHeap.reads_start rfl _ _).bind
  apply (Cursor.reads_u8 fits.recordType).bind
  apply (Cursor.reads_u32 fits.nodeSize.2).bind
  apply (Cursor.reads_u16 fits.recordSize.2).bind
  apply (Cursor.reads_u16 fits.depth).bind
  apply (Cursor.reads_low 1 _).bind
  apply (Cursor.reads_low 1 _).bind
  apply (reads_address narrow fits.rootAddress).bind
  apply (Cursor.reads_u16 fits.rootRecords).bind
  exact (FractalHeap.reads_any fits.widths.length_le _).bind_pure fun _ => tree.header

theorem encodeHeader_length : (tree.encodeHeader sizes).length = headerLen sizes := by
  unfold StoredTree.encodeHeader StoredTree.encodeFields headerLen encodeAddress
    FractalHeap.StoredHeap.encodeStart
  simp only [withChecksum_length, List.length_append, littleEndian_length]
  change 4 + _ + _ + _ = _
  omega

theorem readHeader_eq (fits : tree.Fits view.sizes layout)
    (held : view.Holds tree.address (tree.encodeHeader view.sizes)) :
    readHeader view tree.address = .ok tree.header := by
  obtain ⟨rest, window⟩ := held.readUpto
  have whole : (tree.encodeHeader view.sizes ++ rest).take (headerLen view.sizes) =
    tree.encodeHeader view.sizes :=
    List.take_left' encodeHeader_length
  have fields := parse_withChecksum (reads_fields fits) []
  have sealed := FractalHeap.StoredHeap.expectChecksum_eq "version 2 B-tree header"
    (tree.encodeFields view.sizes) []
  rw [List.append_nil] at fields sealed
  have sound : ¬ (tree.header.recordSize = 0 ∨ tree.header.nodeSize ≤ nodeOverhead) :=
    not_or.mpr ⟨Nat.ne_of_gt fits.recordSize.1, Nat.not_le.mpr fits.nodeSize.1⟩
  unfold readHeader parseHeader
  rw [window, Outcome.ok_bind, whole, StoredTree.encodeHeader, Session.bind_ok fields, Session.bind_ok sealed,
    if_neg sound]
  rfl

theorem collectRoot_eq (fits : tree.Fits view.sizes layout) (held : tree.Held layout view)
    (few : layout.maxNrecSize ≤ 8) (nodes : tree.nodeCount ≤ maxNodes) :
    collectRoot view layout tree.header = .ok tree.records := by
  unfold collectRoot StoredTree.header StoredTree.records StoredTree.rootRecords
  unfold StoredTree.nodeCount at nodes
  cases same : tree.root with
  | none => rfl
  | some root =>
    rw [same] at nodes
    have collected := @collect_eq view layout tree.recordSize tree.recordType
      fits.widths.offset_le few tree.depth
      root ⟨[], 0⟩ (fits.root root same) (held.root root same) (by simpa using nodes)
    simp only [Option.map_some, Option.getD_some]
    rw [collected]
    rfl

/-- A stored tree with too many nodes is not collected. -/
theorem nodeCount_le (fits : tree.Fits view.sizes layout) (held : tree.Held layout view)
    (few : layout.maxNrecSize ≤ 8) {records : List Bytes}
    (done : collectRoot view layout tree.header = .ok records) : tree.nodeCount ≤ maxNodes := by
  unfold collectRoot StoredTree.header StoredTree.rootRecords at done
  unfold StoredTree.nodeCount
  cases same : tree.root with
  | none => exact Nat.zero_le _
  | some root =>
    rw [same] at done
    simp only [Option.map_some, Option.getD_some] at done ⊢
    obtain ⟨_, collected, -⟩ := Outcome.bind_eq_ok.mp done
    have counted := visited_of_collect fits.widths.offset_le few (fits.root root same) (held.root root same)
      (Prod.ext collected rfl)
    have limit := (bounded_collect tree.depth root.address (root.body.recordCount tree.depth)
      ⟨[], 0⟩ (Nat.zero_le _)).2 () collected
    rw [counted] at limit
    exact (Nat.le_add_left _ _).trans limit

theorem maxNrecSize_le (fits : tree.Fits sizes layout) : maxNrecSize tree.nodeSize tree.recordSize ≤ 8 := by
  have leaf : leafMax tree.nodeSize tree.recordSize ≤ tree.nodeSize :=
    (Nat.div_le_self _ _).trans (Nat.sub_le _ _)
  have narrow := encSize_le (by decide) (lt_of_le_of_lt leaf fits.nodeSize.2)
  exact narrow.trans (by decide)

/-- What is left to do behind the header of a stored tree. -/
theorem read_derive (fits : tree.Fits view.sizes layout) (held : tree.Held layout view) :
    read build view tree.address = NodeLayout.derive build tree.nodeSize tree.recordSize tree.depth
      view.sizes.offset >>= fun layout => collectRoot view layout tree.header >>= fun records =>
        .ok ⟨tree.recordType, tree.recordSize, records⟩ := by
  unfold read
  rw [readHeader_eq fits held.header]
  rfl

theorem narrow_of_derive (fits : tree.Fits sizes layout)
    (widths : NodeLayout.derive .release tree.nodeSize tree.recordSize tree.depth sizes.offset = .ok layout) :
    layout.maxNrecSize ≤ 8 := by
  obtain ⟨levels, -, rfl⟩ := derive_eq_ok.mp widths
  exact maxNrecSize_le fits

/-- Both builds derive the same widths, where the count of a full tree is a word. -/
theorem derive_of_countable (fits : tree.Fits sizes layout)
    (widths : NodeLayout.derive .release tree.nodeSize tree.recordSize tree.depth sizes.offset = .ok layout)
    (small : build = .debug →
      (derivedLevel tree.nodeSize tree.recordSize sizes.offset tree.depth).cumMaxNrec < wordSize) :
    NodeLayout.derive build tree.nodeSize tree.recordSize tree.depth sizes.offset = .ok layout := by
  have positive := fits.recordSize.1
  have word : tree.nodeSize < wordSize := lt_trans fits.nodeSize.2 (by decide)
  obtain ⟨levels, derived, parts⟩ := derive_eq_ok.mp widths
  cases build with
  | release => exact widths
  | debug =>
    have count := small rfl
    rw [derive_eq_ok]
    refine ⟨levels, ?_, parts⟩
    rw [← derived, deriveLevels_of_lt positive word (.inr count),
      deriveLevels_of_lt positive word (.inr count)]

/-- A stored tree is read as its records where the count of a full tree of its depth is a word. -/
theorem read_of_countable (fits : tree.Fits view.sizes layout) (held : tree.Held layout view)
    (widths : NodeLayout.derive .release tree.nodeSize tree.recordSize tree.depth view.sizes.offset =
      .ok layout) (few : tree.nodeCount ≤ maxNodes)
    (small : build = .debug →
      (derivedLevel tree.nodeSize tree.recordSize view.sizes.offset tree.depth).cumMaxNrec < wordSize) :
    read build view tree.address = .ok ⟨tree.recordType, tree.recordSize, tree.records⟩ := by
  rw [read_derive fits held, derive_of_countable fits widths small, Outcome.ok_bind,
    collectRoot_eq fits held (narrow_of_derive fits widths) few]
  rfl

theorem read_of_uncountable (fits : tree.Fits view.sizes layout) (held : tree.Held layout view)
    (large : wordSize ≤
      (derivedLevel tree.nodeSize tree.recordSize view.sizes.offset tree.depth).cumMaxNrec) :
    (read .debug view tree.address).Panics := by
  have word : tree.nodeSize < wordSize := lt_trans fits.nodeSize.2 (by decide)
  have panics := (deriveLevels_debug fits.recordSize.1 word).mpr large
  rw [read_derive fits held, NodeLayout.derive]
  exact Outcome.panics_bind.mpr (.inl (Outcome.panics_bind.mpr (.inl panics)))

/-- What the reader of a tree relies on: not implausibly many nodes, and a depth whose full tree a
checked build can count. -/
structure StoredTree.Readable (build : Build) (tree : StoredTree) (sizes : Sizes) : Prop where
  few : tree.nodeCount ≤ maxNodes
  counts : build = .debug →
    (derivedLevel tree.nodeSize tree.recordSize sizes.offset tree.depth).cumMaxNrec < wordSize

theorem read_of_readable (fits : tree.Fits view.sizes layout) (held : tree.Held layout view)
    (widths : NodeLayout.derive .release tree.nodeSize tree.recordSize tree.depth view.sizes.offset =
      .ok layout) (readable : tree.Readable build view.sizes) :
    read build view tree.address = .ok ⟨tree.recordType, tree.recordSize, tree.records⟩ :=
  read_of_countable fits held widths readable.few readable.counts

/-- A tree that is read is one that the reader can rely on. -/
theorem readable_of_read (fits : tree.Fits view.sizes layout) (held : tree.Held layout view)
    (widths : NodeLayout.derive .release tree.nodeSize tree.recordSize tree.depth view.sizes.offset =
      .ok layout) {found : BtreeV2} (done : read build view tree.address = .ok found) :
    tree.Readable build view.sizes := by
  have counts : build = .debug →
      (derivedLevel tree.nodeSize tree.recordSize view.sizes.offset tree.depth).cumMaxNrec < wordSize := by
    rintro rfl
    by_contra large
    have panics := read_of_uncountable fits held (Nat.not_lt.mp large)
    rw [done] at panics
    exact Outcome.not_panics_ok _ panics
  refine ⟨?_, counts⟩
  have same := derive_of_countable fits widths counts
  rw [read_derive fits held, same, Outcome.ok_bind] at done
  obtain ⟨records, collected, -⟩ := Outcome.bind_eq_ok.mp done
  exact nodeCount_le fits held (narrow_of_derive fits widths) collected

/-- What is done with a stored tree that is read is done with its records. -/
theorem read_bind_eq_ok {α : Type} (fits : tree.Fits view.sizes layout) (held : tree.Held layout view)
    (widths : NodeLayout.derive .release tree.nodeSize tree.recordSize tree.depth view.sizes.offset =
      .ok layout) {next : BtreeV2 → Code α} {a : α} :
    (read build view tree.address >>= next) = .ok a ↔
      tree.Readable build view.sizes ∧ next ⟨tree.recordType, tree.recordSize, tree.records⟩ = .ok a := by
  rw [Outcome.bind_eq_ok]
  constructor
  · rintro ⟨found, done, later⟩
    have readable := readable_of_read fits held widths done
    rw [read_of_readable fits held widths readable] at done
    obtain rfl := Outcome.ok.inj done
    exact ⟨readable, later⟩
  · rintro ⟨readable, later⟩
    exact ⟨_, read_of_readable fits held widths readable, later⟩

/-- A stored tree is read as its records in order, exactly if the count of a full tree of
its depth is a word or the build does not check. Records that divide what stands beside them
come in ascending order, and no file makes the reader go on for ever. -/
theorem read_collects_iff (fits : tree.Fits view.sizes layout) (held : tree.Held layout view)
    (widths : NodeLayout.derive .release tree.nodeSize tree.recordSize tree.depth view.sizes.offset =
      .ok layout) (few : tree.nodeCount ≤ maxNodes) :
    (read build view tree.address = .ok ⟨tree.recordType, tree.recordSize, tree.records⟩ ↔
      (build = .debug →
        (derivedLevel tree.nodeSize tree.recordSize view.sizes.offset tree.depth).cumMaxNrec < wordSize)) ∧
    (∀ lt : Bytes → Bytes → Prop, (∀ a b c, lt a b → lt b c → lt a c) → tree.Ordered lt →
      tree.records.Pairwise lt) ∧
    ∀ (view : View) (layout : NodeLayout) (recordSize depth address recordCount : Nat),
      (collect view layout recordSize depth address recordCount ⟨[], 0⟩).2.visited ≤ maxNodes + 1 := by
  refine ⟨⟨?_, read_of_countable fits held widths few⟩, fun lt trans ordered => ?_,
    fun view layout recordSize depth address recordCount => ?_⟩
  · rintro found rfl
    by_contra large
    have panics := read_of_uncountable fits held (Nat.not_lt.mp large)
    rw [found] at panics
    exact Outcome.not_panics_ok _ panics
  · unfold StoredTree.records
    cases same : tree.root with
    | none => exact List.Pairwise.nil
    | some root => exact (ordered root same).ascends trans
  · exact (bounded_collect depth address recordCount ⟨[], 0⟩ (Nat.zero_le _)).1

def eightBytes : Sizes := ⟨8, 8⟩

section Forked

/-- One record between two leaves. -/
def leftLeaf : StoredNode 0 := ⟨67, ([[3]] : List Bytes)⟩

def rightLeaf : StoredNode 0 := ⟨78, ([[7], [9]] : List Bytes)⟩

def forkedRoot : StoredNode 1 := ⟨38, (⟨leftLeaf, [([5], rightLeaf)]⟩ : Branch Bytes (StoredNode 0))⟩

def forkedTree : StoredTree where
  address := 0
  recordType := 10
  nodeSize := 64
  recordSize := 1
  depth := 1
  splitPercent := 100
  mergePercent := 40
  root := some forkedRoot

def forkedLayout : NodeLayout := ⟨1, [0, 2]⟩

def encodeLeft : Bytes := Body.encode forkedLayout 8 10 0 leftLeaf.body

def encodeRight : Bytes := Body.encode forkedLayout 8 10 0 rightLeaf.body

def encodeForked : Bytes := Body.encode forkedLayout 8 10 1 forkedRoot.body

def forkedBytes : Bytes := forkedTree.encodeHeader eightBytes ++ (encodeForked ++ (encodeLeft ++ encodeRight))

theorem forkedHeader_length : (forkedTree.encodeHeader eightBytes).length = 38 := encodeHeader_length

theorem encodeForked_length : encodeForked.length = 29 := encode_internal_length _

theorem encodeLeft_length : encodeLeft.length = 11 := encode_leaf_length _

theorem encodeRight_length : encodeRight.length = 12 := encode_leaf_length _

theorem forkedBytes_length : forkedBytes.length ≤ isizeMax := by
  unfold forkedBytes
  rw [List.length_append, List.length_append, List.length_append, forkedHeader_length, encodeForked_length,
    encodeLeft_length, encodeRight_length]
  decide

def forkedView : View where
  file := ⟨forkedBytes, forkedBytes_length⟩
  baseAddress := 0
  sizes := eightBytes

theorem forked_fits : forkedTree.Fits eightBytes forkedLayout where
  widths := ⟨by decide, by decide⟩
  recordType := by decide
  nodeSize := by decide
  recordSize := by decide
  depth := by decide
  rootAddress := by
    rintro a ⟨⟩
    decide
  rootRecords := by decide
  root := by
    rintro root ⟨⟩
    refine ⟨?_, fun child member => ?_⟩
    · exact List.forall_mem_singleton.mpr rfl
    · obtain rfl | rfl : child = leftLeaf ∨ child = rightLeaf := List.mem_pair.mp member
      · exact ⟨by decide, by decide, List.forall_mem_singleton.mpr rfl⟩
      · exact ⟨by decide, by decide, List.forall_mem_cons.mpr ⟨rfl, List.forall_mem_singleton.mpr rfl⟩⟩

theorem forked_held : forkedTree.Held forkedLayout forkedView := by
  obtain ⟨header, root, left, right⟩ := @View.holds_in_turn forkedView _ _ _ _ rfl rfl
  rw [forkedHeader_length] at root
  rw [List.length_append, forkedHeader_length, encodeForked_length] at left
  rw [List.length_append, List.length_append, forkedHeader_length, encodeForked_length, encodeLeft_length] at right
  refine ⟨header, ?_⟩
  rintro node ⟨⟩
  refine ⟨root, fun child member => ?_⟩
  obtain rfl | rfl : child = leftLeaf ∨ child = rightLeaf := List.mem_pair.mp member
  · exact left
  · exact right

/-- The checked build counts 329 records below a full tree, and reads the four that are there. -/
theorem read_collects_forked : read .debug forkedView 0 = .ok ⟨10, 1, [[3], [5], [7], [9]]⟩ :=
  (read_collects_iff forked_fits forked_held (by decide) (by decide)).1.mpr fun _ => by decide

end Forked

section Chain

/-- One record below two nodes that have no record of their own. -/
def chainLeaf : StoredNode 0 := ⟨86, ([[7]] : List Bytes)⟩

def chainMiddle : StoredNode 1 := ⟨65, (⟨chainLeaf, []⟩ : Branch Bytes (StoredNode 0))⟩

def chainRoot : StoredNode 2 := ⟨38, (⟨chainMiddle, []⟩ : Branch Bytes (StoredNode 1))⟩

/-- A full tree of these node and record sizes would have more than `2 ^ 64` records. -/
def chainTree : StoredTree where
  address := 0
  recordType := 10
  nodeSize := 2 ^ 24
  recordSize := 1
  depth := 2
  splitPercent := 100
  mergePercent := 40
  root := some chainRoot

def chainLayout : NodeLayout := ⟨3, [0, 6, 8]⟩

def encodeLeaf : Bytes := Body.encode chainLayout 8 10 0 chainLeaf.body

def encodeMiddle : Bytes := Body.encode chainLayout 8 10 1 chainMiddle.body

def encodeRoot : Bytes := Body.encode chainLayout 8 10 2 chainRoot.body

def chainBytes : Bytes := chainTree.encodeHeader eightBytes ++ (encodeRoot ++ (encodeMiddle ++ encodeLeaf))

theorem chainHeader_length : (chainTree.encodeHeader eightBytes).length = 38 := encodeHeader_length

theorem encodeRoot_length : encodeRoot.length = 27 := encode_internal_length _

theorem encodeMiddle_length : encodeMiddle.length = 21 := encode_internal_length _

theorem encodeLeaf_length : encodeLeaf.length = 11 := encode_leaf_length _

theorem chainBytes_length : chainBytes.length ≤ isizeMax := by
  unfold chainBytes
  rw [List.length_append, List.length_append, List.length_append, chainHeader_length, encodeRoot_length,
    encodeMiddle_length, encodeLeaf_length]
  decide

/-- A file with nothing but the tree in it. -/
def chainView : View where
  file := ⟨chainBytes, chainBytes_length⟩
  baseAddress := 0
  sizes := eightBytes

theorem chain_fits : chainTree.Fits eightBytes chainLayout where
  widths := ⟨by decide, by decide⟩
  recordType := by decide
  nodeSize := by decide
  recordSize := by decide
  depth := by decide
  rootAddress := by
    rintro a ⟨⟩
    decide
  rootRecords := by decide
  root := by
    rintro root ⟨⟩
    refine ⟨nofun, fun child member => ?_⟩
    obtain rfl : child = chainMiddle := List.mem_singleton.mp member
    refine ⟨by decide, by decide, nofun, fun child member => ?_⟩
    obtain rfl : child = chainLeaf := List.mem_singleton.mp member
    refine ⟨by decide, by decide, fun record member => ?_⟩
    obtain rfl : record = [7] := List.mem_singleton.mp member
    rfl

theorem chain_held : chainTree.Held chainLayout chainView := by
  obtain ⟨header, root, middle, leaf⟩ := @View.holds_in_turn chainView _ _ _ _ rfl rfl
  rw [chainHeader_length] at root
  rw [List.length_append, chainHeader_length, encodeRoot_length] at middle
  rw [List.length_append, List.length_append, chainHeader_length, encodeRoot_length,
    encodeMiddle_length] at leaf
  refine ⟨header, ?_⟩
  rintro node ⟨⟩
  refine ⟨root, fun child member => ?_⟩
  obtain rfl : child = chainMiddle := List.mem_singleton.mp member
  refine ⟨middle, fun child member => ?_⟩
  obtain rfl : child = chainLeaf := List.mem_singleton.mp member
  exact leaf

theorem read_collects_overflow : chainTree.Fits eightBytes chainLayout ∧ chainTree.Held chainLayout chainView ∧
    NodeLayout.derive .release (2 ^ 24) 1 2 8 = .ok chainLayout ∧ chainTree.nodeCount = 3 ∧
      read .debug chainView 0 = .panic .overflow := by
  refine ⟨chain_fits, chain_held, by decide, by decide, ?_⟩
  have derived : NodeLayout.derive .debug (2 ^ 24) 1 2 8 = .panic .overflow := by decide
  have header : readHeader chainView 0 = .ok chainTree.header := readHeader_eq chain_fits chain_held.header
  exact Outcome.bind_eq_panic.mpr (.inr ⟨_, header, Outcome.bind_eq_panic.mpr (.inl derived)⟩)

end Chain

end Reading

end Oxcdf.BtreeV2
