import Mathlib.Data.Finset.Dedup
import Mathlib.Data.Finset.Lattice.Lemmas
import Oxcdf.Foundation.Unfolding
import Oxcdf.Index

/-! Which graphs of groups are indexed.

The walk of the groups unfolds the graph of hard links, so its record of visited
headers is the list of what the unfolding met. It refuses the second occurrence
of a group wherever that occurs. A cycle always has one, and so has a group that
two links of an acyclic graph lead to.
-/

set_option autoImplicit false

namespace Oxcdf.Objects

open Foundation Foundation.Unfolding

variable {Header Heap Dataset : Type} (objects : Objects Header Heap Dataset)

section Graph

/-- The children of the object at an address. -/
def children (address : Nat) : List Child :=
  match objects.readHeader address >>= objects.resolveChildren with
  | .ok children => children
  | _ => []

def isGroup (child : Child) : Bool :=
  match objects.readHeader child.address with
  | .ok header => !objects.isDataset header && !objects.isCommittedDatatype header
  | _ => false

def isDatasetChild (child : Child) : Bool :=
  match objects.readHeader child.address with
  | .ok header => objects.isDataset header
  | _ => false

/-- The groups that the hard links of a group lead to. -/
def links (address : Nat) : List Nat :=
  ((objects.children address).filter objects.isGroup).map Child.address

/-- Everything that indexing one group reads of it and of its children is there. -/
structure WellFormed (address : Nat) : Prop where
  readable : ∃ header attributes children, objects.readHeader address = .ok header ∧
    objects.readAttributes header = .ok attributes ∧ objects.resolveChildren header = .ok children
  children : ∀ child ∈ objects.children address, ∃ header, objects.readHeader child.address = .ok header ∧
    (objects.isDataset header = true → ∀ name path, ∃ dataset,
      objects.buildDataset header name path child.address = .ok dataset)

/-- The object headers of all groups reached from an address are well formed. -/
def WellFormedBelow (address : Nat) : Prop :=
  ∀ turns group, Path objects.links address turns group → objects.WellFormed group

end Graph

section Records

/-- A record says what the headers of its group and of the group's children say. -/
structure Describes (index : GroupIndex Dataset) : Prop where
  header : ∃ header, objects.readHeader index.address = .ok header ∧
    objects.readAttributes header = .ok (index.attributes, index.attributesComplete)
  groups : index.groups.map (fun inner => (inner.name, inner.path, inner.address)) =
    ((objects.children index.address).filter objects.isGroup).map fun child =>
      (child.name, childPath index.path child.name, child.address)
  datasets : List.Forall₂ (fun child dataset => ∃ header, objects.readHeader child.address = .ok header ∧
      objects.buildDataset header child.name (childPath index.path child.name) child.address = .ok dataset)
    ((objects.children index.address).filter objects.isDatasetChild) index.datasets

/-- There is one record for each path of hard links, and each says what its headers say. -/
structure Whole (index : GroupIndex Dataset) : Prop where
  paths : ∀ turns group, (∃ inner, index.follow turns = some inner ∧ inner.address = group) ↔
    Path objects.links index.address turns group
  records : ∀ turns inner, index.follow turns = some inner → objects.Describes inner

variable {objects}

theorem Describes.links {index : GroupIndex Dataset} (describes : objects.Describes index) :
    index.groups.map GroupIndex.address = objects.links index.address := by
  have addresses := congrArg (List.map fun (record : String × String × Nat) => record.2.2) describes.groups
  rwa [List.map_map, List.map_map] at addresses

theorem follow_cons (index : GroupIndex Dataset) (turn : Nat) (turns : List Nat) :
    index.follow (turn :: turns) = (index.groups[turn]?).bind fun inner => inner.follow turns := by
  rw [GroupIndex.follow]
  cases index.groups[turn]? <;> rfl

/-- A record is whole when it says what its header says and those inside are whole. -/
theorem Whole.of_groups {index : GroupIndex Dataset} (describes : objects.Describes index)
    (inside : ∀ inner ∈ index.groups, objects.Whole inner) : objects.Whole index := by
  have linked : ∀ turn : Nat, (objects.links index.address)[turn]? =
      (index.groups[turn]?).map GroupIndex.address := by
    intro turn
    rw [← describes.links, List.getElem?_map]
  constructor
  · intro turns group
    cases turns with
    | nil =>
      constructor
      · rintro ⟨inner, found, rfl⟩
        cases found
        exact .here _
      · rintro ⟨⟩
        exact ⟨index, rfl, rfl⟩
    | cons turn turns =>
      rw [follow_cons]
      constructor
      · rintro ⟨inner, found, rfl⟩
        obtain ⟨middle, linked', later⟩ := Option.bind_eq_some_iff.mp found
        have path := ((inside middle (List.mem_of_getElem? linked')).paths turns inner.address).mp
          ⟨inner, later, rfl⟩
        exact .step (by rw [linked, linked']; rfl) path
      · intro path
        cases path with
        | step link rest =>
          rw [linked] at link
          obtain ⟨middle, found, rfl⟩ := Option.map_eq_some_iff.mp link
          obtain ⟨inner, later, same⟩ :=
            ((inside middle (List.mem_of_getElem? found)).paths turns group).mpr rest
          exact ⟨inner, by rw [found]; exact later, same⟩
  · intro turns inner found
    cases turns with
    | nil =>
      cases found
      exact describes
    | cons turn turns =>
      rw [follow_cons] at found
      obtain ⟨middle, linked', later⟩ := Option.bind_eq_some_iff.mp found
      exact (inside middle (List.mem_of_getElem? linked')).records turns inner later

end Records

section Visited

/-- A list of groups with no repetition and none of them visited. -/
def Fresh (visited : Finset Nat) (met : List Nat) : Prop := met.Nodup ∧ ∀ group ∈ met, group ∉ visited

theorem fresh_nil (visited : Finset Nat) : Fresh visited [] := ⟨List.nodup_nil, nofun⟩

theorem fresh_append {visited : Finset Nat} {front back : List Nat} :
    Fresh visited (front ++ back) ↔ Fresh visited front ∧ Fresh (visited ∪ front.toFinset) back := by
  unfold Fresh
  rw [List.nodup_append']
  constructor
  · rintro ⟨⟨one, two, apart⟩, new⟩
    refine ⟨⟨one, fun group member => new group (List.mem_append_left _ member)⟩, two, ?_⟩
    intro group member again
    rcases Finset.mem_union.mp again with before | here
    · exact new group (List.mem_append_right _ member) before
    · exact apart (List.mem_toFinset.mp here) member
  · rintro ⟨⟨one, new⟩, two, later⟩
    refine ⟨⟨one, two, fun group here member => ?_⟩, fun group member => ?_⟩
    · exact later group member (Finset.mem_union_right _ (List.mem_toFinset.mpr here))
    · rcases List.mem_append.mp member with here | there
      · exact new group here
      · exact fun before => later group there (Finset.mem_union_left _ before)

theorem fresh_cons {visited : Finset Nat} {group : Nat} {met : List Nat} :
    Fresh visited (group :: met) ↔ group ∉ visited ∧ Fresh (insert group visited) met := by
  have one : Fresh visited [group] ↔ group ∉ visited := by simp [Fresh]
  have same : visited ∪ [group].toFinset = insert group visited := by
    rw [List.toFinset_cons, List.toFinset_nil, Finset.union_comm]
    rfl
  rw [← one, ← same]
  exact @fresh_append visited [group] met

/-- What a walk does that is to meet some groups within the depth limit: it visits
them all if they are new and not too deep, and fails otherwise. -/
def Meets {α : Type} (walk : Walk α) (visited : Finset Nat) (shallow : Prop) (met : List Nat)
    (value : α → Prop) : Prop :=
  (shallow ∧ Fresh visited met ∧ ∃ a, walk visited = (.ok a, visited ∪ met.toFinset) ∧ value a) ∨
    (¬ (shallow ∧ Fresh visited met) ∧ ∃ e after, walk visited = (.error e, after))

namespace Meets

variable {α β : Type} {visited : Finset Nat} {shallow : Prop} {met : List Nat} {value : α → Prop}

theorem pure {a : α} (holds : value a) : Meets (Pure.pure a : Walk α) visited True [] value :=
  .inl ⟨trivial, fresh_nil visited, a, by simp, holds⟩

theorem bind {walk : Walk α} (meets : Meets walk visited shallow met value) {next : α → Walk β}
    {deeper : Prop} {later : List Nat} {result : β → Prop}
    (rest : ∀ a, value a → Meets (next a) (visited ∪ met.toFinset) deeper later result) :
    Meets (walk >>= next) visited (shallow ∧ deeper) (met ++ later) result := by
  rcases meets with ⟨short, fresh, a, found, holds⟩ | ⟨refused, e, after, failed⟩
  · rcases rest a holds with ⟨deep, new, b, done, good⟩ | ⟨refused, e, after, failed⟩
    · refine .inl ⟨⟨short, deep⟩, fresh_append.mpr ⟨fresh, new⟩, b, ?_, good⟩
      rw [Session.bind_ok found, done, List.toFinset_append, Finset.union_assoc]
    · refine .inr ⟨?_, e, after, ?_⟩
      · rintro ⟨⟨-, deep⟩, new⟩
        exact refused ⟨deep, (fresh_append.mp new).2⟩
      · rw [Session.bind_ok found, failed]
  · refine .inr ⟨?_, e, after, Session.bind_error failed⟩
    rintro ⟨⟨short, -⟩, new⟩
    exact refused ⟨short, (fresh_append.mp new).1⟩

theorem map {walk : Walk α} (meets : Meets walk visited shallow met value) {f : α → β} {result : β → Prop}
    (holds : ∀ a, value a → result (f a)) :
    Meets (walk >>= fun a => Pure.pure (f a)) visited shallow met result := by
  rcases meets with ⟨short, fresh, a, found, good⟩ | ⟨refused, e, after, failed⟩
  · exact .inl ⟨short, fresh, f a, Session.bind_ok found, holds a good⟩
  · exact .inr ⟨refused, e, after, Session.bind_error failed⟩

/-- A step that only reads does not meet any group. -/
theorem lift {outcome : Code α} {a : α} (read : outcome = .ok a) {next : α → Walk β} {result : β → Prop}
    (rest : Meets (next a) visited shallow met result) :
    Meets (Session.lift outcome >>= next) visited shallow met result := by
  rw [read, Session.bind_lift_ok]
  exact rest

theorem congr {walk : Walk α} (meets : Meets walk visited shallow met value) {also : Prop}
    (same : shallow ↔ also) : Meets walk visited also met value := by
  unfold Meets at meets ⊢
  rwa [← same]

/-- The walks of the items of a list, one after another. -/
theorem mapM {step : α → Walk β} {deep : α → Prop} {each : α → List Nat} {result : α → β → Prop}
    {items : List α} (meets : ∀ item ∈ items, ∀ visited, Meets (step item) visited (deep item) (each item)
      (result item)) : ∀ visited, Meets (items.mapM step) visited (∀ item ∈ items, deep item)
        (items.flatMap each) (List.Forall₂ result items) := by
  induction items with
  | nil =>
    intro visited
    exact (Meets.pure .nil).congr (by simp)
  | cons item items ih =>
    intro visited
    rw [List.mapM_cons, List.flatMap_cons]
    have rest := ih fun other member => meets other (List.mem_cons_of_mem item member)
    have here := meets item List.mem_cons_self visited
    refine (Meets.bind here fun b good => ?_).congr (List.forall_mem_cons).symm
    exact (rest _).map fun bs all => .cons good all

end Meets

end Visited

section Building

variable {objects}

/-- What the record of one child is. -/
def EntryOf (objects : Objects Header Heap Dataset) (path : String) (child : Child) : Entry Dataset → Prop
  | .dataset dataset => objects.isDatasetChild child = true ∧ objects.isGroup child = false ∧
    ∃ header, objects.readHeader child.address = .ok header ∧
      objects.buildDataset header child.name (childPath path child.name) child.address = .ok dataset
  | .datatype => objects.isDatasetChild child = false ∧ objects.isGroup child = false
  | .group index => objects.isDatasetChild child = false ∧ objects.isGroup child = true ∧
    index.name = child.name ∧ index.path = childPath path child.name ∧ index.address = child.address ∧
      objects.Whole index

theorem groups_of_entries {path : String} {children : List Child} {entries : List (Entry Dataset)}
    (all : List.Forall₂ (objects.EntryOf path) children entries) :
    (entries.filterMap Entry.group?).map (fun inner => (inner.name, inner.path, inner.address)) =
      (children.filter objects.isGroup).map fun child =>
        (child.name, childPath path child.name, child.address) := by
  induction all with
  | nil => rfl
  | @cons child entry children entries here rest ih =>
    cases entry with
    | dataset index => simpa [List.filterMap_cons, Entry.group?, here.2.1] using ih
    | datatype => simpa [List.filterMap_cons, Entry.group?, here.2] using ih
    | group index =>
      obtain ⟨-, isGroup, name, path, address, -⟩ := here
      simpa [List.filterMap_cons, Entry.group?, isGroup, name, path, address] using ih

theorem datasets_of_entries {path : String} {children : List Child} {entries : List (Entry Dataset)}
    (all : List.Forall₂ (objects.EntryOf path) children entries) :
    List.Forall₂ (fun child dataset => ∃ header, objects.readHeader child.address = .ok header ∧
        objects.buildDataset header child.name (childPath path child.name) child.address = .ok dataset)
      (children.filter objects.isDatasetChild) (entries.filterMap Entry.dataset?) := by
  induction all with
  | nil => exact .nil
  | @cons child entry children entries here rest ih =>
    cases entry with
    | dataset index => simpa [List.filterMap_cons, Entry.dataset?, here.1] using ⟨here.2.2, ih⟩
    | datatype => simpa [List.filterMap_cons, Entry.dataset?, here.1] using ih
    | group index => simpa [List.filterMap_cons, Entry.dataset?, here.1] using ih

theorem whole_of_entries {path : String} {children : List Child} {entries : List (Entry Dataset)}
    (all : List.Forall₂ (objects.EntryOf path) children entries) :
    ∀ inner ∈ entries.filterMap Entry.group?, objects.Whole inner := by
  induction all with
  | nil => nofun
  | @cons child entry children entries here rest ih =>
    cases entry with
    | dataset index =>
      rw [List.filterMap_cons_none rfl]
      exact ih
    | datatype =>
      rw [List.filterMap_cons_none rfl]
      exact ih
    | group index =>
      rw [@List.filterMap_cons_some _ _ Entry.group? _ _ index rfl]
      exact List.forall_mem_cons.mpr ⟨here.2.2.2.2.2, ih⟩

/-- Indexing a child meets what its group unfolds to, and nothing if it is none. -/
theorem indexChild_meets {build : Nat → String → String → Walk (GroupIndex Dataset)} {levels : Nat}
    {path : String} {child : Child}
    (here : ∃ header, objects.readHeader child.address = .ok header ∧ (objects.isDataset header = true →
      ∀ name path, ∃ dataset, objects.buildDataset header name path child.address = .ok dataset))
    (below : objects.isGroup child = true → ∀ name path visited, Meets (build child.address name path) visited
      (Bounded objects.links levels child.address) (unfold objects.links levels child.address)
      fun index => index.name = name ∧ index.path = path ∧ index.address = child.address ∧ objects.Whole index)
    (visited : Finset Nat) :
    Meets (objects.indexChild build path child) visited
      (objects.isGroup child = true → Bounded objects.links levels child.address)
      (if objects.isGroup child then unfold objects.links levels child.address else [])
      (objects.EntryOf path child) := by
  obtain ⟨header, read, builds⟩ := here
  have group : objects.isGroup child = (!objects.isDataset header && !objects.isCommittedDatatype header) := by
    rw [isGroup, read]
  have dataset : objects.isDatasetChild child = objects.isDataset header := by
    rw [isDatasetChild, read]
  unfold indexChild
  refine Meets.lift read ?_
  cases isDataset : objects.isDataset header with
  | true =>
    rw [isDataset] at group dataset
    obtain ⟨index, built⟩ := builds isDataset child.name (childPath path child.name)
    rw [if_pos rfl, group]
    refine Meets.lift built ((Meets.pure ?_).congr (iff_of_true trivial nofun))
    exact ⟨dataset, group, header, read, built⟩
  | false =>
    rw [isDataset] at group dataset
    cases committed : objects.isCommittedDatatype header with
    | true =>
      rw [committed] at group
      rw [if_neg Bool.false_ne_true, if_pos rfl, group]
      exact (Meets.pure ⟨dataset, group⟩).congr (iff_of_true trivial nofun)
    | false =>
      rw [committed] at group
      have isGroup : objects.isGroup child = true := group
      rw [if_neg Bool.false_ne_true, if_neg Bool.false_ne_true, if_pos isGroup]
      have inside := below group child.name (childPath path child.name) visited
      exact (inside.map fun index good => ⟨dataset, group, good⟩).congr (by simp [group])

/-- A new group is visited, and an old one refused. -/
theorem Meets.visit {α : Type} {walk : Walk α} {address : Nat} {visited : Finset Nat} {shallow : Prop}
    {met : List Nat} {value : α → Prop} {e : Error}
    (meets : Meets walk (insert address visited) shallow met value) :
    Meets (Objects.visit address >>= fun new => if new = true then walk else Session.throw e) visited shallow
      (address :: met) value := by
  have opened : (Objects.visit address >>= fun new => if new = true then walk else Session.throw e) visited =
      (if decide (address ∉ visited) = true then walk else Session.throw e) (insert address visited) := rfl
  unfold Meets at meets ⊢
  rw [opened, fresh_cons]
  by_cases old : address ∈ visited
  · rw [if_neg (by simpa using old)]
    exact .inr ⟨fun both => both.2.1 old, e, _, rfl⟩
  · rw [if_pos (by simpa using old), List.toFinset_cons, Finset.union_insert, ← Finset.insert_union]
    simpa only [old, not_false_iff, true_and] using meets

theorem flatMap_links (levels : Nat) (address : Nat) :
    (objects.links address).flatMap (unfold objects.links levels) =
    (objects.children address).flatMap fun child =>
      if objects.isGroup child then unfold objects.links levels child.address else [] := by
  rw [links, List.flatMap_map]
  generalize objects.children address = children
  induction children with
  | nil => rfl
  | cons child children ih =>
    rw [List.flatMap_cons, ← ih]
    cases isGroup : objects.isGroup child <;> simp [isGroup]

theorem indexGroup_meets {build : Nat → String → String → Walk (GroupIndex Dataset)} {levels : Nat}
    {address : Nat} (well : objects.WellFormed address) (below : ∀ group ∈ objects.links address,
      ∀ name path visited, Meets (build group name path) visited (Bounded objects.links levels group)
        (unfold objects.links levels group)
        fun index => index.name = name ∧ index.path = path ∧ index.address = group ∧ objects.Whole index)
    (name path : String) (visited : Finset Nat) :
    Meets (objects.indexGroup build address name path) visited
      (∀ group ∈ objects.links address, Bounded objects.links levels group)
      ((objects.links address).flatMap (unfold objects.links levels))
      fun index => index.name = name ∧ index.path = path ∧ index.address = address ∧ objects.Whole index := by
  obtain ⟨header, ⟨attributes, complete⟩, children, read, attributed, resolved⟩ := well.readable
  have listed : objects.children address = children := by
    rw [Objects.children, read, Outcome.ok_bind, resolved]
  have linked : ∀ child ∈ children, objects.isGroup child = true → child.address ∈ objects.links address := by
    intro child member isGroup
    rw [links, listed]
    exact List.mem_map_of_mem (List.mem_filter.mpr ⟨member, isGroup⟩)
  have each : ∀ child ∈ children, ∀ visited, Meets (objects.indexChild build path child) visited _ _ _ :=
    fun child member visited => indexChild_meets (well.children child (listed.symm ▸ member))
      (fun isGroup => below _ (linked child member isGroup)) visited
  unfold indexGroup
  refine Meets.lift read (Meets.lift attributed (Meets.lift resolved ?_))
  rw [flatMap_links, listed]
  refine (Meets.map (Meets.mapM each visited) ?_).congr ?_
  · intro entries all
    refine ⟨rfl, rfl, rfl, ?_⟩
    refine Whole.of_groups ⟨⟨header, read, attributed⟩, ?_, ?_⟩ (whole_of_entries all)
    · rw [listed]
      exact groups_of_entries all
    · rw [listed]
      exact datasets_of_entries all
  · constructor
    · intro deep group member
      rw [links, listed] at member
      obtain ⟨child, inside, rfl⟩ := List.mem_map.mp member
      obtain ⟨among, isGroup⟩ := List.mem_filter.mp inside
      exact deep child among isGroup
    · intro deep child member isGroup
      exact deep _ (linked child member isGroup)

theorem WellFormedBelow.link {address group : Nat} (well : objects.WellFormedBelow address)
    (member : group ∈ objects.links address) : objects.WellFormedBelow group := by
  intro turns target path
  obtain ⟨turn, small, found⟩ := List.mem_iff_getElem.mp member
  exact well (turn :: turns) target (.step (found ▸ List.getElem?_eq_getElem small) path)

theorem buildGroup_meets (levels : Nat) : ∀ {address : Nat}, objects.WellFormedBelow address →
    ∀ name path visited, Meets (objects.buildGroup levels address name path) visited
      (Bounded objects.links levels address) (unfold objects.links levels address)
      fun index => index.name = name ∧ index.path = path ∧ index.address = address ∧ objects.Whole index := by
  induction levels with
  | zero =>
    intro address well name path visited
    exact .inr ⟨fun both => bounded_zero address both.1, _, _, rfl⟩
  | succ levels ih =>
    intro address well name path visited
    have here := indexGroup_meets (well [] address (.here address)) (fun group member => ih (well.link member))
      name path (insert address visited)
    exact (Meets.visit here).congr bounded_succ.symm

end Building

section Claim

variable {objects}

/-- A file whose graph of groups has a cycle is refused, and one whose graph has
none and is not too deep gets one record for each path from the root. -/
structure RefusesOnlyCycles (objects : Objects Header Heap Dataset) (root : Nat) : Prop where
  cyclic : Cyclic objects.links root → ∃ e, objects.buildRoot root = .error e
  acyclic : ¬ Cyclic objects.links root → Bounded objects.links (maxDepth + 1) root →
    ∃ index, objects.buildRoot root = .ok index ∧ index.name = "" ∧ index.path = "/" ∧ index.address = root ∧
      objects.Whole index

/-- Only cycles are refused exactly when, in a graph that is not too deep, each
group is reached by one path. -/
theorem refusesOnlyCycles_iff (root : Nat) (well : objects.WellFormedBelow root) :
    objects.RefusesOnlyCycles root ↔
      (Bounded objects.links (maxDepth + 1) root → Unique objects.links root) := by
  have meets := buildGroup_meets (maxDepth + 1) well "" "/" ∅
  have fresh : ∀ met, Fresh ∅ met ↔ met.Nodup := fun met => by simp [Fresh]
  unfold Meets at meets
  rw [fresh] at meets
  rcases meets with ⟨shallow, once, index, found, good⟩ | ⟨refused, e, after, failed⟩
  · have built : objects.buildRoot root = .ok index := congrArg Prod.fst found
    refine iff_of_true ⟨fun cyclic => absurd cyclic shallow.not_cyclic, fun _ _ => ⟨index, built, good⟩⟩ ?_
    exact fun _ => (nodup_unfold shallow).mp once
  · have built : objects.buildRoot root = .error e := congrArg Prod.fst failed
    constructor
    · intro only shallow
      obtain ⟨index, found, -⟩ := only.acyclic shallow.not_cyclic shallow
      rw [built] at found
      cases found
    · intro unique
      refine ⟨fun _ => ⟨e, built⟩, fun _ shallow => ?_⟩
      exact absurd ⟨shallow, (nodup_unfold shallow).mpr (unique shallow)⟩ refused

/-- A file of groups only, each a list of hard links named by their targets. -/
def groupsOnly (targets : Nat → List Nat) : Objects (List Nat) Unit Unit where
  readHeader address := .ok (targets address)
  isDataset _ := false
  isCommittedDatatype _ := false
  readAttributes _ := .ok ([], true)
  buildDataset _ _ _ _ := .ok ()
  symbolTable _ := .ok none
  readLocalHeap _ := .ok ()
  nameAt _ _ := .ok ""
  readGroupNodeAddresses _ := .ok []
  readSymbolTableNode _ := .ok []
  compactLinks header := .ok (header.map fun address => ⟨toString address, .hard address, none⟩)
  linkInfo _ := .ok none
  readDenseLinks _ _ := .ok []

theorem groupsOnly_wellFormed (targets : Nat → List Nat) (root : Nat) :
    (groupsOnly targets).WellFormedBelow root := by
  intro turns group path
  constructor
  · exact ⟨_, _, _, rfl, rfl, rfl⟩
  · intro child member
    exact ⟨_, rfl, nofun⟩

theorem groupsOnly_links (targets : Nat → List Nat) : (groupsOnly targets).links = targets := by
  funext address
  have listed : (groupsOnly targets).children address =
      (targets address).map fun target => (⟨toString target, target⟩ : Child) := by
    have hard : ∀ target : Nat, hardChild ⟨toString target, .hard target, none⟩ =
        some (⟨toString target, target⟩ : Child) := fun target => rfl
    simp only [children, resolveChildren, denseLinks, groupsOnly, Outcome.ok_bind, List.filterMap_map,
      Function.comp_def, hard, List.filterMap_eq_map', List.filterMap_nil, List.append_nil]
  have groups : (groupsOnly targets).isGroup = fun _ => true := rfl
  rw [links, listed, groups, List.filter_true, List.map_map]
  exact List.map_id _

/-- Two groups in the root. -/
def siblings : Nat → List Nat
  | 0 => [1, 2]
  | _ => []

/-- A group in both of them. -/
def diamond : Nat → List Nat
  | 0 => [1, 2]
  | 1 | 2 => [3]
  | _ => []

/-- Every number links to larger ones only, up to four. -/
theorem bounded_siblings : Bounded siblings (maxDepth + 1) 0 := by
  have lower : ∀ a, ∀ b ∈ siblings a, 4 - b < 4 - a := by
    intro a b member
    unfold siblings at member
    split at member <;> simp at member
    omega
  exact (bounded_of_rank lower 0).mono (by decide)

theorem bounded_diamond : Bounded diamond (maxDepth + 1) 0 := by
  have lower : ∀ a, ∀ b ∈ diamond a, 4 - b < 4 - a := by
    intro a b member
    unfold diamond at member
    split at member <;> simp at member <;> omega
  exact (bounded_of_rank lower 0).mono (by decide)

/-- Two groups that share nothing are indexed. -/
theorem refusesOnlyCycles_siblings : (groupsOnly siblings).RefusesOnlyCycles 0 := by
  refine (refusesOnlyCycles_iff 0 (groupsOnly_wellFormed siblings 0)).mpr fun _ => ?_
  rw [groupsOnly_links]
  exact (nodup_unfold bounded_siblings).mp (by decide +kernel)

/-- A group in two others is taken for a cycle. -/
theorem refuses_diamond :
    (groupsOnly diamond).WellFormedBelow 0 ∧ ¬ (groupsOnly diamond).RefusesOnlyCycles 0 := by
  have failed : GroupIndex.name <$> (groupsOnly diamond).buildRoot 0 =
      .error (.malformed "group link cycle at object header 3") := by decide +kernel
  refine ⟨groupsOnly_wellFormed diamond 0, fun only => ?_⟩
  have shallow : Bounded (groupsOnly diamond).links (maxDepth + 1) 0 := by
    rw [groupsOnly_links]
    exact bounded_diamond
  obtain ⟨index, built, -⟩ := only.acyclic shallow.not_cyclic shallow
  rw [built] at failed
  cases failed

end Claim

end Oxcdf.Objects
