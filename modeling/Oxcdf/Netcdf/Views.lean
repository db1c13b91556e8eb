import Oxcdf.Classic.Read
import Oxcdf.Foundation.Resorting
import Oxcdf.Index.Paths
import Oxcdf.Netcdf.PhonyNumbers
import Oxcdf.Superblock.Probing

/-! A netCDF file over either container, and its variables bound to their data.

The groups of a netCDF-4 file follow those of the HDF5 file below, and each variable is
looked up there by its path. A classic file has one group, and names alone.
-/

set_option autoImplicit false

namespace Oxcdf

open Foundation Foundation.Buffer Classic

section Groups

/-- A variable by name. -/
def NcGroup.var (group : NcGroup) (name : String) : Option NcVariable :=
  group.vars.find? fun info => info.name = name

def NcGroup.group (group : NcGroup) (name : String) : Option NcGroup :=
  group.groups.find? fun inner => inner.name = name

mutual

/-- Every variable at or below a group, depth first. -/
def NcGroup.variablesRecursive : NcGroup → List NcVariable
  | ⟨_, _, _, vars, _, groups⟩ => vars ++ NcGroup.variablesOfAll groups

def NcGroup.variablesOfAll : List NcGroup → List NcVariable
  | [] => []
  | group :: groups => group.variablesRecursive ++ NcGroup.variablesOfAll groups

end

end Groups

section Files

/-- Which container holds the file. -/
inductive Backend where
  | hdf5 (file : Hdf5File)
  | classic (file : ClassicFile)

structure NetcdfFile where
  backend : Backend
  root : NcGroup

/-- Where a variable's values live. -/
inductive VarStore where
  | hdf5 (dataset : DatasetEntry)
  | classic (var : ClassicVariable)

structure Variable where
  info : NcVariable
  store : VarStore

namespace NetcdfFile

/-- Interpret an already-open HDF5 file as netCDF-4. -/
def fromHdf5 (build : Build) (hdf5 : Hdf5File) : Code NetcdfFile := do
  let root ← Netcdf.fromHdf5 build hdf5
  .ok { backend := .hdf5 hdf5, root }

/-- Interpret an already-open classic file. It is flat: one group and no nested ones. -/
def fromClassic (classic : ClassicFile) : NetcdfFile where
  backend := .classic classic
  root :=
    { name := ""
      path := "/"
      dimensions := classic.dimensions.map fun d =>
        { name := d.name
          len := d.len
          isUnlimited := d.isUnlimited
          id := none
          hasCoordinateVariable := classic.vars.any fun v => v.name = d.name
          isPhony := false }
      vars := classic.vars.map fun v =>
        { name := v.name
          path := s!"/{v.name}"
          dimensions := v.dimensions
          shape := v.shape
          attributes := Netcdf.classicAttributes v.attributes
          attributesComplete := true
          isCoordinate := v.dimensions = [v.name] }
      attributes := Netcdf.classicAttributes classic.attributes
      groups := [] }

/-- Open a netCDF file over its bytes, whichever container they are. -/
def fromByteSource (build : Build) (file : FileImage) (strings : Netcdf.VlenStrings) : Code NetcdfFile := do
  match ← Container.detect (fileSource file) with
  | .hdf5 => do
    let hdf5 ← Hdf5File.fromSource build file strings
    fromHdf5 build hdf5
  | _ => do
    let classic ← ClassicFile.fromSource build (fileSource file)
    .ok (fromClassic classic)

/-- The front of a file decides what it is opened as. Behind a front that is not classic a signature is looked for. -/
theorem fromByteSource_eq (build : Build) (file : FileImage) (strings : Netcdf.VlenStrings) :
    fromByteSource build file strings =
      if file.classicFront.isSome then ClassicFile.fromSource build (fileSource file) >>= fun classic =>
        .ok (fromClassic classic)
      else if file.signature.isSome then Hdf5File.fromSource build file strings >>= fromHdf5 build
      else .error Container.notContainer := by
  unfold fromByteSource
  rw [Container.detect_eq]
  cases front : file.classicFront with
  | none =>
    cases file.signature with
    | none => rfl
    | some offset => rfl
  | some container =>
    have classic : container ≠ .hdf5 := by
      unfold FileImage.classicFront at front
      split at front
      · exact of_decide_eq_true (Option.filter_eq_some_iff.mp front).2
      · cases front
    cases container with
    | hdf5 => exact absurd rfl classic
    | cdf1 => rfl
    | cdf2 => rfl
    | cdf5 => rfl

variable (file : NetcdfFile)

def variableInfo (path : String) : Option NcVariable := do
  let parts := splitPath (trimStart path)
  let leaf ← parts.getLast?
  let group ← parts.dropLast.foldlM NcGroup.group file.root
  group.var leaf

def storeFor (info : NcVariable) : Option VarStore :=
  match file.backend with
  | .hdf5 hdf5 => (hdf5.dataset info.path).map .hdf5
  | .classic classic => (classic.variableNamed info.name).map .classic

/-- A variable by absolute path, bound to the file so it can be read. -/
def var (path : String) : Option Variable := do
  let info ← file.variableInfo path
  let store ← file.storeFor info
  pure { info, store }

/-- Every variable in the file, bound for reading. -/
def vars : List Variable :=
  file.root.variablesRecursive.filterMap fun info => (file.storeFor info).map fun store => { info, store }

end NetcdfFile

end Files

namespace Netcdf

variable {build : Build} {hdf5 : Hdf5File} {scales : Scales} {resolve : Resolve} {dataset : DatasetEntry}

section Axes

theorem nameEntries_length (attr : Attribute) : ∀ (axis : Nat) (named : List (Option String)),
    (nameEntries hdf5 scales attr axis named).Yields fun slots => slots.length = named.length
  | _, [] => Session.Yields.pure rfl
  | axis, slot :: named => by
    refine Session.Yields.last fun slot => ?_
    refine (nameEntries_length attr (axis + 1) named).bind fun slots long => Session.Yields.pure ?_
    simp [long]

theorem listedAxes_length : (listedAxes hdf5 scales dataset).Yields fun slots =>
    slots.length = dataset.shape.length := by
  have slots : (dataset.shape.map fun _ => (none : Option String)).length = dataset.shape.length :=
    List.length_map _
  unfold listedAxes resolveFromDimensionList
  split
  · split
    · exact Session.Yields.pure slots
    · dsimp only
      split
      · exact Session.Yields.pure slots
      · intro state named after done
        exact (nameEntries_length _ 0 _ state named after done).trans slots
  · exact Session.Yields.pure slots

theorem numberedAxes_length (named : List (Option String)) :
    (numberedAxes scales dataset named).length = named.length := by
  unfold numberedAxes resolveFromCoordinates
  split
  · split
    · split
      · rfl
      · next ids =>
        split
        · rfl
        · next fits =>
          split
          · rfl
          · simp [not_not.mp fits]
    · rfl
  · rfl

theorem resolveDimensions_length (isCoordinate : Bool) :
    (resolveDimensions hdf5 scales resolve dataset isCoordinate).Yields fun names =>
      names.length = dataset.shape.length := by
  unfold resolveDimensions
  split
  · next scalar => exact Session.Yields.pure scalar.symm
  · split
    · next own => exact Session.Yields.pure own.2.symm
    · have named : (namedAxes hdf5 scales dataset).Yields fun named => named.length = dataset.shape.length :=
        listedAxes_length.bind fun slots long => Session.Yields.pure ((numberedAxes_length slots).trans long)
      refine named.bind fun named long => ?_
      intro state names after filled
      have filled := (fillAxes_keeps filled).length_eq
      simp only [axesOf, List.length_mapIdx, List.length_zip, long, min_self] at filled
      exact filled.symm

end Axes

section Trees

/-- A variable shows a dataset: its metadata is the dataset's, without the attributes of the encoding. -/
structure Shows (hdf5 : Hdf5File) (dataset : DatasetEntry) (info : NcVariable) : Prop where
  name : info.name = dataset.name
  path : info.path = dataset.path
  shape : info.shape = dataset.shape
  dimensions : info.dimensions.length = dataset.shape.length
  attributes : info.attributes = visibleAttributes hdf5 dataset.path dataset.attributes

/-- A dataset that the scales make a variable: any but a dimension with no coordinate variable. -/
def isVariable (scales : Scales) (dataset : DatasetEntry) : Bool :=
  !(scales.get dataset.address).any fun scale => !scale.isVariable

/-- A tree of netCDF groups follows an index: the same groups, and a variable for each dataset that is one. -/
inductive Follows (hdf5 : Hdf5File) (scales : Scales) : GroupIndex DatasetEntry → NcGroup → Prop where
  | intro {index : GroupIndex DatasetEntry} {group : NcGroup} (name : group.name = index.name)
      (path : group.path = index.path)
      (vars : List.Forall₂ (Shows hdf5) (index.datasets.filter (isVariable scales)) group.vars)
      (groups : List.Forall₂ (Follows hdf5 scales) index.groups group.groups) : Follows hdf5 scales index group

theorem Follows.name {index : GroupIndex DatasetEntry} {group : NcGroup} (follows : Follows hdf5 scales index group) :
    group.name = index.name := by
  cases follows
  assumption

theorem buildVariable_shows (isCoordinate : Bool) :
    (buildVariable hdf5 scales resolve dataset isCoordinate).Yields (Shows hdf5 dataset) := by
  refine (resolveDimensions_length _).bind fun names long => Session.Yields.pure ?_
  exact ⟨rfl, rfl, rfl, long, rfl⟩

theorem buildEntry_comes (entry : DatasetEntry × Nat) :
    (buildEntry hdf5 scales resolve entry).Yields (Comes (isVariable scales) (Shows hdf5) entry) := by
  unfold buildEntry Comes isVariable
  cases phantom : (scales.get entry.1.address).any fun scale => !scale.isVariable with
  | true =>
    simp only [phantom, if_true]
    exact Session.Yields.pure (by simp)
  | false =>
    simp only [phantom, Bool.false_eq_true, if_false]
    refine (buildVariable_shows _).bind fun info shows => Session.Yields.pure ?_
    simpa using shows

/-- The variables of a group stand in the order of their datasets, though they are built by name. -/
theorem finishGroup_follows {name path : String} {address : Nat} {attributes : List Attribute} {complete : Bool}
    {indices : List (GroupIndex DatasetEntry)} {datasets : List DatasetEntry} {groups : List NcGroup}
    (inside : List.Forall₂ (Follows hdf5 scales) indices groups) :
    (finishGroup hdf5 scales resolve name path attributes groups datasets).Yields
      (Follows hdf5 scales ⟨name, path, address, attributes, complete, indices, datasets⟩) := by
  intro state group after finished
  obtain ⟨built, done, rfl⟩ := finishGroup_eq_ok.mp finished
  have perm : (byName datasets).Perm datasets.zipIdx := List.mergeSort_perm _ _
  refine .intro rfl rfl (comes_resorted perm ?_) inside
  exact Session.Yields.mapM_forall₂ buildEntry_comes _ _ _ _ done

mutual

theorem buildGroup_follows : ∀ index : GroupIndex DatasetEntry,
    (buildGroup hdf5 scales resolve index).Yields (Follows hdf5 scales index)
  | ⟨_, _, _, _, _, groups, _⟩ => (buildGroups_follow groups).bind fun _ inside => finishGroup_follows inside

theorem buildGroups_follow : ∀ indices : List (GroupIndex DatasetEntry),
    (buildGroups hdf5 scales resolve indices).Yields (List.Forall₂ (Follows hdf5 scales) indices)
  | [] => Session.Yields.pure .nil
  | index :: indices =>
    (buildGroup_follows index).bind fun _ first =>
      (buildGroups_follow indices).bind fun _ others => Session.Yields.pure (.cons first others)

end

/-- A child of a group follows a child of the index. -/
theorem exists_followed {indices : List (GroupIndex DatasetEntry)} {groups : List NcGroup}
    (each : List.Forall₂ (Follows hdf5 scales) indices groups) :
    ∀ group ∈ groups, ∃ index ∈ indices, Follows hdf5 scales index group := by
  induction each with
  | nil => simp
  | cons here _ ih => simpa using ⟨.inl here, fun group member => .inr (ih group member)⟩

theorem exists_shown {datasets : List DatasetEntry} {vars : List NcVariable}
    (each : List.Forall₂ (Shows hdf5) datasets vars) : ∀ info ∈ vars, ∃ dataset ∈ datasets, Shows hdf5 dataset info := by
  induction each with
  | nil => simp
  | cons here _ ih => simpa using ⟨.inl here, fun info member => .inr (ih info member)⟩

mutual

/-- The variables of a tree show the datasets of the index that it follows, in their order. -/
theorem variables_of_follows : ∀ {index : GroupIndex DatasetEntry} {group : NcGroup}, Follows hdf5 scales index group →
    List.Forall₂ (Shows hdf5) (index.datasetsRecursive.filter (isVariable scales)) group.variablesRecursive
  | ⟨_, _, _, _, _, _, _⟩, ⟨_, _, _, _, _, _⟩, .intro _ _ vars groups => by
    rw [GroupIndex.datasetsRecursive, NcGroup.variablesRecursive, List.filter_append]
    exact List.rel_append vars (variables_of_all groups)

theorem variables_of_all : ∀ {indices : List (GroupIndex DatasetEntry)} {groups : List NcGroup},
    List.Forall₂ (Follows hdf5 scales) indices groups →
    List.Forall₂ (Shows hdf5) ((GroupIndex.datasetsOfAll indices).filter (isVariable scales))
      (NcGroup.variablesOfAll groups)
  | [], _, .nil => .nil
  | _ :: _, _ :: _, .cons first others => by
    rw [GroupIndex.datasetsOfAll, NcGroup.variablesOfAll, List.filter_append]
    exact List.rel_append (variables_of_follows first) (variables_of_all others)

end

end Trees

section Lookups

def groupFolders : Folders NcGroup NcVariable String where
  folders := NcGroup.groups
  name := NcGroup.name
  leaves := NcGroup.vars
  leafName := NcVariable.name

variable {index : GroupIndex DatasetEntry} {group : NcGroup} {info : NcVariable} {names : List String}

mutual

/-- The variables at or below a group are those that stand there under some names. -/
theorem mem_variablesRecursive : ∀ {group : NcGroup},
    info ∈ group.variablesRecursive ↔ ∃ names, groupFolders.Stands group names info
  | ⟨name, path, dimensions, vars, attributes, groups⟩ => by
    rw [NcGroup.variablesRecursive, List.mem_append, mem_variablesOfAll]
    constructor
    · rintro (here | ⟨inner, member, names, stands⟩)
      · exact ⟨_, .here here⟩
      · exact ⟨_, .inside member stands⟩
    · rintro ⟨names, here | ⟨member, stands⟩⟩
      · exact .inl ‹_›
      · exact .inr ⟨_, member, _, stands⟩

theorem mem_variablesOfAll : ∀ {groups : List NcGroup},
    info ∈ NcGroup.variablesOfAll groups ↔ ∃ inner ∈ groups, ∃ names, groupFolders.Stands inner names info
  | [] => by simp [NcGroup.variablesOfAll]
  | group :: groups => by
    rw [NcGroup.variablesOfAll, List.mem_append, mem_variablesRecursive, mem_variablesOfAll]
    simp

end

/-- A variable stands under the names of a dataset that it shows. -/
theorem stands_of_follows (stands : groupFolders.Stands group names info) (follows : Follows hdf5 scales index group) :
    ∃ dataset, indexFolders.Stands index names dataset ∧ Shows hdf5 dataset info := by
  induction stands generalizing index with
  | here member =>
    obtain ⟨-, -, vars, -⟩ := follows
    obtain ⟨dataset, kept, shows⟩ := exists_shown vars _ member
    have stands : indexFolders.Stands index [dataset.name] dataset := .here (List.mem_of_mem_filter kept)
    rw [← shows.name] at stands
    exact ⟨dataset, stands, shows⟩
  | @inside _ _ names _ member _ ih =>
    obtain ⟨-, -, -, groups⟩ := follows
    obtain ⟨inner, held, follows⟩ := exists_followed groups _ member
    obtain ⟨dataset, below, shows⟩ := ih follows
    have stands : indexFolders.Stands index (inner.name :: names) dataset := .inside held below
    rw [← follows.name] at stands
    exact ⟨dataset, stands, shows⟩

theorem apart_of_follows (apart : indexFolders.Apart index) (follows : Follows hdf5 scales index group) :
    groupFolders.Apart group := by
  induction apart generalizing group with
  | intro folders leaves _ ih =>
    obtain ⟨-, -, vars, groups⟩ := follows
    have groupNames := map_eq_of_forall₂ groups fun _ _ follows => follows.name
    have varNames := map_eq_of_forall₂ vars fun _ _ shows => shows.name
    refine .intro (groupNames ▸ folders) ?_ fun inner member => ?_
    · exact varNames ▸ (List.filter_sublist.map DatasetEntry.name).nodup leaves
    · obtain ⟨index, held, follows⟩ := exists_followed groups inner member
      exact ih index held follows

end Lookups

section Phantoms

/-- A dimension scale whose name says that no variable goes with it. -/
def isPhantom (dataset : DatasetEntry) : Bool := isScale dataset && !(scaleOf dataset 0).isVariable

theorem isPhantom_congr {first second : DatasetEntry} (same : first.attributes = second.attributes) :
    isPhantom first = isPhantom second := by
  unfold isPhantom isScale scaleOf DatasetEntry.attribute
  rw [same]

/-- Of every address that a scale has, one scale is kept. -/
theorem exists_kept : ∀ {scales : List DatasetEntry} {dataset : DatasetEntry}, dataset ∈ scales →
    ∃ kept : Kept scales, kept.dataset.address = dataset.address
  | scale :: scales, dataset, member => by
    by_cases again : dataset.address ∈ scales.map DatasetEntry.address
    · obtain ⟨other, later, same⟩ := List.mem_map.mp again
      obtain ⟨⟨before, kept, after, split, last⟩, address⟩ := exists_kept later
      exact ⟨⟨scale :: before, kept, after, by rw [split]; rfl, last⟩, address.trans same⟩
    · rcases List.mem_cons.mp member with rfl | later
      · exact ⟨⟨[], dataset, scales, rfl, again⟩, rfl⟩
      · exact absurd (List.mem_map_of_mem later) again

/-- The scales of a file make all its datasets variables but the phantoms, when datasets of one address have
one list of attributes. -/
theorem isVariable_eq {next : Int64} (collected : collectDimensionScales build hdf5 = .ok (scales, next))
    (shared : ∀ first ∈ hdf5.datasets, ∀ second ∈ hdf5.datasets, first.address = second.address →
      first.attributes = second.attributes) (member : dataset ∈ hdf5.datasets) :
    isVariable scales dataset = !isPhantom dataset := by
  unfold isVariable
  cases found : scales.get dataset.address with
  | none =>
    -- Had it been a scale, its address would lead to one.
    have plain : isScale dataset = false := by
      by_contra scale
      obtain ⟨kept, same⟩ := exists_kept (List.mem_filter.mpr ⟨member, by simpa using scale⟩)
      have leads : scales.get kept.dataset.address = some (scaleOf kept.dataset kept.id) :=
        (get_eq_some_iff (keys_collected collected)).mpr ((mem_collected collected).mpr ⟨kept, rfl⟩)
      rw [same, found] at leads
      cases leads
    simp [isPhantom, plain]
  | some scale =>
    obtain ⟨kept, same⟩ := (mem_collected collected).mp ((get_eq_some_iff (keys_collected collected)).mp found)
    obtain ⟨address, rfl⟩ := Prod.mk.inj same
    obtain ⟨held, scales⟩ := List.mem_filter.mp kept.mem
    rw [isPhantom_congr (shared _ member _ held address.symm)]
    simp [isPhantom, scales, scaleOf]

end Phantoms

end Netcdf

section Bindings

open Netcdf

variable {build : Build} {image : FileImage} {strings : VlenStrings} {hdf5 : Hdf5File} {file : NetcdfFile}

theorem buildDataset_attributes {view : View} {dense : Nat → Option Nat → Code (List Attribute × Bool)}
    {header : ObjectHeader} {name path : String} {address : Nat} {dataset : DatasetEntry}
    (built : buildDataset build view dense header name path address = .ok dataset) :
    readAttributes view dense header = .ok (dataset.attributes, dataset.attributesComplete) := by
  unfold buildDataset at built
  iterate 7 obtain ⟨_, -, built⟩ := Outcome.bind_eq_ok.mp built
  obtain ⟨⟨attributes, complete⟩, read, built⟩ := Outcome.bind_eq_ok.mp built
  cases built
  exact read

/-- Datasets of one address have one header, and so one list of attributes. -/
theorem attributes_of_address (opened : Hdf5File.fromSource build image strings = .ok hdf5) {first second : DatasetEntry}
    (member : first ∈ hdf5.datasets) (other : second ∈ hdf5.datasets) (same : first.address = second.address) :
    first.attributes = second.attributes := by
  obtain ⟨-, -, -, builds⟩ := Hdf5File.built opened
  obtain ⟨header, read, built⟩ := builds first member
  obtain ⟨header', read', built'⟩ := builds second other
  obtain rfl : header = header' := by
    rw [same, read'] at read
    exact (Outcome.ok.inj read).symm
  exact congrArg Prod.fst (Outcome.ok.inj ((buildDataset_attributes built).symm.trans (buildDataset_attributes built')))

/-- A variable is bound to a dataset that it shows. -/
structure Binds (hdf5 : Hdf5File) (dataset : DatasetEntry) (var : Variable) : Prop where
  shows : Shows hdf5 dataset var.info
  store : var.store = .hdf5 dataset

/-- Where names are apart and plain, a dataset's path is found as it stands. -/
theorem path_trimmed (opened : Hdf5File.fromSource build image strings = .ok hdf5) (named : hdf5.root.WellNamed)
    {names : List String} {dataset : DatasetEntry} (stands : indexFolders.Stands hdf5.root names dataset) :
    splitPath (trimStart dataset.path) = names ∧ dataset.path = "/" ++ trimStart dataset.path := by
  obtain ⟨-, root, labelled, -⟩ := Hdf5File.built opened
  have plain := stands.named named.plain
  have leads := path_of_stands stands labelled root fun name first => (plain name (List.mem_of_head? first)).1
  have back := splitPath_pathOf stands.ne_nil plain
  rw [← leads] at back
  refine ⟨back, ?_⟩
  rw [← pathOf_splitPath, back, leads]

/-- A file viewed as netCDF-4 follows the index of the file below. -/
theorem follows_of_viewed (viewed : NetcdfFile.fromHdf5 build hdf5 = .ok file) :
    ∃ scales next root, collectDimensionScales build hdf5 = .ok (scales, next) ∧
      Follows hdf5 scales hdf5.root root ∧ file = ⟨.hdf5 hdf5, root⟩ := by
  obtain ⟨root, built, done⟩ := Outcome.bind_eq_ok.mp viewed
  obtain ⟨⟨scales, next⟩, collected, built⟩ := Outcome.bind_eq_ok.mp built
  cases done
  exact ⟨scales, next, root, collected, buildGroup_follows hdf5.root _ root _ (Prod.ext built rfl), rfl⟩

theorem variableInfo_eq_locate (file : NetcdfFile) (path : String) :
    file.variableInfo path = groupFolders.locate file.root (splitPath (trimStart path)) := by
  rw [Folders.locate_eq_foldlM]
  rfl

theorem mem_vars {var : Variable} :
    var ∈ file.vars ↔ var.info ∈ file.root.variablesRecursive ∧ file.storeFor var.info = some var.store := by
  simp only [NetcdfFile.vars, List.mem_filterMap, Option.map_eq_some_iff]
  constructor
  · rintro ⟨info, member, store, found, rfl⟩
    exact ⟨member, found⟩
  · rintro ⟨member, found⟩
    exact ⟨var.info, member, var.store, found, rfl⟩

theorem var_eq_some {path : String} {var : Variable} :
    file.var path = some var ↔ file.variableInfo path = some var.info ∧ file.storeFor var.info = some var.store := by
  simp only [NetcdfFile.var, Option.bind_eq_bind, Option.bind_eq_some_iff]
  constructor
  · rintro ⟨info, found, store, stored, same⟩
    cases same
    exact ⟨found, stored⟩
  · rintro ⟨found, stored⟩
    exact ⟨var.info, found, var.store, stored, rfl⟩

/-- Where names are apart and plain, a file viewed as netCDF-4 has one variable for each dataset that is no
phantom, in the order of the file, bound to that dataset, and a path finds exactly the variable whose path it is. -/
theorem variables_bound (opened : Hdf5File.fromSource build image strings = .ok hdf5)
    (viewed : NetcdfFile.fromHdf5 build hdf5 = .ok file) (named : hdf5.root.WellNamed) :
    List.Forall₂ (Binds hdf5) (hdf5.datasets.filter fun dataset => !isPhantom dataset) file.vars ∧
      ∀ path var, file.var path = some var ↔ var ∈ file.vars ∧ var.info.path = "/" ++ trimStart path := by
  obtain ⟨scales, next, root, collected, follows, rfl⟩ := follows_of_viewed viewed
  constructor
  · have kept : hdf5.datasets.filter (fun dataset => !isPhantom dataset) =
        hdf5.datasets.filter (isVariable scales) :=
      List.filter_congr fun dataset member => (isVariable_eq collected
        (fun first held second also same => attributes_of_address opened held also same) member).symm
    rw [kept]
    refine forall₂_filterMap (variables_of_follows follows) fun dataset member info shows => ?_
    have held := List.mem_of_mem_filter member
    obtain ⟨names, stands⟩ := mem_datasetsRecursive.mp held
    have found := dataset_of_path opened named held (path_trimmed opened named stands).2
    refine ⟨⟨info, .hdf5 dataset⟩, ?_, shows, rfl⟩
    simp [NetcdfFile.storeFor, shows.path, found]
  · intro path var
    rw [var_eq_some, mem_vars, variableInfo_eq_locate, Folders.locate_eq_some_iff (apart_of_follows named.apart follows),
      mem_variablesRecursive]
    constructor
    · rintro ⟨stands, stored⟩
      obtain ⟨dataset, stands', shows⟩ := stands_of_follows stands follows
      obtain ⟨split, path'⟩ := path_trimmed opened named stands'
      refine ⟨⟨⟨_, stands⟩, stored⟩, ?_⟩
      -- The names that are looked up lead to the path of the dataset.
      rw [shows.path, path', ← pathOf_splitPath, split, pathOf_splitPath]
    · rintro ⟨⟨⟨names, stands⟩, stored⟩, own⟩
      obtain ⟨dataset, stands', shows⟩ := stands_of_follows stands follows
      obtain ⟨split, path'⟩ := path_trimmed opened named stands'
      rw [← shows.path, own, trimStart_slash] at split
      exact ⟨split ▸ stands, stored⟩

/-- The dataset that a variable of the file is bound to is the one that it shows. -/
theorem shows_of_bound (opened : Hdf5File.fromSource build image strings = .ok hdf5)
    (viewed : NetcdfFile.fromHdf5 build hdf5 = .ok file) (named : hdf5.root.WellNamed) {var : Variable}
    (listed : var ∈ file.vars) {dataset : DatasetEntry} (bound : var.store = .hdf5 dataset) :
    Shows hdf5 dataset var.info := by
  obtain ⟨scales, next, root, collected, follows, rfl⟩ := follows_of_viewed viewed
  obtain ⟨held, stored⟩ := mem_vars.mp listed
  obtain ⟨names, stands⟩ := mem_variablesRecursive.mp held
  obtain ⟨shown, below, shows⟩ := stands_of_follows stands follows
  have found := dataset_of_path opened named (mem_datasetsRecursive.mpr ⟨_, below⟩)
    (path_trimmed opened named below).2
  rw [bound] at stored
  simp only [NetcdfFile.storeFor, shows.path, found, Option.map_some, Option.some.injEq, VarStore.hdf5.injEq] at stored
  exact stored ▸ shows

end Bindings

section Nested

/-- The file with the dataset in a group, viewed as netCDF-4. -/
theorem variables_bound_nested : ∃ file, NetcdfFile.fromHdf5 .debug nestedHdf5 = .ok file ∧
    (∃ var, file.vars = [var] ∧ ∃ dataset, nestedHdf5.datasets = [dataset] ∧ Binds nestedHdf5 dataset var) ∧
      ∃ var, file.var "g/v" = some var ∧ var.info.path = "/g/v" := by
  obtain ⟨file, viewed, seen⟩ : ∃ file, NetcdfFile.fromHdf5 .debug nestedHdf5 = .ok file ∧
      file.vars.map (·.info.path) = ["/g/v"] := by
    have run : (NetcdfFile.fromHdf5 .debug nestedHdf5 >>= fun file => .ok (file.vars.map (·.info.path))) =
        (.ok ["/g/v"] : Code (List String)) := by decide +kernel
    obtain ⟨file, viewed, seen⟩ := Outcome.bind_eq_ok.mp run
    exact ⟨file, viewed, Outcome.ok.inj seen⟩
  obtain ⟨var, all, path⟩ := List.map_eq_singleton_iff.mp seen
  obtain ⟨binds, lookup⟩ := variables_bound nestedFile_opened viewed nestedHdf5_wellNamed
  rw [all] at binds
  refine ⟨file, viewed, ⟨var, all, ?_⟩, var, (lookup "g/v" var).mpr ⟨?_, path.trans (by decide)⟩, path⟩
  · obtain ⟨dataset, none, here, rest, kept⟩ := List.forall₂_cons_right_iff.mp binds
    cases List.forall₂_nil_right_iff.mp rest
    refine ⟨dataset, ?_, here⟩
    -- The one dataset is no phantom.
    exact kept ▸ (List.filter_eq_self.mpr (by decide +kernel)).symm
  · exact all ▸ List.mem_singleton_self var

end Nested

end Oxcdf
