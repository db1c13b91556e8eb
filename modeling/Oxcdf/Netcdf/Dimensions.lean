import Mathlib.Data.List.Sort
import Oxcdf.GlobalHeap.Vlen
import Oxcdf.Index
import Oxcdf.Index.Dataset
import Oxcdf.Netcdf

/-! The netCDF-4 conventions over an indexed HDF5 file: its dimensions, and one
dimension for each axis of each variable.

A dataset may be a dimension scale, and the attributes of a variable may name
scales for its axes. An axis that none of them names gets another dimension of
the group that has its length, or an invented one. The number of an invented
dimension counts over the whole file.
-/

set_option autoImplicit false

namespace Oxcdf

open Foundation Foundation.Buffer

structure NcDimension where
  name : String
  len : Nat
  isUnlimited : Bool
  /-- A classic file stores none. -/
  id : Option Int64
  /-- Whether a variable of the same name shares this dimension. -/
  hasCoordinateVariable : Bool
  /-- Whether it is invented, because the file names none. -/
  isPhony : Bool
  deriving DecidableEq

structure NcVariable where
  name : String
  path : String
  /-- The names of the dimensions, in order. -/
  dimensions : List String
  shape : List Nat
  attributes : List NcAttribute
  attributesComplete : Bool
  /-- Whether it is also a dimension. -/
  isCoordinate : Bool

structure NcGroup where
  name : String
  path : String
  dimensions : List NcDimension
  vars : List NcVariable
  attributes : List NcAttribute
  groups : List NcGroup

/-- An open HDF5 file, as the conventions see it: its metadata, its groups and its strings. -/
structure Hdf5File where
  view : View
  root : GroupIndex DatasetEntry
  strings : Netcdf.VlenStrings

def DatasetEntry.attribute (dataset : DatasetEntry) (name : String) : Option Attribute :=
  dataset.attributes.find? (·.name = name)

section Datasets

variable {Dataset : Type}

mutual

/-- Every dataset at or below a group, depth first. -/
def GroupIndex.datasetsRecursive : GroupIndex Dataset → List Dataset
  | ⟨_, _, _, _, _, groups, datasets⟩ => datasets ++ GroupIndex.datasetsOfAll groups

def GroupIndex.datasetsOfAll : List (GroupIndex Dataset) → List Dataset
  | [] => []
  | group :: groups => group.datasetsRecursive ++ GroupIndex.datasetsOfAll groups

end

end Datasets

namespace Netcdf

variable (build : Build)

section Scales

structure DimensionScale where
  name : String
  len : Nat
  isUnlimited : Bool
  /-- Recorded in the file, or handed out in read order. -/
  id : Int64
  /-- False for a dimension with no coordinate variable. -/
  isVariable : Bool

/-- The dimension scales by the addresses of their object headers, in whatever order the map has. -/
abbrev Scales := List (Nat × DimensionScale)

/-- `HashMap::insert`. -/
def Scales.insert (scales : Scales) (address : Nat) (scale : DimensionScale) : Scales :=
  (address, scale) :: scales.filter (·.1 ≠ address)

/-- `scales.get(&address)`. -/
def Scales.get (scales : Scales) (address : Nat) : Option DimensionScale := scales.lookup address

/-- The scale of an id. Where several have it, the last of them in the order of the map. -/
def Scales.byId (scales : Scales) (id : Int64) : Option DimensionScale :=
  (scales.map Prod.snd).reverse.find? (·.id = id)

/-- The `NAME` of a dimension with no coordinate variable starts with this. -/
def phantomDimensionPrefix : String := "This is a netCDF dimension but not a netCDF variable"

def decodeText (attr : Attribute) : Option String := (decodeAllText attr).bind List.head?

def isScale (dataset : DatasetEntry) : Bool :=
  (dataset.attribute "CLASS").bind decodeText = some "DIMENSION_SCALE"

def recordedId (dataset : DatasetEntry) : Option Int64 :=
  (dataset.attribute "_Netcdf4Dimid").bind fun attr => (decodeInts attr).toOption.bind List.head?

/-- `id.saturating_add(1)`. -/
def saturatingNext (id : Int64) : Int64 := if id = Int64.maxValue then id else id + 1

/-- `next += 1`. -/
def increment (n : Int64) : Code Int64 :=
  if n = Int64.maxValue ∧ build = .debug then .panic .overflow else .ok (n + 1)

theorem increment_eq_ok {build : Build} {n next : Int64}
    (counted : (increment build n : Code Int64) = .ok next) :
    next = n + 1 := by
  unfold increment at counted
  split at counted
  · cases counted
  · exact (Outcome.ok.inj counted).symm

/-- The id of a scale and the counter after it: the recorded id, or the counter's. -/
def numberScale (recorded : Option Int64) (next : Int64) : Code (Int64 × Int64) :=
  match recorded with
  | some id => .ok (id, max next (saturatingNext id))
  | none => do
    let after ← increment build next
    .ok (next, after)

/-- Whether an axis can grow: its maximum has all bits set. -/
def growsOn (dataset : DatasetEntry) (axis : Nat) : Bool :=
  match dataset.maxShape with
  | some max => max[axis]? = some (wordSize - 1)
  | none => false

def scaleOf (dataset : DatasetEntry) (id : Int64) : DimensionScale where
  name := dataset.name
  len := dataset.shape.headD 1
  isUnlimited := growsOn dataset 0
  id := id
  isVariable := !((dataset.attribute "NAME").bind decodeText).any fun name =>
    phantomDimensionPrefix.toList.isPrefixOf name.toList

/-- Collect the scales among some datasets, from some counter on. -/
def collectFrom : List DatasetEntry → Scales → Int64 → Code (Scales × Int64)
  | [], scales, next => .ok (scales, next)
  | dataset :: datasets, scales, next =>
    if !isScale dataset then collectFrom datasets scales next
    else do
      let (id, next) ← numberScale build (recordedId dataset) next
      collectFrom datasets (scales.insert dataset.address (scaleOf dataset id)) next

/-- Every dimension scale of the file, and the first id that no scale has taken. -/
def collectDimensionScales (hdf5 : Hdf5File) : Code (Scales × Int64) :=
  collectFrom build hdf5.root.datasetsRecursive [] 0

end Scales

section Phony

/-- The state of one walk: the collections read, the dimensions of the group in hand, and the number of the
next invented dimension. -/
structure Naming where
  heaps : Vlen.Collections
  dimensions : List NcDimension
  next : Int64

/-- A step of the walk. -/
abbrev Step (α : Type) := Session Naming Error α

/-- How an axis that nothing names gets a dimension: given the names of the axes before it, its length and
whether it can grow. -/
abbrev Resolve := List String → Nat → Bool → Step String

def phonyName (n : Int64) : String := s!"phony_dim_{n}"

/-- Whether a dimension of the group serves an axis. -/
def serves (taken : List String) (len : Nat) (isUnlimited : Bool) (d : NcDimension) : Bool :=
  d.len = len ∧ d.isUnlimited = isUnlimited ∧ d.name ∉ taken

/-- An invented dimension. An empty axis becomes an unlimited one. -/
def phonyDimension (n : Int64) (len : Nat) (isUnlimited : Bool) : NcDimension where
  name := phonyName n
  len := len
  isUnlimited := isUnlimited || len = 0
  id := some n
  hasCoordinateVariable := false
  isPhony := true

/-- `PhonyDims::resolve`: a dimension of the group that serves the axis, or an invented one. -/
def resolve : Resolve := fun taken len isUnlimited state =>
  match state.dimensions.find? (serves taken len isUnlimited) with
  | some d => (.ok d.name, state)
  | none =>
    match increment build state.next with
    | .ok next =>
      (.ok (phonyName state.next), { state with
        dimensions := state.dimensions ++ [phonyDimension state.next len isUnlimited]
        next := next })
    | .error e => (.error e, state)
    | .panic p => (.panic p, state)

end Phony

section Axes

variable (hdf5 : Hdf5File) (scales : Scales)

/-- `HeapCache::get`. -/
def heapAt (address : Nat) : Step GlobalHeap := fun state =>
  match Vlen.collection hdf5.view state.heaps address with
  | .ok (heap, heaps) => (.ok heap, { state with heaps })
  | .error e => (.error e, state)
  | .panic p => (.panic p, state)

/-- The scale that an object of a collection refers to, by the address of its header. -/
def referredScale (object : GlobalHeapObject) : Option DimensionScale :=
  let width := hdf5.view.sizes.offset
  if object.data.length < width then none
  else scales.get (Format.ofLittleEndian (object.data.take width))

/-- The name of an axis from its entry in a `DIMENSION_LIST`; an entry that leads to no scale leaves it. -/
def nameFromEntry (attr : Attribute) (axis : Nat) (slot : Option String) : Step (Option String) := do
  let len := VlenDescriptor.encodedLen hdf5.view.sizes
  let entry := slice attr.data (axis * len) len
  let descriptor ← Session.lift (VlenDescriptor.parse hdf5.view.sizes (Cursor.start entry)).1
  if descriptor.length = 0 then pure slot
  else do
    let heap ← heapAt hdf5 descriptor.collectionAddress
    match (heap.object (descriptor.objectIndex % 2 ^ 16)).bind (referredScale hdf5 scales) with
    | some scale => pure (some scale.name)
    | none => pure slot

def nameEntries (attr : Attribute) : Nat → List (Option String) → Step (List (Option String))
  | _, [] => pure []
  | axis, slot :: named => do
    let slot ← nameFromEntry hdf5 scales attr axis slot
    let named ← nameEntries attr (axis + 1) named
    pure (slot :: named)

/-- Follow a `DIMENSION_LIST` attribute, one entry for each axis. -/
def resolveFromDimensionList (attr : Attribute) (named : List (Option String)) :
    Step (List (Option String)) :=
  if !attr.datatype.class_.isVariableLength then pure named
  else if attr.data.length < named.length * VlenDescriptor.encodedLen hdf5.view.sizes then pure named
  else nameEntries hdf5 scales attr 0 named

/-- Name every axis from `_Netcdf4Coordinates`, one dimension id for each, or none. -/
def resolveFromCoordinates (attr : Attribute) (named : List (Option String)) : List (Option String) :=
  match decodeInts attr with
  | .error _ => named
  | .ok ids =>
    if ids.length ≠ named.length then named
    else if !ids.all fun id => (scales.byId id).isSome then named
    else List.zipWith (fun slot id => slot.orElse fun _ => (scales.byId id).map DimensionScale.name) named ids

/-- The names from a `DIMENSION_LIST`, where there is one. -/
def listedAxes (dataset : DatasetEntry) : Step (List (Option String)) :=
  let slots := dataset.shape.map fun _ => none
  match dataset.attribute "DIMENSION_LIST" with
  | some attr => resolveFromDimensionList hdf5 scales attr slots
  | none => pure slots

/-- Fall back to the dimension ids where an axis has no name. -/
def numberedAxes (dataset : DatasetEntry) (named : List (Option String)) : List (Option String) :=
  if named.any Option.isNone then
    match dataset.attribute "_Netcdf4Coordinates" with
    | some attr => resolveFromCoordinates scales attr named
    | none => named
  else named

/-- The name that the conventions give each axis of a dataset, if any. -/
def namedAxes (dataset : DatasetEntry) : Step (List (Option String)) := do
  let named ← listedAxes hdf5 scales dataset
  pure (numberedAxes scales dataset named)

/-- An axis: its name if it has one, its length and whether it can grow. -/
structure Axis where
  name : Option String
  len : Nat
  isUnlimited : Bool

def axesOf (dataset : DatasetEntry) (named : List (Option String)) : List Axis :=
  (named.zip dataset.shape).mapIdx fun axis entry => ⟨entry.1, entry.2, growsOn dataset axis⟩

/-- The name of one axis, after axes that have some names. -/
def nameAxis (resolve : Resolve) (out : List String) (axis : Axis) : Step String :=
  match axis.name with
  | some name => pure name
  | none => resolve out axis.len axis.isUnlimited

/-- Give each axis a dimension, after axes that have some names. -/
def fillAxes (resolve : Resolve) : List Axis → List String → Step (List String)
  | [], _ => pure []
  | axis :: axes, out => do
    let name ← nameAxis resolve out axis
    let names ← fillAxes resolve axes (out ++ [name])
    pure (name :: names)

def resolveDimensions (resolve : Resolve) (dataset : DatasetEntry) (isCoordinate : Bool) :
    Step (List String) :=
  if dataset.shape.length = 0 then pure []
  -- A coordinate variable is its own dimension.
  else if isCoordinate ∧ dataset.shape.length = 1 then pure [dataset.name]
  else do
    let named ← namedAxes hdf5 scales dataset
    fillAxes resolve (axesOf dataset named) []

end Axes

section Groups

/-- Attributes of the encoding rather than of the data. -/
def reservedAttributes : List String :=
  ["CLASS", "NAME", "DIMENSION_LIST", "REFERENCE_LIST", "_Netcdf4Dimid", "_Netcdf4Coordinates",
    "_nc3_strict", "_NCProperties"]

variable (hdf5 : Hdf5File) (scales : Scales)

def visibleAttributes (owner : String) (attributes : List Attribute) : List NcAttribute :=
  (attributes.filter (·.name ∉ reservedAttributes)).map fun a =>
    ⟨a.name, decodeValue (some hdf5.strings) owner a⟩

def buildVariable (resolve : Resolve) (dataset : DatasetEntry) (isCoordinate : Bool) : Step NcVariable := do
  let dimensions ← resolveDimensions hdf5 scales resolve dataset isCoordinate
  pure {
    name := dataset.name
    path := dataset.path
    dimensions := dimensions
    shape := dataset.shape
    attributes := visibleAttributes hdf5 dataset.path dataset.attributes
    attributesComplete := dataset.attributesComplete
    isCoordinate := isCoordinate }

/-- The datasets of a group by name, each with its position. -/
def byName (datasets : List DatasetEntry) : List (DatasetEntry × Nat) :=
  datasets.zipIdx.mergeSort fun a b => a.1.name ≤ b.1.name

def DimensionScale.dimension (scale : DimensionScale) : NcDimension where
  name := scale.name
  len := scale.len
  isUnlimited := scale.isUnlimited
  id := some scale.id
  hasCoordinateVariable := scale.isVariable
  isPhony := false

def namedDimensions (datasets : List (DatasetEntry × Nat)) : List NcDimension :=
  datasets.filterMap fun entry => (scales.get entry.1.address).map DimensionScale.dimension

/-- The variable of a dataset, with its position. A dimension with no coordinate variable is none. -/
def buildEntry (resolve : Resolve) (entry : DatasetEntry × Nat) : Step (Option (Nat × NcVariable)) :=
  let scale := scales.get entry.1.address
  if scale.any fun scale => !scale.isVariable then pure none
  else do
    let variable_ ← buildVariable hdf5 scales resolve entry.1 scale.isSome
    pure (some (entry.2, variable_))

/-- The order in which dimensions are reported: by id, where they have one, and by name. -/
def reportedBefore (a b : NcDimension) : Bool :=
  let first := a.id.getD Int64.maxValue
  let second := b.id.getD Int64.maxValue
  first < second ∨ first = second ∧ a.name ≤ b.name

/-- The group of some datasets, after the groups in it. -/
def finishGroup (resolve : Resolve) (name path : String) (attributes : List Attribute) (groups : List NcGroup)
    (datasets : List DatasetEntry) : Step NcGroup := do
  let entries := byName datasets
  -- The named dimensions come first: an axis without one of its own may get one of them.
  Session.modify fun state => { state with dimensions := namedDimensions scales entries }
  let built ← entries.mapM (buildEntry hdf5 scales resolve)
  let dimensions ← Session.run fun state => (state.dimensions, state)
  let vars := built.reduceOption.mergeSort fun a b => a.1 ≤ b.1
  pure {
    name := name
    path := path
    dimensions := dimensions.mergeSort reportedBefore
    vars := vars.map Prod.snd
    attributes := visibleAttributes hdf5 path attributes
    groups := groups }

mutual

/-- A netCDF group from an HDF5 group, the groups in it first. -/
def buildGroup (resolve : Resolve) : GroupIndex DatasetEntry → Step NcGroup
  | ⟨name, path, _, attributes, _, groups, datasets⟩ => do
    let groups ← buildGroups resolve groups
    finishGroup hdf5 scales resolve name path attributes groups datasets

def buildGroups (resolve : Resolve) : List (GroupIndex DatasetEntry) → Step (List NcGroup)
  | [] => pure []
  | group :: groups => do
    let first ← buildGroup resolve group
    let others ← buildGroups resolve groups
    pure (first :: others)

end

/-- `NetcdfFile::from_hdf5`: the scales are collected first, since any dataset may refer to any of them. -/
def fromHdf5 : Code NcGroup := do
  let (scales, firstFreeId) ← collectDimensionScales build hdf5
  (buildGroup hdf5 scales (resolve build) hdf5.root ⟨[], [], firstFreeId⟩).1

end Groups

end Netcdf

end Oxcdf
