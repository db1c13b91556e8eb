import Oxcdf.Dense.Agreed
import Oxcdf.Foundation.Folders
import Oxcdf.Index.Opening
import Oxcdf.Netcdf.Integers
import Oxcdf.ObjectHeader.RoundTrip
import Oxcdf.Superblock.RoundTrip

/-! Datasets by their paths.

The path of a dataset is put together on the way down the index, one name after the
other. A lookup takes a path apart again and follows the names.
-/

set_option autoImplicit false

namespace Oxcdf

open Foundation Objects

section Looking

def GroupIndex.group {Dataset : Type} (index : GroupIndex Dataset) (name : String) : Option (GroupIndex Dataset) :=
  index.groups.find? fun inner => inner.name = name

def GroupIndex.dataset (index : GroupIndex DatasetEntry) (name : String) : Option DatasetEntry :=
  index.datasets.find? fun dataset => dataset.name = name

/-- `path.trim_start_matches('/')`. -/
def trimStart (path : String) : String := String.ofList (path.toList.dropWhile (· = '/'))

def splitPath (path : String) : List String := (path.toList.splitOn '/').map String.ofList

/-- Look up a dataset by an absolute path such as `/subgroup/nested_i16`. -/
def Hdf5File.dataset (hdf5 : Hdf5File) (path : String) : Option DatasetEntry :=
  let trimmed := trimStart path
  if trimmed = "" then none
  else do
    let parts := splitPath trimmed
    let leaf ← parts.getLast?
    let group ← parts.dropLast.foldlM GroupIndex.group hdf5.root
    group.dataset leaf

end Looking

section Strings

/-- The path that leads through some names. -/
def pathOf (names : List String) : String := "/" ++ "/".intercalate names

/-- A name that can stand in a path: it is not empty and has no slash. -/
def PlainName (name : String) : Prop := name ≠ "" ∧ '/' ∉ name.toList

theorem pathOf_toList (names : List String) :
    (pathOf names).toList = '/' :: ['/'].intercalate (names.map String.toList) := by
  simp [pathOf, String.toList_intercalate]

theorem childPath_toList (path name : String) :
    (childPath path name).toList =
      if path = "/" then '/' :: name.toList else path.toList ++ '/' :: name.toList := by
  unfold childPath
  split <;> simp [String.toList_append, toString]

/-- A path that is more than a slash is followed by a slash and the next name. -/
theorem childPath_of_long {path : String} (long : 2 ≤ path.toList.length) (name : String) :
    (childPath path name).toList = path.toList ++ '/' :: name.toList := by
  have more : path ≠ "/" := by
    rintro rfl
    exact absurd long (by decide)
  rw [childPath_toList, if_neg more]

/-- A path without its leading slashes starts with another character. -/
theorem head_trimStart (path : String) : ∀ c ∈ (trimStart path).toList.head?, c ≠ '/' := by
  intro c first
  have kept := List.head?_dropWhile_not (fun c : Char => decide (c = '/')) path.toList
  rw [trimStart, String.toList_ofList] at first
  rw [Option.mem_def.mp first] at kept
  simpa using kept

theorem pathOf_splitPath (path : String) : pathOf (splitPath path) = "/" ++ path := by
  have undone : (splitPath path).map String.toList = path.toList.splitOn '/' := by
    simp [splitPath, List.map_map, Function.comp_def]
  rw [← String.toList_inj, pathOf_toList, undone, List.intercalate_splitOn]
  simp

/-- The first name of a path is not empty when the path does not start with a slash. -/
theorem head_splitPath {path : String} (some_ : path ≠ "") (starts : ∀ c ∈ path.toList.head?, c ≠ '/') :
    ∃ first rest, splitPath path = first :: rest ∧ first ≠ "" := by
  obtain ⟨c, tail, spelt⟩ := List.exists_cons_of_ne_nil fun empty => some_ (String.toList_eq_nil_iff.mp empty)
  have letter : c ≠ '/' := starts c (by simp [spelt])
  obtain ⟨word, words, split⟩ := List.exists_cons_of_ne_nil (List.splitOn_ne_nil '/' tail)
  refine ⟨String.ofList (c :: word), words.map String.ofList, ?_, ?_⟩
  · simp [splitPath, spelt, List.splitOn_cons_eq_if_modifyHead, letter, split]
  · intro empty
    simpa using congrArg String.toList empty

/-- The names that lead to a path are read off it. -/
theorem splitPath_pathOf {names : List String} (some_ : names ≠ []) (plain : ∀ name ∈ names, PlainName name) :
    splitPath (trimStart (pathOf names)) = names := by
  obtain ⟨first, rest, rfl⟩ := List.exists_cons_of_ne_nil some_
  obtain ⟨named, slashless⟩ := plain first List.mem_cons_self
  obtain ⟨c, tail, spelt⟩ := List.exists_cons_of_ne_nil fun empty => named (String.toList_eq_nil_iff.mp empty)
  have letter : c ≠ '/' := by
    rintro rfl
    exact slashless (by simp [spelt])
  -- Only the slash in front of the first name is trimmed.
  have starts : ∃ later, ['/'].intercalate ((first :: rest).map String.toList) = c :: later := by
    cases rest with
    | nil => exact ⟨tail, by simp [spelt]⟩
    | cons next rest => exact ⟨_, by simp only [List.map_cons, List.intercalate_cons_cons, spelt]; rfl⟩
  have trimmed : (trimStart (pathOf (first :: rest))).toList =
      ['/'].intercalate ((first :: rest).map String.toList) := by
    obtain ⟨later, starts⟩ := starts
    rw [trimStart, String.toList_ofList, pathOf_toList, starts]
    simp [letter]
  rw [splitPath, trimmed, List.splitOn_intercalate _ _ (by simp)]
  · simp [Function.comp_def]
  · intro word member
    obtain ⟨name, held, rfl⟩ := List.mem_map.mp member
    exact (plain name held).2

end Strings

section Labels

def indexFolders : Folders (GroupIndex DatasetEntry) DatasetEntry String where
  folders := GroupIndex.groups
  name := GroupIndex.name
  leaves := GroupIndex.datasets
  leafName := DatasetEntry.name

/-- The paths in an index are put together from the names on the way. -/
inductive GroupIndex.Labelled : GroupIndex DatasetEntry → Prop where
  | intro {index : GroupIndex DatasetEntry}
      (datasets : ∀ dataset ∈ index.datasets, dataset.path = childPath index.path dataset.name)
      (groups : ∀ inner ∈ index.groups, inner.path = childPath index.path inner.name)
      (inside : ∀ inner ∈ index.groups, inner.Labelled) : index.Labelled

variable {index : GroupIndex DatasetEntry} {dataset : DatasetEntry} {names : List String}

/-- Below a path that is more than a slash, a dataset's path is that path and the names that lead to it. -/
theorem path_of_stands_below (stands : indexFolders.Stands index names dataset) (labelled : index.Labelled)
    (long : 2 ≤ index.path.toList.length) :
    dataset.path.toList = index.path.toList ++ '/' :: ['/'].intercalate (names.map String.toList) := by
  induction stands with
  | @here index dataset member =>
    cases labelled with
    | intro datasets groups inside =>
      rw [datasets dataset member, childPath_of_long long]
      simp [indexFolders]
  | @inside index inner names dataset member stands ih =>
    cases labelled with
    | intro datasets groups inside =>
      have path := (congrArg String.toList (groups inner member)).trans (childPath_of_long long _)
      obtain ⟨next, rest, rfl⟩ := List.exists_cons_of_ne_nil stands.ne_nil
      rw [ih (inside inner member) (by rw [path]; simp; omega), path]
      simp [indexFolders, List.intercalate_cons_cons]

/-- Below the root the path of a dataset is the one that its names make, when the first of them is not empty. -/
theorem path_of_stands (stands : indexFolders.Stands index names dataset) (labelled : index.Labelled)
    (root : index.path = "/") (named : ∀ name ∈ names.head?, name ≠ "") : dataset.path = pathOf names := by
  rw [← String.toList_inj, pathOf_toList]
  cases stands with
  | here member =>
    cases labelled with
    | intro datasets groups inside =>
      rw [datasets dataset member, childPath_toList, if_pos root]
      simp [indexFolders]
  | @inside _ inner names _ member stands =>
    cases labelled with
    | intro datasets groups inside =>
      have path := congrArg String.toList (groups inner member)
      rw [childPath_toList, if_pos root] at path
      have first : inner.name ≠ "" := named _ rfl
      have letters : 1 ≤ inner.name.toList.length :=
        List.length_pos_of_ne_nil fun empty => first (String.toList_eq_nil_iff.mp empty)
      obtain ⟨next, rest, rfl⟩ := List.exists_cons_of_ne_nil stands.ne_nil
      rw [path_of_stands_below stands (inside inner member) (by rw [path]; simpa using letters), path]
      simp [indexFolders, List.intercalate_cons_cons]

mutual

/-- The datasets at or below a group are those that stand there under some names. -/
theorem mem_datasetsRecursive : ∀ {index : GroupIndex DatasetEntry},
    dataset ∈ index.datasetsRecursive ↔ ∃ names, indexFolders.Stands index names dataset
  | ⟨name, path, address, attributes, complete, groups, datasets⟩ => by
    rw [GroupIndex.datasetsRecursive, List.mem_append, mem_datasetsOfAll]
    constructor
    · rintro (here | ⟨inner, member, names, stands⟩)
      · exact ⟨_, .here here⟩
      · exact ⟨_, .inside member stands⟩
    · rintro ⟨names, here | ⟨member, stands⟩⟩
      · exact .inl ‹_›
      · exact .inr ⟨_, member, _, stands⟩

theorem mem_datasetsOfAll : ∀ {groups : List (GroupIndex DatasetEntry)},
    dataset ∈ GroupIndex.datasetsOfAll groups ↔
      ∃ inner ∈ groups, ∃ names, indexFolders.Stands inner names dataset
  | [] => by simp [GroupIndex.datasetsOfAll]
  | group :: groups => by
    rw [GroupIndex.datasetsOfAll, List.mem_append, mem_datasetsRecursive, mem_datasetsOfAll]
    simp

end

end Labels

section Naming

/-- No two groups of a group have one name, no two datasets have, and every name can stand in a path. -/
structure GroupIndex.WellNamed (index : GroupIndex DatasetEntry) : Prop where
  apart : indexFolders.Apart index
  plain : indexFolders.Named PlainName index

instance (name : String) : Decidable (PlainName name) := inferInstanceAs (Decidable (_ ∧ _))

mutual

def GroupIndex.namesFit : GroupIndex DatasetEntry → Bool
  | ⟨_, _, _, _, _, groups, datasets⟩ =>
    (groups.map GroupIndex.name).Nodup && (datasets.map DatasetEntry.name).Nodup &&
      groups.all (fun inner => PlainName inner.name) && datasets.all (fun dataset => PlainName dataset.name) &&
      GroupIndex.allNamesFit groups

def GroupIndex.allNamesFit : List (GroupIndex DatasetEntry) → Bool
  | [] => true
  | group :: groups => group.namesFit && GroupIndex.allNamesFit groups

end

theorem wellNamed_node {index : GroupIndex DatasetEntry} :
    index.WellNamed ↔ (index.groups.map GroupIndex.name).Nodup ∧ (index.datasets.map DatasetEntry.name).Nodup ∧
      (∀ inner ∈ index.groups, PlainName inner.name) ∧ (∀ dataset ∈ index.datasets, PlainName dataset.name) ∧
      ∀ inner ∈ index.groups, inner.WellNamed := by
  constructor
  · rintro ⟨⟨groups, datasets, inside⟩, ⟨plainGroups, plainDatasets, plainInside⟩⟩
    exact ⟨groups, datasets, plainGroups, plainDatasets, fun inner member =>
      ⟨inside inner member, plainInside inner member⟩⟩
  · rintro ⟨groups, datasets, plainGroups, plainDatasets, inside⟩
    exact ⟨.intro groups datasets fun inner member => (inside inner member).apart,
      .intro plainGroups plainDatasets fun inner member => (inside inner member).plain⟩

mutual

theorem namesFit_iff : ∀ {index : GroupIndex DatasetEntry}, index.namesFit = true ↔ index.WellNamed
  | ⟨name, path, address, attributes, complete, groups, datasets⟩ => by
    rw [wellNamed_node, GroupIndex.namesFit]
    simp only [Bool.and_eq_true, decide_eq_true_eq, List.all_eq_true, allNamesFit_iff, and_assoc]

theorem allNamesFit_iff : ∀ {groups : List (GroupIndex DatasetEntry)},
    GroupIndex.allNamesFit groups = true ↔ ∀ inner ∈ groups, inner.WellNamed
  | [] => by simp [GroupIndex.allNamesFit]
  | group :: groups => by
    rw [GroupIndex.allNamesFit, Bool.and_eq_true, namesFit_iff, allNamesFit_iff]
    simp

end

instance (index : GroupIndex DatasetEntry) : Decidable index.WellNamed := decidable_of_iff _ namesFit_iff

end Naming

section Building

variable {Header Heap : Type} {objects : Objects Header Heap DatasetEntry}

/-- The entry of a dataset is of the name, the path and the address that it was built for. -/
def Objects.NamesDatasets (objects : Objects Header Heap DatasetEntry) : Prop :=
  ∀ header name path address dataset, objects.buildDataset header name path address = .ok dataset →
    dataset.name = name ∧ dataset.path = path ∧ dataset.address = address

/-- A dataset is what its header says. -/
def Objects.Builds (objects : Objects Header Heap DatasetEntry) (dataset : DatasetEntry) : Prop :=
  ∃ header, objects.readHeader dataset.address = .ok header ∧
    objects.buildDataset header dataset.name dataset.path dataset.address = .ok dataset

/-- An index with a name and a path, and what holds of everything in it. -/
structure BuiltAs (objects : Objects Header Heap DatasetEntry) (name path : String)
    (index : GroupIndex DatasetEntry) : Prop where
  name : index.name = name
  path : index.path = path
  labelled : index.Labelled
  builds : ∀ dataset ∈ index.datasetsRecursive, objects.Builds dataset

/-- What one child of a group may add to its record. -/
def EntryBuilt (objects : Objects Header Heap DatasetEntry) (path : String) : Entry DatasetEntry → Prop
  | .dataset dataset => dataset.path = childPath path dataset.name ∧ objects.Builds dataset
  | .datatype => True
  | .group index => BuiltAs objects index.name (childPath path index.name) index

theorem indexChild_built (names : objects.NamesDatasets)
    {build : Nat → String → String → Objects.Walk (GroupIndex DatasetEntry)}
    (each : ∀ address name path, (build address name path).Yields (BuiltAs objects name path)) (path : String)
    (child : Child) : (objects.indexChild build path child).Yields (EntryBuilt objects path) := by
  refine (Session.Yields.lift fun header read => read).bind fun header read => ?_
  dsimp only
  split
  · refine (Session.Yields.lift fun dataset built => built).bind fun dataset built => Session.Yields.pure ?_
    obtain ⟨name, path', address⟩ := names _ _ _ _ _ built
    exact ⟨by rw [path', name], header, by rw [address, read], by rw [name, path', address, built]⟩
  · split
    · exact Session.Yields.pure trivial
    · refine (each _ _ _).bind fun index built => Session.Yields.pure ?_
      exact ⟨rfl, by rw [built.path, built.name], built.labelled, built.builds⟩

theorem indexGroup_built (names : objects.NamesDatasets)
    {build : Nat → String → String → Objects.Walk (GroupIndex DatasetEntry)}
    (each : ∀ address name path, (build address name path).Yields (BuiltAs objects name path)) (address : Nat)
    (name path : String) : (objects.indexGroup build address name path).Yields (BuiltAs objects name path) := by
  refine Session.Yields.last fun header => Session.Yields.last fun attributes =>
    Session.Yields.last fun children => ?_
  refine (Session.Yields.mapM (indexChild_built names each path) children).bind fun entries all => ?_
  have datasets : ∀ dataset ∈ entries.filterMap Entry.dataset?, dataset.path = childPath path dataset.name ∧
      objects.Builds dataset := by
    intro dataset member
    obtain ⟨entry, held, same⟩ := List.mem_filterMap.mp member
    cases entry <;> cases same
    exact all _ held
  have groups : ∀ inner ∈ entries.filterMap Entry.group?, BuiltAs objects inner.name (childPath path inner.name) inner := by
    intro inner member
    obtain ⟨entry, held, same⟩ := List.mem_filterMap.mp member
    cases entry <;> cases same
    exact all _ held
  refine Session.Yields.pure ⟨rfl, rfl, .intro (fun dataset member => (datasets dataset member).1)
    (fun inner member => (groups inner member).path) fun inner member => (groups inner member).labelled, ?_⟩
  intro dataset member
  rcases List.mem_append.mp member with own | below
  · exact (datasets dataset own).2
  · obtain ⟨inner, held, names, stands⟩ := mem_datasetsOfAll.mp below
    exact (groups inner held).builds dataset (mem_datasetsRecursive.mpr ⟨names, stands⟩)

/-- Whatever is indexed has the paths that its names make, and its datasets are what their headers say. -/
theorem buildGroup_built (names : objects.NamesDatasets) : ∀ (levels address : Nat) (name path : String),
    (objects.buildGroup levels address name path).Yields (BuiltAs objects name path)
  | 0, _, _, _ => Session.Yields.throw _
  | levels + 1, address, name, path => by
    refine Session.Yields.last fun fresh => ?_
    split
    · exact indexGroup_built names (buildGroup_built names levels) address name path
    · exact Session.Yields.throw _

theorem buildRoot_built (names : objects.NamesDatasets) {root : Nat} {index : GroupIndex DatasetEntry}
    (built : objects.buildRoot root = .ok index) : BuiltAs objects "" "/" index :=
  buildGroup_built names (maxDepth + 1) root "" "/" ∅ index _ (Prod.ext built rfl)

end Building

section Files

variable {build : Build} {file : FileImage} {strings : Netcdf.VlenStrings} {hdf5 : Hdf5File}
  {dataset : DatasetEntry} {path : String}

theorem buildDataset_names {view : View} {dense : Nat → Option Nat → Code (List Attribute × Bool)}
    {header : ObjectHeader} {name path : String} {address : Nat}
    (built : buildDataset build view dense header name path address = .ok dataset) :
    dataset.name = name ∧ dataset.path = path ∧ dataset.address = address := by
  unfold buildDataset at built
  iterate 8 obtain ⟨_, _, built⟩ := Outcome.bind_eq_ok.mp built
  cases built
  exact ⟨rfl, rfl, rfl⟩

theorem Hdf5File.indexed (opened : Hdf5File.fromSource build file strings = .ok hdf5) :
    ∃ superblock address, Superblock.read build (fileSource file) = .ok superblock ∧
      superblock.rootObjectHeaderAddress = .ok address ∧ hdf5.view = superblock.viewOf file ∧
      ((superblock.viewOf file).objects build).buildRoot address = .ok hdf5.root := by
  obtain ⟨superblock, found, opened⟩ := Outcome.bind_eq_ok.mp opened
  obtain ⟨address, rooted, opened⟩ := Outcome.bind_eq_ok.mp opened
  obtain ⟨root, built, opened⟩ := Outcome.bind_eq_ok.mp opened
  cases opened
  exact ⟨superblock, address, found, rooted, rfl, built⟩

theorem Hdf5File.built (opened : Hdf5File.fromSource build file strings = .ok hdf5) :
    BuiltAs (hdf5.view.objects build) "" "/" hdf5.root := by
  obtain ⟨superblock, address, -, -, view, built⟩ := Hdf5File.indexed opened
  exact buildRoot_built (fun _ _ _ _ _ => buildDataset_names) (view ▸ built)

theorem dataset_eq_locate (hdf5 : Hdf5File) (path : String) :
    hdf5.dataset path =
      if trimStart path = "" then none else indexFolders.locate hdf5.root (splitPath (trimStart path)) := by
  rw [Folders.locate_eq_foldlM]
  rfl

/-- Whatever a file is, a dataset that a path finds is one of the file's, and the path is its own. -/
theorem dataset_found (opened : Hdf5File.fromSource build file strings = .ok hdf5)
    (found : hdf5.dataset path = some dataset) :
    dataset ∈ hdf5.datasets ∧ dataset.path = "/" ++ trimStart path := by
  obtain ⟨-, root, labelled, -⟩ := Hdf5File.built opened
  rw [dataset_eq_locate] at found
  split at found
  · cases found
  · next some_ =>
    have stands := Folders.stands_of_locate found
    refine ⟨mem_datasetsRecursive.mpr ⟨_, stands⟩, ?_⟩
    obtain ⟨first, rest, split, named⟩ := head_splitPath some_ (head_trimStart path)
    rw [path_of_stands stands labelled root (by simp [split, named]), pathOf_splitPath]

theorem trimStart_slash (path : String) : trimStart ("/" ++ trimStart path) = trimStart path := by
  have twice := List.dropWhile_idempotent (fun c : Char => decide (c = '/')) path.toList
  simpa [trimStart, ← String.toList_inj] using twice

/-- Where names are apart and plain, a dataset is found by its own path. -/
theorem dataset_of_path (opened : Hdf5File.fromSource build file strings = .ok hdf5)
    (named : hdf5.root.WellNamed) (member : dataset ∈ hdf5.datasets) (own : dataset.path = "/" ++ trimStart path) :
    hdf5.dataset path = some dataset := by
  obtain ⟨-, root, labelled, -⟩ := Hdf5File.built opened
  obtain ⟨names, stands⟩ := mem_datasetsRecursive.mp member
  have plain := stands.named named.plain
  -- The path of the dataset is taken apart into the names that lead to it.
  have leads := path_of_stands stands labelled root fun name first => (plain name (List.mem_of_head? first)).1
  have split : splitPath (trimStart path) = names := by
    have back := splitPath_pathOf stands.ne_nil plain
    rwa [← leads, own, trimStart_slash] at back
  have some_ : trimStart path ≠ "" := by
    intro empty
    have lone : names = [""] := by rw [← split, empty]; rfl
    exact (plain "" (by simp [lone])).1 rfl
  rw [dataset_eq_locate, if_neg some_, split]
  exact stands.locate named.apart

/-- Where names are apart and plain, a path finds exactly the dataset whose path it is. -/
theorem dataset_at_path_iff (opened : Hdf5File.fromSource build file strings = .ok hdf5)
    (named : hdf5.root.WellNamed) (path : String) (dataset : DatasetEntry) :
    hdf5.dataset path = some dataset ↔ dataset ∈ hdf5.datasets ∧ dataset.path = "/" ++ trimStart path :=
  ⟨dataset_found opened, fun held => dataset_of_path opened named held.1 held.2⟩

end Files

section Nested

open Netcdf

/-- A header of one block at an address, as the first version stores it. -/
def plainHeader (address : Nat) (entries : List ObjectHeader.Entry) : Bytes :=
  let header : ObjectHeader.StoredHeader := ⟨address, .one entries.length 1, fun _ => ⟨entries, []⟩⟩
  header.encodeStart ObjectHeader.eightByte ++ header.encodeBlock ObjectHeader.eightByte (address + 16)

/-- Two integers of two bytes, the higher byte first. -/
def twoShorts : Bytes := encodeInteger .big 2 (-2) ++ encodeInteger .big 2 300

/-- A file with the dataset `v` in the group `g`. -/
def nestedFile : FileImage where
  bytes := (Superblock.cachedRoot none).encode ++ (plainHeader 96 [.message 0x06 0 0 (Dense.linkTo 103 132)] ++
    (plainHeader 132 [.message 0x06 0 0 (Dense.linkTo 118 168)] ++
      plainHeader 168 [.message 0x01 0 0 [2, 1, 0, 1, 2, 0, 0, 0, 0, 0, 0, 0],
        .message 0x03 0 0 (encodeType 1 .big true 2), .message 0x08 0 0 ([3, 0, 4, 0] ++ twoShorts)]))
  bounded := by decide +kernel

def noStrings : VlenStrings := fun _ _ => .ok []

/-- The file that an attempt to open one gives, or one with nothing in it. -/
def orEmpty : Code Hdf5File → Hdf5File
  | .ok hdf5 => hdf5
  | _ => ⟨emptyView, ⟨"", "/", 0, [], true, [], []⟩, noStrings⟩

theorem eq_orEmpty {attempt : Code Hdf5File} (opens : (attempt >>= fun _ => .ok ()) = (.ok () : Code Unit)) :
    attempt = .ok (orEmpty attempt) := by
  obtain ⟨hdf5, rfl, -⟩ := Outcome.bind_eq_ok.mp opens
  rfl

/-- The file with the dataset, open. -/
def nestedHdf5 : Hdf5File := orEmpty (Hdf5File.fromSource .debug nestedFile noStrings)

theorem nestedFile_opened : Hdf5File.fromSource .debug nestedFile noStrings = .ok nestedHdf5 :=
  eq_orEmpty (by decide +kernel)

theorem nestedHdf5_wellNamed : nestedHdf5.root.WellNamed := by decide +kernel

/-- Leading slashes do not matter. -/
theorem dataset_at_path_nested : ∃ dataset ∈ nestedHdf5.datasets, dataset.path = "/g/v" ∧
    nestedHdf5.dataset "//g/v" = some dataset := by
  have paths : nestedHdf5.datasets.map (·.path) = ["/g/v"] := by decide +kernel
  obtain ⟨dataset, member, path⟩ := List.mem_map.mp (paths ▸ List.mem_singleton_self "/g/v")
  exact ⟨dataset, member, path,
    (dataset_at_path_iff nestedFile_opened nestedHdf5_wellNamed "//g/v" dataset).mpr ⟨member, path.trans (by decide)⟩⟩

end Nested

end Oxcdf
