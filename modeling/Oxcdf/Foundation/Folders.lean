import Mathlib.Data.List.Nodup

/-! Folders in folders, and what is looked up in them by the names on the way.

The folders of a program may be records of any kind. All that is asked of them is what
stands in one and under which name.
-/

set_option autoImplicit false

namespace Foundation

/-- Folders with others and with leaves in them, each under a name. -/
structure Folders (Folder Leaf Name : Type) where
  folders : Folder → List Folder
  name : Folder → Name
  leaves : Folder → List Leaf
  leafName : Leaf → Name

namespace Folders

variable {Folder Leaf Name : Type} (tree : Folders Folder Leaf Name)

/-- A leaf stands below a folder, under the names on the way to it. -/
inductive Stands : Folder → List Name → Leaf → Prop where
  | here {folder : Folder} {leaf : Leaf} (member : leaf ∈ tree.leaves folder) :
      Stands folder [tree.leafName leaf] leaf
  | inside {folder inner : Folder} {names : List Name} {leaf : Leaf} (member : inner ∈ tree.folders folder)
      (stands : Stands inner names leaf) : Stands folder (tree.name inner :: names) leaf

/-- No two folders in one have one name, and no two leaves. -/
inductive Apart : Folder → Prop where
  | intro {folder : Folder} (folders : ((tree.folders folder).map tree.name).Nodup)
      (leaves : ((tree.leaves folder).map tree.leafName).Nodup)
      (inside : ∀ inner ∈ tree.folders folder, Apart inner) : Apart folder

/-- A property of every name below a folder. -/
inductive Named (property : Name → Prop) : Folder → Prop where
  | intro {folder : Folder} (folders : ∀ inner ∈ tree.folders folder, property (tree.name inner))
      (leaves : ∀ leaf ∈ tree.leaves folder, property (tree.leafName leaf))
      (inside : ∀ inner ∈ tree.folders folder, Named property inner) : Named property folder

section Looking

variable [DecidableEq Name]

def folderNamed (folder : Folder) (name : Name) : Option Folder :=
  (tree.folders folder).find? fun inner => tree.name inner = name

def leafNamed (folder : Folder) (name : Name) : Option Leaf :=
  (tree.leaves folder).find? fun leaf => tree.leafName leaf = name

/-- Look a leaf up: all names but the last lead through folders. -/
def locate (folder : Folder) : List Name → Option Leaf
  | [] => none
  | [name] => tree.leafNamed folder name
  | name :: next :: names => (tree.folderNamed folder name).bind fun inner => locate inner (next :: names)

end Looking

variable {tree} {folder : Folder} {names : List Name} {leaf : Leaf}

theorem Stands.ne_nil (stands : tree.Stands folder names leaf) : names ≠ [] := by
  cases stands <;> simp

theorem Stands.named {property : Name → Prop} (stands : tree.Stands folder names leaf)
    (named : tree.Named property folder) : ∀ name ∈ names, property name := by
  induction stands with
  | here member =>
    cases named with
    | intro folders leaves inside => simpa using leaves _ member
  | inside member _ ih =>
    cases named with
    | intro folders leaves inside => simpa using ⟨folders _ member, ih (inside _ member)⟩

section Looking

variable [DecidableEq Name]

/-- The first of some items with distinct names that has the name of a member is that member. -/
theorem find?_name {α : Type} {items : List α} {name : α → Name} (apart : (items.map name).Nodup) {item : α}
    (member : item ∈ items) : (items.find? fun other => name other = name item) = some item := by
  induction items with
  | nil => simp at member
  | cons first items ih =>
    obtain ⟨fresh, apart⟩ := List.nodup_cons.mp apart
    rw [List.find?_cons]
    rcases List.mem_cons.mp member with rfl | later
    · simp
    · have differ : name first ≠ name item := fun same => fresh (same ▸ List.mem_map_of_mem later)
      simp [differ, ih apart later]

/-- Looking a leaf up is to follow all names but the last, and to take the leaf of that one. -/
theorem locate_eq_foldlM (folder : Folder) (names : List Name) :
    tree.locate folder names = names.getLast?.bind fun last =>
      (names.dropLast.foldlM tree.folderNamed folder).bind fun inner => tree.leafNamed inner last := by
  induction names generalizing folder with
  | nil => rfl
  | cons name names ih =>
    cases names with
    | nil => rfl
    | cons next names =>
      rw [locate, List.dropLast_cons_cons, List.foldlM_cons, List.getLast?_cons_cons]
      cases tree.folderNamed folder name with
      | none => simp
      | some inner => exact ih inner

theorem stands_of_locate (found : tree.locate folder names = some leaf) : tree.Stands folder names leaf := by
  induction names generalizing folder with
  | nil => simp [locate] at found
  | cons name names ih =>
    cases names with
    | nil =>
      have named : tree.leafName leaf = name := by simpa using List.find?_some found
      exact named ▸ .here (List.mem_of_find?_eq_some found)
    | cons next names =>
      obtain ⟨inner, here, later⟩ := Option.bind_eq_some_iff.mp found
      have named : tree.name inner = name := by simpa using List.find?_some here
      exact named ▸ .inside (List.mem_of_find?_eq_some here) (ih later)

/-- Where names are apart, what stands under some names is found by them. -/
theorem Stands.locate (stands : tree.Stands folder names leaf) (apart : tree.Apart folder) :
    tree.locate folder names = some leaf := by
  induction stands with
  | here member =>
    cases apart with
    | intro folders leaves inside => exact find?_name leaves member
  | @inside folder inner names leaf member stands ih =>
    cases apart with
    | intro folders leaves inside =>
      obtain ⟨next, names, rfl⟩ := List.exists_cons_of_ne_nil stands.ne_nil
      rw [Folders.locate, folderNamed, find?_name folders member, Option.bind_some]
      exact ih (inside inner member)

theorem locate_eq_some_iff (apart : tree.Apart folder) :
    tree.locate folder names = some leaf ↔ tree.Stands folder names leaf :=
  ⟨stands_of_locate, fun stands => stands.locate apart⟩

end Looking

end Folders

end Foundation
