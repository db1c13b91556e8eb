import Oxcdf.Netcdf.Dimensions

/-! The dimensions of the axes that no convention names.

Such an axis avoids the names of the axes before it. The names that the file gives
later axes are not looked at, and an invented name is not compared with anything.
-/

set_option autoImplicit false

namespace Oxcdf.Netcdf

open Foundation

section Filling

/-- The name of every axis that no convention names is the name of no other axis of the variable. -/
def InventedApart (named : List (Option String)) (names : List String) : Prop :=
  ∀ before name after, names = before ++ name :: after → named[before.length]? = some none →
    name ∉ before ∧ name ∉ after

/-- At no axis without a name, in a group with some dimensions and after axes with some names, the name it
gets is one that the file gives a later axis, or an invented one that an earlier axis has. -/
def Clear (dimensions : List NcDimension) : List Axis → List String → Int64 → Prop
  | [], _, _ => True
  | axis :: axes, out, next =>
    match axis.name with
    | some name => Clear dimensions axes (out ++ [name]) next
    | none =>
      match dimensions.find? (serves out axis.len axis.isUnlimited) with
      | some d => d.name ∉ axes.filterMap Axis.name ∧ Clear dimensions axes (out ++ [d.name]) next
      | none =>
        phonyName next ∉ out ++ axes.filterMap Axis.name ∧
          Clear dimensions axes (out ++ [phonyName next]) (next + 1)

/-- The dimensions of the group in hand are some dimensions and others whose names are taken. -/
structure Extends (dimensions : List NcDimension) (out : List String) (state : Naming) : Prop where
  others : ∃ others, state.dimensions = dimensions ++ others ∧ ∀ d ∈ others, d.name ∈ out

variable {build : Build} {dimensions : List NcDimension} {axes : List Axis} {out names : List String}
  {state after : Naming}

namespace Extends

theorem start (state : Naming) (out : List String) : Extends state.dimensions out state :=
  ⟨⟨[], (List.append_nil _).symm, nofun⟩⟩

theorem more (held : Extends dimensions out state) (name : String) :
    Extends dimensions (out ++ [name]) state := by
  obtain ⟨others, same, taken⟩ := held.others
  exact ⟨⟨others, same, fun d member => List.mem_append_left _ (taken d member)⟩⟩

/-- Dimensions whose names are taken serve no axis. -/
theorem find (held : Extends dimensions out state) (len : Nat) (isUnlimited : Bool) :
    state.dimensions.find? (serves out len isUnlimited) = dimensions.find? (serves out len isUnlimited) := by
  obtain ⟨others, same, taken⟩ := held.others
  -- A taken name serves nothing, so only the dimensions there were at first count.
  have none : others.find? (serves out len isUnlimited) = none := by
    refine List.find?_eq_none.mpr fun d member => ?_
    simp [serves, taken d member]
  rw [same, List.find?_append, none, Option.or_none]

end Extends

/-- An axis gets the first dimension that serves it, or an invented one, which is added to the group. -/
theorem resolve_cases {len : Nat} {isUnlimited : Bool} {name : String}
    (resolved : resolve build out len isUnlimited state = (.ok name, after)) :
    (∃ d, state.dimensions.find? (serves out len isUnlimited) = some d ∧ name = d.name ∧ after = state) ∨
    state.dimensions.find? (serves out len isUnlimited) = none ∧ name = phonyName state.next ∧
      after = { state with
        dimensions := state.dimensions ++ [phonyDimension state.next len isUnlimited]
        next := state.next + 1 } := by
  unfold resolve at resolved
  cases found : state.dimensions.find? (serves out len isUnlimited) with
  | some d =>
    rw [found] at resolved
    cases resolved
    exact .inl ⟨d, rfl, rfl, rfl⟩
  | none =>
    rw [found] at resolved
    cases counted : increment build state.next with
    | ok next =>
      simp only [counted, Prod.mk.injEq, Outcome.ok.injEq] at resolved
      obtain ⟨rfl, rfl⟩ := resolved
      rw [increment_eq_ok counted]
      exact .inr ⟨rfl, rfl, rfl⟩
    | error e => simp [counted] at resolved
    | panic p => simp [counted] at resolved

/-- What happens at the first axis, and after it. -/
theorem fillAxes_cons {resolve : Resolve} {axis : Axis}
    (filled : fillAxes resolve (axis :: axes) out state = (.ok names, after)) :
    ∃ name rest middle, names = name :: rest ∧ fillAxes resolve axes (out ++ [name]) middle =
      (.ok rest, after) ∧
      (axis.name = some name ∧ middle = state ∨
        axis.name = none ∧ resolve out axis.len axis.isUnlimited state = (.ok name, middle)) := by
  rw [fillAxes] at filled
  obtain ⟨name, middle, first, filled⟩ := Session.bind_eq_ok.mp filled
  obtain ⟨rest, _, later, done⟩ := Session.bind_eq_ok.mp filled
  cases done
  refine ⟨name, rest, middle, rfl, later, ?_⟩
  unfold nameAxis at first
  cases named : axis.name with
  | some given =>
    rw [named] at first
    cases first
    exact .inl ⟨rfl, rfl⟩
  | none =>
    rw [named] at first
    exact .inr ⟨rfl, first⟩

/-- There is a name for each axis, and an axis that has a name keeps it. -/
theorem fillAxes_keeps {resolve : Resolve} : ∀ {axes : List Axis} {out names : List String} {state : Naming},
    fillAxes resolve axes out state = (.ok names, after) →
    List.Forall₂ (fun axis name => ∀ given, axis.name = some given → name = given) axes names
  | [], _, _, _, filled => by
    cases filled
    exact .nil
  | axis :: axes, _, _, _, filled => by
    obtain ⟨name, rest, middle, rfl, later, first⟩ := fillAxes_cons filled
    refine .cons (fun given same => ?_) (fillAxes_keeps later)
    rcases first with ⟨named, -⟩ | ⟨unnamed, -⟩
    · exact Option.some.inj (named.symm.trans same)
    · cases unnamed.symm.trans same

/-- The same of axes after others: their names also differ from those before. -/
def ApartFrom (out : List String) (axes : List Axis) (names : List String) : Prop :=
  ∀ before name after, names = before ++ name :: after → axes[before.length]?.map Axis.name = some none →
    name ∉ out ++ before ∧ name ∉ after

theorem apartFrom_cons {axis : Axis} {name : String} :
    ApartFrom out (axis :: axes) (name :: names) ↔
      (axis.name = none → name ∉ out ∧ name ∉ names) ∧ ApartFrom (out ++ [name]) axes names := by
  constructor
  · intro apart
    refine ⟨fun unnamed => ?_, fun before other after same unnamed => ?_⟩
    · have first := apart [] name names rfl (congrArg some unnamed)
      rwa [List.append_nil] at first
    · have later := apart (name :: before) other after (congrArg (name :: ·) same) unnamed
      rwa [List.append_assoc]
  · rintro ⟨first, later⟩ before other after same unnamed
    rcases List.cons_eq_append_iff.mp same with ⟨rfl, found⟩ | ⟨front, rfl, found⟩
    · cases found
      rw [List.append_nil]
      exact first (Option.some.inj unnamed)
    · have rest := later front other after found unnamed
      rwa [List.append_assoc] at rest

/-- Axes that are apart from a name have it only where the file gives it to them. -/
theorem mem_names_iff (kept : List.Forall₂ (fun axis name => ∀ given, axis.name = some given → name = given)
      axes names) {name : String} : ∀ {out : List String}, ApartFrom out axes names → name ∈ out →
    (name ∈ names ↔ name ∈ axes.filterMap Axis.name) := by
  induction kept with
  | nil => simp
  | @cons axis other axes names keeps _ ih =>
    intro out apart taken
    obtain ⟨first, later⟩ := apartFrom_cons.mp apart
    have rest := ih later (List.mem_append_left _ taken)
    cases named : axis.name with
    | some given =>
      rw [List.filterMap_cons_some named, List.mem_cons, List.mem_cons, rest, keeps given named]
    | none =>
      have differs : name ≠ other := fun same => (first named).1 (same ▸ taken)
      rw [List.filterMap_cons_none named, List.mem_cons, or_iff_right differs, rest]

theorem apartFrom_iff : ∀ {axes : List Axis} {out names : List String} {state : Naming},
    Extends dimensions out state → fillAxes (resolve build) axes out state = (.ok names, after) →
    (ApartFrom out axes names ↔ Clear dimensions axes out state.next)
  | [], _, _, _, _, filled => by
    cases filled
    exact iff_of_true (fun before name after same _ => by simp at same) trivial
  | axis :: axes, out, _, state, held, filled => by
    obtain ⟨name, rest, middle, rfl, later, first⟩ := fillAxes_cons filled
    have kept := fillAxes_keeps later
    rw [apartFrom_cons]
    rcases first with ⟨named, rfl⟩ | ⟨unnamed, resolved⟩
    · rw [Clear, named, apartFrom_iff (held.more name) later]
      simp
    -- The name of an axis without one can come back only where the file gives it to a later axis.
    · have apart (next : Naming) (extends_ : Extends dimensions (out ++ [name]) next)
          (filled : fillAxes (resolve build) axes (out ++ [name]) next = (.ok rest, after)) :
          (name ∉ rest ∧ ApartFrom (out ++ [name]) axes rest ↔
            name ∉ axes.filterMap Axis.name ∧ Clear dimensions axes (out ++ [name]) next.next) := by
        rw [← apartFrom_iff extends_ filled]
        refine and_congr_left fun others => not_congr ?_
        exact mem_names_iff kept others (List.mem_append_right _ List.mem_cons_self)
      rcases resolve_cases resolved with ⟨d, found, rfl, rfl⟩ | ⟨none_, rfl, rfl⟩
      · have free : d.name ∉ out := by
          have serving := List.find?_some found
          simp only [serves, Bool.decide_and, Bool.and_eq_true, decide_eq_true_eq] at serving
          exact serving.2.2
        rw [held.find] at found
        simp only [Clear, unnamed, found, free, not_false_eq_true, true_and, forall_true_left]
        exact apart _ (held.more d.name) later
      · rw [held.find] at none_
        simp only [Clear, unnamed, none_, forall_true_left, List.mem_append, not_or, and_assoc]
        refine and_congr_right fun _ => apart _ ?_ later
        obtain ⟨others, same, taken⟩ := (held.more (phonyName state.next)).others
        refine ⟨⟨others ++ [phonyDimension state.next axis.len axis.isUnlimited], ?_, ?_⟩⟩
        · change state.dimensions ++ _ = _
          rw [same, List.append_assoc]
        · intro d member
          rcases List.mem_append.mp member with other | new
          · exact taken d other
          · rw [List.mem_singleton.mp new]
            exact List.mem_append_right _ List.mem_cons_self

end Filling

section Resolving

variable {build : Build} (hdf5 : Hdf5File) (scales : Scales)

/-- The names that the file gives the axes of a variable. A coordinate variable names its own axis. -/
def conventionNames (dataset : DatasetEntry) (isCoordinate : Bool) : Step (List (Option String)) :=
  if dataset.shape.length = 0 then pure []
  else if isCoordinate ∧ dataset.shape.length = 1 then pure [some dataset.name]
  else namedAxes hdf5 scales dataset

variable {hdf5 scales} {dataset : DatasetEntry} {isCoordinate : Bool} {names : List String}
  {state after : Naming}

/-- Whatever the conventions read, they leave the dimensions and the counter as they are. -/
def Unchanged (state : Naming) (before : Naming) : Prop :=
  before.dimensions = state.dimensions ∧ before.next = state.next

theorem unchanged_heapAt (state : Naming) (address : Nat) : (heapAt hdf5 address).Keeps (Unchanged state) := by
  intro before same
  unfold heapAt
  split <;> exact same

theorem unchanged_nameFromEntry (state : Naming) (attr : Attribute) (axis : Nat) (slot : Option String) :
    (nameFromEntry hdf5 scales attr axis slot).Keeps (Unchanged state) := by
  unfold nameFromEntry
  refine (Session.Keeps.lift _).bind fun descriptor => ?_
  split
  · exact Session.Keeps.pure _
  · refine (unchanged_heapAt state _).bind fun heap => ?_
    split
    · exact Session.Keeps.pure _
    · exact Session.Keeps.pure _

theorem unchanged_nameEntries (state : Naming) (attr : Attribute) (named : List (Option String)) :
    ∀ axis, (nameEntries hdf5 scales attr axis named).Keeps (Unchanged state) := by
  induction named with
  | nil => exact fun _ => Session.Keeps.pure _
  | cons slot named ih =>
    intro axis
    refine (unchanged_nameFromEntry state attr axis slot).bind fun _ => ?_
    exact (ih (axis + 1)).bind fun _ => Session.Keeps.pure _

theorem unchanged_namedAxes (state : Naming) : (namedAxes hdf5 scales dataset).Keeps (Unchanged state) := by
  refine Session.Keeps.bind ?_ fun _ => Session.Keeps.pure _
  unfold listedAxes resolveFromDimensionList
  split
  · split
    · exact Session.Keeps.pure _
    · dsimp only
      split
      · exact Session.Keeps.pure _
      · exact unchanged_nameEntries state _ _ 0
  · exact Session.Keeps.pure _

theorem unchanged_conventionNames (state : Naming) :
    (conventionNames hdf5 scales dataset isCoordinate).Keeps (Unchanged state) := by
  unfold conventionNames
  split
  · exact Session.Keeps.pure _
  split
  · exact Session.Keeps.pure _
  · exact unchanged_namedAxes state

/-- The axes of a variable are filled from the names that the file gives them. -/
theorem resolveDimensions_fills {resolve : Resolve}
    (resolved : resolveDimensions hdf5 scales resolve dataset isCoordinate state = (.ok names, after)) :
    ∃ named middle, conventionNames hdf5 scales dataset isCoordinate state = (.ok named, middle) ∧
      fillAxes resolve (axesOf dataset named) [] middle = (.ok names, after) := by
  unfold resolveDimensions at resolved
  unfold conventionNames
  split at resolved
  · next scalar =>
    cases resolved
    rw [if_pos scalar]
    exact ⟨[], state, rfl, rfl⟩
  · next ranked =>
    rw [if_neg ranked]
    split at resolved
    · next own =>
      cases resolved
      rw [if_pos own]
      obtain ⟨len, shape⟩ := List.length_eq_one_iff.mp own.2
      refine ⟨_, state, rfl, ?_⟩
      rw [axesOf, shape]
      rfl
    · next other =>
      rw [if_neg other]
      exact Session.bind_eq_ok.mp resolved

/-- The position of an axis has a name in the list of names where it has one among the axes. -/
theorem axesOf_name {named : List (Option String)} {k : Nat} (inside : k < (axesOf dataset named).length) :
    (axesOf dataset named)[k]?.map Axis.name = named[k]? := by
  unfold axesOf at *
  rw [List.length_mapIdx] at inside
  have bound := inside
  rw [List.length_zip] at bound
  rw [List.getElem?_mapIdx, List.getElem?_eq_getElem inside, List.getElem_zip,
    List.getElem?_eq_getElem (show k < named.length by omega)]
  rfl

/-- The names that the axes of a variable get are apart exactly when no axis without a name meets, in the
dimensions of the group and in the counter, a name of another axis. -/
theorem invented_apart_iff
    (resolved : resolveDimensions hdf5 scales (resolve build) dataset isCoordinate state = (.ok names, after)) :
    ∃ named middle, conventionNames hdf5 scales dataset isCoordinate state = (.ok named, middle) ∧
      (InventedApart named names ↔ Clear state.dimensions (axesOf dataset named) [] state.next) := by
  obtain ⟨named, middle, found, filled⟩ := resolveDimensions_fills resolved
  obtain ⟨sameDimensions, sameNext⟩ : Unchanged state middle := by
    have kept := @unchanged_conventionNames hdf5 scales dataset isCoordinate state state ⟨rfl, rfl⟩
    rwa [found] at kept
  have long := (fillAxes_keeps filled).length_eq
  refine ⟨named, middle, found, ?_⟩
  rw [← sameDimensions, ← sameNext, ← apartFrom_iff (.start middle []) filled]
  unfold InventedApart ApartFrom
  refine forall_congr' fun before => forall_congr' fun name => forall_congr' fun later =>
    forall_congr' fun same => ?_
  have inside : before.length < (axesOf dataset named).length := by
    rw [long, same, List.length_append, List.length_cons]
    omega
  rw [axesOf_name inside, List.nil_append]

/-- A dimension of five, and a collection with a reference to it. -/
def scaleX : DimensionScale := ⟨"x", 5, false, 0, true⟩

def references : GlobalHeap := ⟨[⟨1, 1, [0, 1, 0, 0, 0, 0, 0, 0]⟩]⟩

def noGroups : Hdf5File where
  view := emptyView
  root := ⟨"", "/", 0, [], true, [], []⟩
  strings _ _ := .ok []

/-- No entry for the first of two axes, and the reference for the second. -/
def secondListed : Attribute where
  name := "DIMENSION_LIST"
  datatype := ⟨1, 16, .variableLength .sequence Datatype.byteType .nullTerminate .ascii⟩
  dataspace := ⟨.simple, [2], none⟩
  data := List.replicate 16 0 ++ [1, 0, 0, 0, 64, 0, 0, 0, 0, 0, 0, 0, 1, 0, 0, 0]

/-- A variable of so many rows of five, whose second axis alone is listed. -/
def rowsOfFive (rows : Nat) : DatasetEntry :=
  { byteEntry ⟨.simple, [rows, 5], none⟩ with attributes := [secondListed] }

def groupWithX : Naming := ⟨[(64, references)], [scaleX.dimension], 1⟩

theorem invented_apart_fourRows : ∃ named,
    conventionNames noGroups [(256, scaleX)] (rowsOfFive 4) false groupWithX = (.ok named, groupWithX) ∧
      InventedApart named [phonyName 1, "x"] := by
  have resolved : resolveDimensions noGroups [(256, scaleX)] (resolve .debug) (rowsOfFive 4) false groupWithX =
      (.ok [phonyName 1, "x"],
        ⟨[(64, references)], [scaleX.dimension, phonyDimension 1 4 false], 2⟩) := rfl
  obtain ⟨named, middle, found, apart⟩ := invented_apart_iff resolved
  have known : conventionNames noGroups [(256, scaleX)] (rowsOfFive 4) false groupWithX =
      (.ok [none, some "x"], groupWithX) := rfl
  cases known.symm.trans found
  refine ⟨_, known, apart.mpr ⟨?_, trivial⟩⟩
  decide +kernel

/-- The first axis has the length of the dimension that the file gives the second, and gets it too. -/
theorem invented_takes_later :
    conventionNames noGroups [(256, scaleX)] (rowsOfFive 5) false groupWithX =
        (.ok [none, some "x"], groupWithX) ∧
      resolveDimensions noGroups [(256, scaleX)] (resolve .debug) (rowsOfFive 5) false groupWithX =
        (.ok ["x", "x"], groupWithX) ∧
      ¬ InventedApart [none, some "x"] ["x", "x"] := by
  refine ⟨rfl, rfl, fun apart => ?_⟩
  exact (apart [] "x" ["x"] rfl rfl).2 List.mem_cons_self

end Resolving

end Oxcdf.Netcdf
