import Oxcdf.Netcdf.PhonyAxes
import Oxcdf.Netcdf.ScaleIds

/-! The numbers and the names of the invented dimensions, over a whole file.

The walk numbers them one after the other, from the first number above the ids of the
scales. Their names are made of these numbers alone: a dataset of the group may be
called the same.
-/

set_option autoImplicit false

namespace Oxcdf

open Foundation

mutual

def NcGroup.dimensionLists : NcGroup → List (List NcDimension)
  | ⟨_, _, dimensions, _, _, groups⟩ => dimensions :: NcGroup.dimensionListsOfAll groups

def NcGroup.dimensionListsOfAll : List NcGroup → List (List NcDimension)
  | [] => []
  | group :: groups => group.dimensionLists ++ NcGroup.dimensionListsOfAll groups

end

theorem NcGroup.dimensionLists_eq (group : NcGroup) :
    group.dimensionLists = group.dimensions :: NcGroup.dimensionListsOfAll group.groups := by
  cases group
  rfl

def NcGroup.allDimensions (root : NcGroup) : List NcDimension := root.dimensionLists.flatten

namespace Netcdf

section Numbers

/-- Dimensions invented one after the other, from some number on and up to another. -/
def InventedFrom (next : Int64) : List NcDimension → Int64 → Prop
  | [], last => last = next
  | d :: dimensions, last => (d.isPhony ∧ d.id = some next) ∧ InventedFrom (next + 1) dimensions last

variable {dimensions others : List NcDimension} {next middle last : Int64}

theorem InventedFrom.append : ∀ {dimensions : List NcDimension} {next : Int64},
    InventedFrom next dimensions middle → InventedFrom middle others last →
    InventedFrom next (dimensions ++ others) last
  | [], _, first, rest => by
    cases first
    exact rest
  | _ :: _, _, first, rest => ⟨first.1, first.2.append rest⟩

theorem InventedFrom.isPhony : ∀ {dimensions : List NcDimension} {next : Int64},
    InventedFrom next dimensions last → ∀ d ∈ dimensions, d.isPhony
  | _ :: _, _, invented, d, member => by
    rcases List.mem_cons.mp member with rfl | member
    · exact invented.1.1
    · exact invented.2.isPhony d member

theorem InventedFrom.ids : ∀ {dimensions : List NcDimension} {next : Int64},
    InventedFrom next dimensions last →
    dimensions.map NcDimension.id = (List.range dimensions.length).map fun k => some (next + Int64.ofNat k)
  | [], _, _ => rfl
  | d :: dimensions, next, invented => by
    rw [List.map_cons, List.length_cons, List.range_succ_eq_map, List.map_cons, List.map_map,
      invented.2.ids, invented.1.2]
    congr 1
    · simp
    · refine List.map_congr_left fun k _ => congrArg some ?_
      change next + 1 + Int64.ofNat k = next + Int64.ofNat (k + 1)
      rw [Int64.ofNat_add, Int64.add_assoc, Int64.add_comm 1]
      rfl

/-- Up to as many as there are numbers, they all differ. -/
theorem InventedFrom.nodup (invented : InventedFrom next dimensions last) (few : dimensions.length ≤ 2 ^ 64) :
    (dimensions.map NcDimension.id).Nodup := by
  rw [invented.ids]
  refine List.Nodup.map_on (fun first inside second also same => ?_) List.nodup_range
  rw [List.mem_range] at inside also
  have bits := congrArg Int64.toBitVec (Option.some.inj same)
  rw [Int64.toBitVec_add, Int64.toBitVec_add, BitVec.add_right_inj, Int64.toBitVec_ofNat',
    Int64.toBitVec_ofNat'] at bits
  have numbers := congrArg BitVec.toNat bits
  rw [BitVec.toNat_ofNat, BitVec.toNat_ofNat, Nat.mod_eq_of_lt (by omega),
    Nat.mod_eq_of_lt (by omega)] at numbers
  exact numbers

end Numbers

section Guarding

/-- An invented dimension of a group has a name of its own. -/
def NamesApart (dimensions : List NcDimension) : Prop :=
  dimensions.Pairwise fun a b => a.isPhony ∨ b.isPhony → a.name ≠ b.name

/-- An invented dimension of a group has neither the name of another nor the id of a scale. -/
structure Sound (scales : Scales) (dimensions : List NcDimension) : Prop where
  names : NamesApart dimensions
  ids : ∀ d ∈ dimensions, d.isPhony → ∀ entry ∈ scales, d.id ≠ some entry.2.id

/-- The next number is free: no dimension of the group in hand has its name and no scale has it. -/
def Free (scales : Scales) (state : Naming) : Prop :=
  phonyName state.next ∉ state.dimensions.map NcDimension.name ∧ state.next ∉ scales.map fun entry => entry.2.id

instance (scales : Scales) (state : Naming) : Decidable (Free scales state) :=
  inferInstanceAs (Decidable (_ ∧ _))

/-- `resolve`, which stops instead of inventing a dimension while the next number is not free. -/
def resolveFree (build : Build) (scales : Scales) : Resolve := fun taken len isUnlimited state =>
  if state.dimensions.find? (serves taken len isUnlimited) = none ∧ ¬ Free scales state then
    (.error (.malformed "the next number is taken"), state)
  else resolve build taken len isUnlimited state

variable {build : Build} {scales : Scales} {dimensions others : List NcDimension} {state after : Naming}

theorem namesApart_perm (same : dimensions.Perm others) : NamesApart dimensions ↔ NamesApart others :=
  same.pairwise_iff fun apart either => (apart either.symm).symm

theorem sound_perm (same : dimensions.Perm others) : Sound scales dimensions ↔ Sound scales others := by
  constructor
  · intro sound
    exact ⟨(namesApart_perm same).mp sound.names, fun d member => sound.ids d (same.mem_iff.mpr member)⟩
  · intro sound
    exact ⟨(namesApart_perm same).mpr sound.names, fun d member => sound.ids d (same.mem_iff.mp member)⟩

theorem Sound.of_append (sound : Sound scales (dimensions ++ others)) : Sound scales dimensions :=
  ⟨(List.pairwise_append.mp sound.names).1, fun d member => sound.ids d (List.mem_append_left _ member)⟩

/-- Named dimensions alone raise no question. -/
theorem sound_of_named (named : ∀ d ∈ dimensions, d.isPhony = false) : Sound scales dimensions := by
  refine ⟨List.pairwise_of_forall_mem_list fun a first b second either => ?_, fun d member phony => ?_⟩
  · simp [named a first, named b second] at either
  · simp [named d member] at phony

/-- Another invented dimension leaves a group sound exactly when its number is free. -/
theorem sound_invent {len : Nat} {isUnlimited : Bool} (sound : Sound scales state.dimensions) :
    Sound scales (state.dimensions ++ [phonyDimension state.next len isUnlimited]) ↔ Free scales state := by
  constructor
  · intro more
    refine ⟨fun taken => ?_, fun taken => ?_⟩
    · obtain ⟨d, member, same⟩ := List.mem_map.mp taken
      exact (List.pairwise_append.mp more.names).2.2 d member _ List.mem_cons_self (.inr rfl) same
    · obtain ⟨entry, member, same⟩ := List.mem_map.mp taken
      refine more.ids _ (List.mem_append_right _ List.mem_cons_self) rfl entry member ?_
      exact congrArg some same.symm
  · rintro ⟨freeName, freeId⟩
    constructor
    · refine List.pairwise_append.mpr
        ⟨sound.names, List.pairwise_singleton _ _, fun d member new here _ same => ?_⟩
      rw [List.mem_singleton.mp here] at same
      exact freeName (List.mem_map.mpr ⟨d, member, same⟩)
    · intro d member phony entry held same
      rcases List.mem_append.mp member with old | new
      · exact sound.ids d old phony entry held same
      · rw [List.mem_singleton.mp new] at same
        exact freeId (List.mem_map.mpr ⟨entry, held, (Option.some.inj same).symm⟩)

/-- The walk adds invented dimensions to the group in hand, and what is watched is that the group stays sound. -/
def watch (scales : Scales) : Session.Guard Naming where
  moves state after := ∃ invented, after.dimensions = state.dimensions ++ invented ∧
    InventedFrom state.next invented after.next
  holds state := Sound scales state.dimensions
  refl state := ⟨[], (List.append_nil _).symm, rfl⟩
  trans := by
    rintro a b c ⟨invented, first, counted⟩ ⟨more, second, further⟩
    refine ⟨invented ++ more, ?_, counted.append further⟩
    rw [second, first, List.append_assoc]
  back := by
    rintro a b ⟨invented, same, -⟩ sound
    exact (same ▸ sound).of_append

theorem guarded_of_unchanged {α : Type} {step : Step α} (unchanged : ∀ state, step.Keeps (Unchanged state)) :
    Session.Guarded (watch scales) step step := by
  have stays {state after : Naming} {a : α} (done : step state = (.ok a, after)) : Unchanged state after := by
    have kept := unchanged state state ⟨rfl, rfl⟩
    rwa [done] at kept
  refine Session.Guarded.refl (fun done => ?_) (fun done sound => ?_)
  · obtain ⟨sameDimensions, sameNext⟩ := stays done
    exact ⟨[], by rw [sameDimensions, List.append_nil], sameNext⟩
  · change Sound scales _
    rw [(stays done).1]
    exact sound

theorem guarded_resolve (taken : List String) (len : Nat) (isUnlimited : Bool) :
    Session.Guarded (watch scales) (resolve build taken len isUnlimited)
      (resolveFree build scales taken len isUnlimited) := by
  constructor
  · intro state name after resolved
    rcases resolve_cases resolved with ⟨d, -, -, rfl⟩ | ⟨-, -, rfl⟩
    · exact (watch scales).refl after
    · exact ⟨[phonyDimension state.next len isUnlimited], rfl, ⟨rfl, rfl⟩, rfl⟩
  · intro state name after sound
    unfold resolveFree
    split
    · next stops =>
      -- Had the plain step gone on here, the group would not be sound after it.
      refine ⟨nofun, fun ⟨resolved, holds⟩ => ?_⟩
      rcases resolve_cases resolved with ⟨d, found, -⟩ | ⟨-, -, rfl⟩
      · cases stops.1.symm.trans found
      · exact absurd ((sound_invent sound).mp holds) stops.2
    · next goes =>
      refine ⟨fun resolved => ⟨resolved, ?_⟩, And.left⟩
      rcases resolve_cases resolved with ⟨d, found, -, rfl⟩ | ⟨none_, -, rfl⟩
      · exact sound
      · exact (sound_invent sound).mpr (by_contra fun taken => goes ⟨none_, taken⟩)

theorem guarded_fillAxes : ∀ (axes : List Axis) (out : List String),
    Session.Guarded (watch scales) (fillAxes (resolve build) axes out)
      (fillAxes (resolveFree build scales) axes out)
  | [], _ => Session.Guarded.pure _
  | axis :: axes, out => by
    refine Session.Guarded.bind ?_ fun name =>
      (guarded_fillAxes axes (out ++ [name])).bind fun _ => Session.Guarded.pure _
    unfold nameAxis
    split
    · exact Session.Guarded.pure _
    · exact guarded_resolve out axis.len axis.isUnlimited

variable {hdf5 : Hdf5File}

theorem guarded_resolveDimensions (dataset : DatasetEntry) (isCoordinate : Bool) :
    Session.Guarded (watch scales) (resolveDimensions hdf5 scales (resolve build) dataset isCoordinate)
      (resolveDimensions hdf5 scales (resolveFree build scales) dataset isCoordinate) := by
  unfold resolveDimensions
  split
  · exact Session.Guarded.pure _
  split
  · exact Session.Guarded.pure _
  · exact (guarded_of_unchanged unchanged_namedAxes).bind fun named => guarded_fillAxes _ []

theorem guarded_buildEntry (entry : DatasetEntry × Nat) :
    Session.Guarded (watch scales) (buildEntry hdf5 scales (resolve build) entry)
      (buildEntry hdf5 scales (resolveFree build scales) entry) := by
  unfold buildEntry
  dsimp only
  split
  · exact Session.Guarded.pure _
  · refine Session.Guarded.bind ?_ fun _ => Session.Guarded.pure _
    exact (guarded_resolveDimensions entry.1 _).bind fun _ => Session.Guarded.pure _

theorem guarded_entries (entries : List (DatasetEntry × Nat)) :
    Session.Guarded (watch scales) (entries.mapM (buildEntry hdf5 scales (resolve build)))
      (entries.mapM (buildEntry hdf5 scales (resolveFree build scales))) :=
  Session.Guarded.mapM guarded_buildEntry entries

end Guarding

section Walk

variable {build : Build} {hdf5 : Hdf5File} {scales : Scales} {state after : Naming}

/-- The dimensions of the scales among some datasets. -/
def scaleDimensions (scales : Scales) (datasets : List DatasetEntry) : List NcDimension :=
  datasets.filterMap fun dataset => (scales.get dataset.address).map DimensionScale.dimension

theorem namedDimensions_perm (datasets : List DatasetEntry) :
    (namedDimensions scales (byName datasets)).Perm (scaleDimensions scales datasets) := by
  have all : scaleDimensions scales datasets = namedDimensions scales datasets.zipIdx := by
    unfold scaleDimensions namedDimensions
    conv_lhs => rw [← List.zipIdx_map_fst 0 datasets]
    rw [List.filterMap_map]
    rfl
  rw [all]
  exact (List.mergeSort_perm _ _).filterMap _

theorem scaleDimensions_append (first second : List DatasetEntry) :
    scaleDimensions scales (first ++ second) = scaleDimensions scales first ++ scaleDimensions scales second :=
  List.filterMap_append

theorem scaleDimensions_named {datasets : List DatasetEntry} :
    ∀ d ∈ scaleDimensions scales datasets, d.isPhony = false := by
  intro d member
  obtain ⟨dataset, -, found⟩ := List.mem_filterMap.mp member
  obtain ⟨scale, -, rfl⟩ := Option.map_eq_some_iff.mp found
  rfl

variable {resolve : Resolve} {name path : String} {attributes : List Attribute} {groups : List NcGroup}
  {datasets : List DatasetEntry} {group : NcGroup}

/-- What a group is made of once its entries are built. -/
theorem finishGroup_eq_ok :
    finishGroup hdf5 scales resolve name path attributes groups datasets state = (.ok group, after) ↔
      ∃ built, (byName datasets).mapM (buildEntry hdf5 scales resolve)
          { state with dimensions := namedDimensions scales (byName datasets) } = (.ok built, after) ∧
        group = {
          name := name
          path := path
          dimensions := after.dimensions.mergeSort reportedBefore
          vars := (built.reduceOption.mergeSort fun a b => a.1 ≤ b.1).map Prod.snd
          attributes := visibleAttributes hdf5 path attributes
          groups := groups } := by
  unfold finishGroup
  rw [Session.bind_ok (Session.modify_apply _ state), Session.bind_eq_ok]
  constructor
  · rintro ⟨built, middle, done, rest⟩
    cases rest
    exact ⟨built, done, rfl⟩
  · rintro ⟨built, done, rfl⟩
    exact ⟨built, after, done, rfl⟩

/-- The dimensions of a group are those of its scales, and others with the next numbers. -/
theorem finishGroup_dimensions
    (finished : finishGroup hdf5 scales (Netcdf.resolve build) name path attributes groups datasets state =
      (.ok group, after)) : group.groups = groups ∧ ∃ invented,
      group.dimensions.Perm (scaleDimensions scales datasets ++ invented) ∧
        InventedFrom state.next invented after.next := by
  obtain ⟨built, done, rfl⟩ := finishGroup_eq_ok.mp finished
  obtain ⟨invented, same, counted⟩ := (guarded_entries (byName datasets)).moves done
  refine ⟨rfl, invented, (List.mergeSort_perm _ _).trans ?_, counted⟩
  rw [same]
  exact (namedDimensions_perm datasets).append_right invented

/-- A group is built without a number that is taken exactly when it is built and sound. -/
theorem finishGroup_free :
    finishGroup hdf5 scales (resolveFree build scales) name path attributes groups datasets state =
        (.ok group, after) ↔
      finishGroup hdf5 scales (Netcdf.resolve build) name path attributes groups datasets state =
          (.ok group, after) ∧ Sound scales group.dimensions := by
  -- The named dimensions come first, and none of them is invented.
  have start : (watch scales).holds { state with dimensions := namedDimensions scales (byName datasets) } :=
    (sound_perm (namedDimensions_perm datasets)).mpr (sound_of_named scaleDimensions_named)
  rw [finishGroup_eq_ok, finishGroup_eq_ok]
  constructor
  · rintro ⟨built, done, rfl⟩
    obtain ⟨done, sound⟩ := ((guarded_entries (byName datasets)).same start).mp done
    exact ⟨⟨built, done, rfl⟩, (sound_perm (List.mergeSort_perm _ _)).mpr sound⟩
  · rintro ⟨⟨built, done, rfl⟩, sound⟩
    have before := (sound_perm (List.mergeSort_perm _ _)).mp sound
    exact ⟨built, ((guarded_entries (byName datasets)).same start).mpr ⟨done, before⟩, rfl⟩

theorem buildGroups_cons_eq_ok {first : GroupIndex DatasetEntry} {others : List (GroupIndex DatasetEntry)}
    {built : List NcGroup} :
    buildGroups hdf5 scales resolve (first :: others) state = (.ok built, after) ↔
      ∃ group rest middle, built = group :: rest ∧
        buildGroup hdf5 scales resolve first state = (.ok group, middle) ∧
        buildGroups hdf5 scales resolve others middle = (.ok rest, after) := by
  rw [buildGroups, Session.bind_eq_ok]
  constructor
  · rintro ⟨group, middle, begun, rest⟩
    obtain ⟨groups, _, ended, done⟩ := Session.bind_eq_ok.mp rest
    cases done
    exact ⟨group, groups, middle, rfl, begun, ended⟩
  · rintro ⟨group, rest, middle, rfl, begun, ended⟩
    exact ⟨group, middle, begun, Session.bind_eq_ok.mpr ⟨rest, after, ended, rfl⟩⟩

mutual

/-- The dimensions of a tree are those of its scales, and others with the next numbers. -/
theorem buildGroup_dimensions : ∀ {index : GroupIndex DatasetEntry} {group : NcGroup} {state after : Naming},
    buildGroup hdf5 scales (Netcdf.resolve build) index state = (.ok group, after) → ∃ invented,
      group.allDimensions.Perm (scaleDimensions scales index.datasetsRecursive ++ invented) ∧
        InventedFrom state.next invented after.next
  | ⟨name, path, _, attributes, _, groups, datasets⟩, group, state, after, built => by
    rw [buildGroup] at built
    obtain ⟨others, middle, inner, finished⟩ := Session.bind_eq_ok.mp built
    -- The groups inside number theirs before the group itself does.
    obtain ⟨first, below, counted⟩ := buildGroups_dimensions inner
    obtain ⟨same, second, own, further⟩ := finishGroup_dimensions finished
    refine ⟨first ++ second, ?_, counted.append further⟩
    unfold NcGroup.allDimensions
    rw [NcGroup.dimensionLists_eq, same, List.flatten_cons, GroupIndex.datasetsRecursive,
      scaleDimensions_append]
    refine (own.append below).trans (List.perm_iff_count.mpr fun d => ?_)
    simp only [List.count_append]
    omega

theorem buildGroups_dimensions : ∀ {indices : List (GroupIndex DatasetEntry)} {groups : List NcGroup}
    {state after : Naming},
    buildGroups hdf5 scales (Netcdf.resolve build) indices state = (.ok groups, after) → ∃ invented,
      (NcGroup.dimensionListsOfAll groups).flatten.Perm
          (scaleDimensions scales (GroupIndex.datasetsOfAll indices) ++ invented) ∧
        InventedFrom state.next invented after.next
  | [], groups, state, after, built => by
    cases built
    exact ⟨[], .refl _, rfl⟩
  | index :: indices, groups, state, after, built => by
    obtain ⟨group, rest, middle, rfl, begun, ended⟩ := buildGroups_cons_eq_ok.mp built
    obtain ⟨first, own, counted⟩ := buildGroup_dimensions begun
    obtain ⟨second, others, further⟩ := buildGroups_dimensions ended
    refine ⟨first ++ second, ?_, counted.append further⟩
    rw [NcGroup.dimensionListsOfAll, List.flatten_append, GroupIndex.datasetsOfAll, scaleDimensions_append]
    refine (own.append others).trans (List.perm_iff_count.mpr fun d => ?_)
    simp only [List.count_append]
    omega

end

mutual

/-- A tree is built without a number that is taken exactly when it is built and all its groups are sound. -/
theorem buildGroup_free : ∀ {index : GroupIndex DatasetEntry} {group : NcGroup} {state after : Naming},
    buildGroup hdf5 scales (resolveFree build scales) index state = (.ok group, after) ↔
      buildGroup hdf5 scales (Netcdf.resolve build) index state = (.ok group, after) ∧
        ∀ dimensions ∈ group.dimensionLists, Sound scales dimensions
  | ⟨name, path, _, attributes, _, groups, datasets⟩, group, state, after => by
    rw [buildGroup, buildGroup, Session.bind_eq_ok, Session.bind_eq_ok, NcGroup.dimensionLists_eq]
    constructor
    · rintro ⟨others, middle, inner, finished⟩
      obtain ⟨inner, below⟩ := buildGroups_free.mp inner
      obtain ⟨finished, own⟩ := finishGroup_free.mp finished
      refine ⟨⟨others, middle, inner, finished⟩, List.forall_mem_cons.mpr ⟨own, ?_⟩⟩
      rwa [(finishGroup_dimensions finished).1]
    · rintro ⟨⟨others, middle, inner, finished⟩, sound⟩
      obtain ⟨own, below⟩ := List.forall_mem_cons.mp sound
      rw [(finishGroup_dimensions finished).1] at below
      exact ⟨others, middle, buildGroups_free.mpr ⟨inner, below⟩, finishGroup_free.mpr ⟨finished, own⟩⟩

theorem buildGroups_free : ∀ {indices : List (GroupIndex DatasetEntry)} {groups : List NcGroup}
    {state after : Naming},
    buildGroups hdf5 scales (resolveFree build scales) indices state = (.ok groups, after) ↔
      buildGroups hdf5 scales (Netcdf.resolve build) indices state = (.ok groups, after) ∧
        ∀ dimensions ∈ NcGroup.dimensionListsOfAll groups, Sound scales dimensions
  | [], groups, state, after => by
    refine ⟨fun built => ⟨built, ?_⟩, And.left⟩
    cases built
    exact nofun
  | index :: indices, groups, state, after => by
    rw [buildGroups_cons_eq_ok, buildGroups_cons_eq_ok]
    constructor
    · rintro ⟨group, rest, middle, rfl, begun, ended⟩
      obtain ⟨begun, own⟩ := buildGroup_free.mp begun
      obtain ⟨ended, others⟩ := buildGroups_free.mp ended
      exact ⟨⟨group, rest, middle, rfl, begun, ended⟩, List.forall_mem_append.mpr ⟨own, others⟩⟩
    · rintro ⟨⟨group, rest, middle, rfl, begun, ended⟩, sound⟩
      obtain ⟨own, others⟩ := List.forall_mem_append.mp sound
      exact ⟨group, rest, middle, rfl, buildGroup_free.mpr ⟨begun, own⟩, buildGroups_free.mpr ⟨ended, others⟩⟩

end

end Walk

section Whole

variable {build : Build} {hdf5 : Hdf5File} {scales order : Scales} {next last : Int64} {root : NcGroup}
  {datasets : List DatasetEntry} {invented : List NcDimension} {after : Naming}

/-- Over a whole file, an invented dimension has an id that no other has, and a name that no other of its group
has. -/
structure PhonyApart (root : NcGroup) : Prop where
  names : ∀ dimensions ∈ root.dimensionLists, NamesApart dimensions
  ids : root.allDimensions.Pairwise fun a b => a.isPhony ∨ b.isPhony → a.id ≠ b.id

/-- Every scale of a map is met among some datasets, and each has an address of its own. -/
structure MetIn (scales : Scales) (datasets : List DatasetEntry) : Prop where
  keys : (scales.map Prod.fst).Nodup
  met : ∀ entry ∈ scales, ∃ dataset ∈ datasets, dataset.address = entry.1

theorem mem_scaleDimensions (met : MetIn scales datasets) {d : NcDimension} :
    d ∈ scaleDimensions scales datasets ↔ ∃ entry ∈ scales, d = entry.2.dimension := by
  unfold scaleDimensions
  rw [List.mem_filterMap]
  constructor
  · rintro ⟨dataset, -, found⟩
    obtain ⟨scale, leads, rfl⟩ := Option.map_eq_some_iff.mp found
    exact ⟨_, (get_eq_some_iff met.keys).mp leads, rfl⟩
  · rintro ⟨entry, held, rfl⟩
    obtain ⟨dataset, member, same⟩ := met.met entry held
    refine ⟨dataset, member, ?_⟩
    rw [same, (get_eq_some_iff met.keys).mpr held, Option.map_some]

/-- The ids of the invented dimensions are apart from the others exactly when they are no scale's. -/
theorem idsPairwise_iff (met : MetIn scales datasets) (counted : InventedFrom next invented last)
    (few : invented.length ≤ 2 ^ 64) :
    (scaleDimensions scales datasets ++ invented).Pairwise
        (fun a b => a.isPhony ∨ b.isPhony → a.id ≠ b.id) ↔
      ∀ d ∈ scaleDimensions scales datasets ++ invented, d.isPhony →
        ∀ entry ∈ scales, d.id ≠ some entry.2.id := by
  rw [List.pairwise_append]
  constructor
  · rintro ⟨-, -, apart⟩ d member phony entry held same
    rcases List.mem_append.mp member with named | new
    · simp [scaleDimensions_named d named] at phony
    -- Every scale has a dimension somewhere in the tree, so the clash shows there.
    · exact apart _ ((mem_scaleDimensions met).mpr ⟨entry, held, rfl⟩) d new (.inr phony) same.symm
  · intro apart
    refine ⟨List.pairwise_of_forall_mem_list fun a first b second either => ?_, ?_, ?_⟩
    · simp [scaleDimensions_named a first, scaleDimensions_named b second] at either
    · exact (List.pairwise_map.mp (counted.nodup few)).imp fun {a b} differ
        (_ : a.isPhony ∨ b.isPhony) => differ
    · intro a first b new _ same
      obtain ⟨entry, held, rfl⟩ := (mem_scaleDimensions met).mp first
      exact apart b (List.mem_append_right _ new) (counted.isPhony b new) entry held same.symm

theorem phonyApart_iff (met : MetIn scales datasets) (counted : InventedFrom next invented last)
    (same : root.allDimensions.Perm (scaleDimensions scales datasets ++ invented))
    (few : root.allDimensions.length ≤ 2 ^ 64) :
    PhonyApart root ↔ ∀ dimensions ∈ root.dimensionLists, Sound scales dimensions := by
  have fewInvented : invented.length ≤ 2 ^ 64 := by
    rw [same.length_eq, List.length_append] at few
    omega
  have pairwise : root.allDimensions.Pairwise (fun a b => a.isPhony ∨ b.isPhony → a.id ≠ b.id) ↔
      ∀ d ∈ root.allDimensions, d.isPhony → ∀ entry ∈ scales, d.id ≠ some entry.2.id := by
    rw [same.pairwise_iff fun apart either => (apart either.symm).symm,
      idsPairwise_iff met counted fewInvented]
    exact forall_congr' fun d => by rw [same.mem_iff]
  constructor
  · rintro ⟨names, ids⟩ dimensions member
    refine ⟨names dimensions member, fun d here => ?_⟩
    exact pairwise.mp ids d (List.mem_flatten.mpr ⟨dimensions, member, here⟩)
  · intro sound
    refine ⟨fun dimensions member => (sound dimensions member).names, pairwise.mpr fun d here => ?_⟩
    obtain ⟨dimensions, member, inside⟩ := List.mem_flatten.mp here
    exact (sound dimensions member).ids d inside

theorem metIn_collected (collected : collectDimensionScales build hdf5 = .ok (scales, next))
    (same : order.Perm scales) : MetIn order hdf5.root.datasetsRecursive := by
  refine ⟨(same.map Prod.fst).nodup_iff.mpr (keys_collected collected), fun entry held => ?_⟩
  obtain ⟨kept, rfl⟩ := (mem_collected collected).mp (same.mem_iff.mp held)
  exact ⟨kept.dataset, List.mem_of_mem_filter kept.mem, rfl⟩

theorem idsApart_perm (same : order.Perm scales) : IdsApart order ↔ IdsApart scales := by
  rw [idsApart_iff, idsApart_iff, (same.map fun entry => entry.2.id).nodup_iff]

/-- The scales of a file have ids of their own exactly when the counter hands out none that another has. In
whatever order the map has, the invented dimensions of its groups are apart exactly when the walk meets no
number that is taken. No memory holds more than `2 ^ 64` of them. -/
theorem dimensions_apart_iff (apart : RecordedApart (scaleEntries hdf5))
    (collected : collectDimensionScales build hdf5 = .ok (scales, next)) (same : order.Perm scales) :
    (IdsApart order ↔ CounterFree (scaleEntries hdf5)) ∧
      ∀ root after, buildGroup hdf5 order (resolve build) hdf5.root ⟨[], [], next⟩ = (.ok root, after) →
        root.allDimensions.length ≤ 2 ^ 64 →
        (PhonyApart root ↔
          buildGroup hdf5 order (resolveFree build order) hdf5.root ⟨[], [], next⟩ = (.ok root, after)) := by
  refine ⟨(idsApart_perm same).trans (ids_apart_iff apart collected), fun root after built few => ?_⟩
  obtain ⟨invented, all, counted⟩ := buildGroup_dimensions built
  rw [phonyApart_iff (metIn_collected collected same) counted all few, buildGroup_free]
  exact (and_iff_right built).symm

def scaleClass : Attribute where
  name := "CLASS"
  datatype := ⟨1, 15, .string .nullPad .ascii⟩
  dataspace := ⟨.scalar, [], none⟩
  data := [68, 73, 77, 69, 78, 83, 73, 79, 78, 95, 83, 67, 65, 76, 69]

def recordsZero : Attribute where
  name := "_Netcdf4Dimid"
  datatype := Datatype.byteType
  dataspace := ⟨.scalar, [], none⟩
  data := [0]

def scaleEntry (address : Nat) (name : String) (shape : List Nat) (attributes : List Attribute) :
    DatasetEntry :=
  { byteEntry ⟨.simple, shape, none⟩ with address, name, attributes := scaleClass :: attributes }

/-- A scale of five by three, which has no recorded id. -/
def planeScale (name : String) : DatasetEntry := scaleEntry 1 name [5, 3] []

def onePlane (name : String) : Hdf5File := { noGroups with
  root := { noGroups.root with datasets := [planeScale name] } }

def planeScales (name : String) : Scales := [(1, scaleOf (planeScale name) 0)]

theorem onePlane_collected (name : String) :
    collectDimensionScales build (onePlane name) = .ok (planeScales name, 1) := by
  cases build <;> rfl

theorem onePlane_recorded (name : String) : RecordedApart (scaleEntries (onePlane name)) := by
  intro first held second also id _ _
  rw [List.mem_singleton.mp held, List.mem_singleton.mp also]

theorem onePlane_counterFree (name : String) : CounterFree (scaleEntries (onePlane name)) := by
  have only (kept : Kept (scaleEntries (onePlane name))) : kept.dataset = planeScale name :=
    List.mem_singleton.mp kept.mem
  refine (counterFree_checked (onePlane_collected name)).mpr fun handed other _ _ recorded => ?_
  rw [only other] at recorded
  cases recorded

/-- The first axis of the plane is its own dimension, and the second gets an invented one. -/
def planeDimensions (name : String) : List NcDimension :=
  [(scaleOf (planeScale name) 0).dimension, phonyDimension 1 3 false]

def planeVariable (name : String) : NcVariable :=
  ⟨name, "/v", [name, phonyName 1], [5, 3], [], true, true⟩

def planeTree (name : String) : NcGroup :=
  ⟨"", "/", (planeDimensions name).mergeSort reportedBefore, [planeVariable name], [], []⟩

theorem planeTree_built {resolve : Resolve} {name : String}
    (built : buildEntry (onePlane name) (planeScales name) resolve (planeScale name, 0)
        ⟨[], [(scaleOf (planeScale name) 0).dimension], 1⟩ =
      (.ok (some (0, planeVariable name)), ⟨[], planeDimensions name, 2⟩)) :
    buildGroup (onePlane name) (planeScales name) resolve (onePlane name).root ⟨[], [], 1⟩ =
      (.ok (planeTree name), ⟨[], planeDimensions name, 2⟩) := by
  have single : byName [planeScale name] = [(planeScale name, 0)] := List.mergeSort_singleton _
  change (buildGroups _ _ resolve [] >>= fun groups =>
    finishGroup _ _ resolve "" "/" [] groups [planeScale name]) _ = _
  refine Session.bind_eq_ok.mpr ⟨[], ⟨[], [], 1⟩, rfl,
    finishGroup_eq_ok.mpr ⟨[some (0, planeVariable name)], ?_, ?_⟩⟩
  · rw [single, List.mapM_cons]
    exact Session.bind_ok built
  · have kept : [some (0, planeVariable name)].reduceOption = [(0, planeVariable name)] := rfl
    simp [planeTree, kept, visibleAttributes]

theorem planeEntry_built (name : String) :
    buildEntry (onePlane name) (planeScales name) (resolve .debug) (planeScale name, 0)
        ⟨[], [(scaleOf (planeScale name) 0).dimension], 1⟩ =
      (.ok (some (0, planeVariable name)), ⟨[], planeDimensions name, 2⟩) := rfl

theorem dimensions_apart_plane : IdsApart (planeScales "x") ∧ PhonyApart (planeTree "x") := by
  have guarded : buildEntry (onePlane "x") (planeScales "x") (resolveFree .debug (planeScales "x"))
      (planeScale "x", 0) ⟨[], [(scaleOf (planeScale "x") 0).dimension], 1⟩ =
      (.ok (some (0, planeVariable "x")), ⟨[], planeDimensions "x", 2⟩) := rfl
  have few : (planeTree "x").allDimensions.length ≤ 2 ^ 64 := by
    simp [planeTree, planeDimensions, NcGroup.allDimensions, NcGroup.dimensionLists,
      NcGroup.dimensionListsOfAll]
  obtain ⟨ids, phony⟩ := dimensions_apart_iff (onePlane_recorded "x") (@onePlane_collected .debug "x") (.refl _)
  exact ⟨ids.mpr (onePlane_counterFree "x"),
    (phony _ _ (planeTree_built (planeEntry_built "x")) few).mpr (planeTree_built guarded)⟩

/-- A scale without a recorded id, and one that records the id that the first is given. -/
def twoScales : Hdf5File := { noGroups with
  root := { noGroups.root with datasets := [scaleEntry 1 "a" [5] [], scaleEntry 2 "b" [7] [recordsZero]] } }

def twoZeros : Scales :=
  [(2, scaleOf (scaleEntry 2 "b" [7] [recordsZero]) 0), (1, scaleOf (scaleEntry 1 "a" [5] []) 0)]

/-- Two scales get one id, and an invented dimension the name of the scale of its group. -/
theorem dimensions_collide :
    (RecordedApart (scaleEntries twoScales) ∧
      collectDimensionScales .debug twoScales = .ok (twoZeros, 1) ∧ ¬ IdsApart twoZeros) ∧
    RecordedApart (scaleEntries (onePlane "phony_dim_1")) ∧
      collectDimensionScales .debug (onePlane "phony_dim_1") = .ok (planeScales "phony_dim_1", 1) ∧
      buildGroup (onePlane "phony_dim_1") (planeScales "phony_dim_1") (resolve .debug)
        (onePlane "phony_dim_1").root ⟨[], [], 1⟩ =
          (.ok (planeTree "phony_dim_1"), ⟨[], planeDimensions "phony_dim_1", 2⟩) ∧
      ¬ PhonyApart (planeTree "phony_dim_1") := by
  refine ⟨⟨?_, rfl, fun apart => ?_⟩, onePlane_recorded _, onePlane_collected _,
    planeTree_built (planeEntry_built _), fun apart => ?_⟩
  · intro first held second also id one other
    have inA : recordedId (scaleEntry 1 "a" [5] []) = none := rfl
    change first ∈ [scaleEntry 1 "a" [5] [], scaleEntry 2 "b" [7] [recordsZero]] at held
    change second ∈ [scaleEntry 1 "a" [5] [], scaleEntry 2 "b" [7] [recordsZero]] at also
    simp only [List.mem_cons, List.not_mem_nil, or_false] at held also
    rcases held with rfl | rfl
    · cases inA.symm.trans one
    rcases also with rfl | rfl
    · cases inA.symm.trans other
    · rfl
  · exact absurd apart.distinct (by decide)
  · have names := apart.names _ List.mem_cons_self
    rw [namesApart_perm (List.mergeSort_perm _ _)] at names
    exact (List.pairwise_cons.mp names).1 _ List.mem_cons_self (.inr rfl) rfl

end Whole

end Netcdf

end Oxcdf
