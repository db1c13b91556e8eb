import Oxcdf.Hyperslab

/-! Selections along the axes of a variable.

A caller writes an index or a range for each axis. It is converted into an extent,
and the extents of all axes into a hyperslab.
-/

set_option autoImplicit false

namespace Oxcdf

open Foundation

/-- A selection along one axis. -/
inductive Extent where
  /-- From `start` to the end of the axis. -/
  | slice (start : Nat) (stride : Int)
  /-- From `start` up to but not including `stop`. -/
  | sliceEnd (start stop : Nat) (stride : Int)
  | sliceCount (start count : Nat) (stride : Int)
  | index (at_ : Nat)
  deriving DecidableEq, Repr

namespace Extent

def stride : Extent → Int
  | slice _ stride | sliceEnd _ _ stride | sliceCount _ _ stride => stride
  | index _ => 1

def strided (stride : Int) (axis : Nat) : Error :=
  .unsupported s!"a stride of {stride} on axis {axis}; this reader reads contiguous selections only"

/-- The start and count this extent selects on an axis of length `len`. -/
def resolve (axis len : Nat) (extent : Extent) : Code (Nat × Nat) :=
  if extent.stride ≠ 1 then .error (strided extent.stride axis)
  else
    match extent with
    | slice start _ => .ok (start, len - start)
    | sliceEnd start stop _ =>
      if stop < start then
        .error (.badRequest s!"the selection on axis {axis} ends at {stop} but starts at {start}")
      else .ok (start, stop - start)
    | sliceCount start count _ => .ok (start, count)
    | index at_ => .ok (at_, 1)

end Extent

/-- A selection over a whole variable. -/
inductive Extents where
  | all
  /-- One extent for each axis. -/
  | extent (extents : List Extent)
  deriving DecidableEq, Repr

namespace Extents

def resolveAxes : Nat → List Extent → List Nat → Code (List (Nat × Nat))
  | axis, first :: others, len :: shape => do
    let part ← first.resolve axis len
    let rest ← resolveAxes (axis + 1) others shape
    .ok (part :: rest)
  | _, _, _ => .ok []

/-- Turn a selection into a hyperslab over a variable of the given shape. -/
def toHyperslab (what : String) (shape : List Nat) : Extents → Code Hyperslab
  | all => .ok (Hyperslab.all shape)
  | extent extents =>
    if extents.length ≠ shape.length then
      .error (.badRequest
        s!"variable {what} has rank {shape.length} but the selection has rank {extents.length}")
    else do
      let parts ← resolveAxes 0 extents shape
      let slab : Hyperslab := { start := parts.map Prod.fst, count := parts.map Prod.snd }
      slab.validate shape
      .ok slab

end Extents

inductive AxisForm where
  | index (at_ : Nat)
  | range (start stop : Nat)
  | rangeFrom (start : Nat)
  | rangeTo (stop : Nat)
  | rangeToInclusive (last : Nat)
  | rangeInclusive (start last : Nat)
  | rangeFull
  | startCount (start count : Nat)
  deriving DecidableEq, Repr

namespace Extent

variable (build : Build)

/-- The conversions into an extent. An inclusive end becomes an exclusive one. -/
def ofForm : AxisForm → Code Extent
  | .index at_ => .ok (index at_)
  | .range start stop => .ok (sliceEnd start stop 1)
  | .rangeFrom start => .ok (slice start 1)
  | .rangeTo stop => .ok (sliceEnd 0 stop 1)
  | .rangeToInclusive last => do
    let stop ← build.add last 1
    .ok (sliceEnd 0 stop 1)
  | .rangeInclusive start last => do
    let stop ← build.add last 1
    .ok (sliceEnd start stop 1)
  | .rangeFull => .ok (slice 0 1)
  | .startCount start count => .ok (sliceCount start count 1)

end Extent

/-- What a caller passes as the selection of a variable. -/
inductive Selection where
  /-- `..` or `()`. -/
  | whole
  /-- An array, a slice or a vector with one form for each axis. -/
  | axes (forms : List AxisForm)
  /-- A start and a count for each axis. -/
  | startsCounts (starts counts : List Nat)
  deriving DecidableEq, Repr

namespace Extents

variable (build : Build)

def ofSelection : Selection → Code Extents
  | .whole => .ok all
  | .axes forms => do
    let extents ← forms.mapM (Extent.ofForm build)
    .ok (extent extents)
  | .startsCounts starts counts =>
    if starts.length ≠ counts.length then
      .error (.badRequest
        s!"the selection gives {starts.length} starts and {counts.length} counts")
    else .ok (extent (List.zipWith (fun start count => .sliceCount start count 1) starts counts))

end Extents

def Selection.convert (build : Build) (what : String) (shape : List Nat) (selection : Selection) :
    Code Hyperslab := do
  let extents ← Extents.ofSelection build selection
  extents.toHyperslab what shape

section Intervals

def Extent.interval (len : Nat) : Extent → Nat × Nat
  | .slice start _ => (start, len)
  | .sliceEnd start stop _ => (start, stop)
  | .sliceCount start count _ => (start, start + count)
  | .index at_ => (at_, at_ + 1)

def AxisForm.interval (len : Nat) : AxisForm → Nat × Nat
  | .index at_ => (at_, at_ + 1)
  | .range start stop => (start, stop)
  | .rangeFrom start => (start, len)
  | .rangeTo stop => (0, stop)
  | .rangeToInclusive last => (0, last + 1)
  | .rangeInclusive start last => (start, last + 1)
  | .rangeFull => (0, len)
  | .startCount start count => (start, start + count)

/-- An interval of an axis, which may be empty. -/
def Lies (len : Nat) (interval : Nat × Nat) : Prop := interval.1 ≤ interval.2 ∧ interval.2 ≤ len

instance (len : Nat) (interval : Nat × Nat) : Decidable (Lies len interval) :=
  inferInstanceAs (Decidable (_ ∧ _))

def Hyperslab.ofIntervals (intervals : List (Nat × Nat)) : Hyperslab where
  start := intervals.map Prod.fst
  count := intervals.map fun interval => interval.2 - interval.1

/-- One form for each axis, where the selection has them. -/
def Selection.forms (shape : List Nat) : Selection → Option (List AxisForm)
  | .whole => some (shape.map fun _ => .rangeFull)
  | .axes forms => some forms
  | .startsCounts starts counts =>
    if starts.length = counts.length then some (List.zipWith .startCount starts counts) else none

def AxisForm.Words : AxisForm → Prop
  | .index n | .rangeFrom n | .rangeTo n | .rangeToInclusive n => n < wordSize
  | .range n m | .rangeInclusive n m | .startCount n m => n < wordSize ∧ m < wordSize
  | .rangeFull => True

def Selection.Words : Selection → Prop
  | .whole => True
  | .axes forms => ∀ form ∈ forms, form.Words
  | .startsCounts starts counts => (∀ n ∈ starts, n < wordSize) ∧ ∀ n ∈ counts, n < wordSize

/-- The conversion succeeds when there is one form for each axis and its interval lies in the axis,
it then selects these intervals, and it never panics. -/
def Selection.Exact (build : Build) (what : String) (shape : List Nat) (selection : Selection) : Prop :=
  ¬ (selection.convert build what shape).Panics ∧
    ∀ slab, selection.convert build what shape = .ok slab ↔ ∃ forms, selection.forms shape = some forms ∧
      List.Forall₂ (fun len form => Lies len (form.interval len)) shape forms ∧
      slab = Hyperslab.ofIntervals (List.zipWith AxisForm.interval shape forms)

def AxisForm.EndsAtMax : AxisForm → Prop
  | .rangeToInclusive last | .rangeInclusive _ last => last = wordSize - 1
  | _ => False

/-- The form runs from zero to the largest word, so that its end wraps to its start. -/
def AxisForm.Wraps : AxisForm → Prop
  | .rangeToInclusive last => last = wordSize - 1
  | .rangeInclusive start last => start = 0 ∧ last = wordSize - 1
  | _ => False

/-- No form ends at the largest word. Where that goes unchecked, none wraps, unless the selection has another
form that lies outside its axis. -/
def Selection.EndsEarly (build : Build) (shape : List Nat) (selection : Selection) : Prop :=
  ∀ forms, selection.forms shape = some forms →
    match build with
    | .debug => ∀ form ∈ forms, ¬ form.EndsAtMax
    | .release =>
      List.Forall₂ (fun len form => Lies len (form.interval len) ∨ form.Wraps) shape forms →
        ∀ form ∈ forms, ¬ form.Wraps

end Intervals

section Resolved

variable {len : Nat} {shape : List Nat} {extents : List Extent}

/-- An extent is resolved to its interval, where that lies in the axis. -/
theorem Extent.resolve_inside {extent : Extent} (unit : extent.stride = 1) (axis : Nat) (part : Nat × Nat) :
    extent.resolve axis len = .ok part ∧ part.1 + part.2 ≤ len ↔
      Lies len (extent.interval len) ∧
        part = ((extent.interval len).1, (extent.interval len).2 - (extent.interval len).1) := by
  unfold resolve
  rw [if_neg (not_not_intro unit)]
  cases extent with
  | slice start stride =>
    simp only [interval, Lies, Outcome.ok.injEq]
    constructor
    · rintro ⟨rfl, inside⟩
      exact ⟨⟨by omega, le_refl len⟩, rfl⟩
    · rintro ⟨⟨before, -⟩, rfl⟩
      exact ⟨rfl, by omega⟩
  | sliceEnd start stop stride =>
    simp only [interval, Lies]
    by_cases reversed : stop < start
    · simp [reversed]
    · simp only [if_neg reversed, Outcome.ok.injEq]
      constructor
      · rintro ⟨rfl, inside⟩
        exact ⟨⟨by omega, by omega⟩, rfl⟩
      · rintro ⟨⟨-, inside⟩, rfl⟩
        exact ⟨rfl, by omega⟩
  | sliceCount start count stride =>
    simp only [interval, Lies, Outcome.ok.injEq, Nat.add_sub_cancel_left]
    constructor
    · rintro ⟨rfl, inside⟩
      exact ⟨⟨Nat.le_add_right start count, inside⟩, rfl⟩
    · rintro ⟨⟨-, inside⟩, rfl⟩
      exact ⟨rfl, inside⟩
  | index at_ =>
    simp only [interval, Lies, Outcome.ok.injEq, Nat.add_sub_cancel_left]
    constructor
    · rintro ⟨rfl, inside⟩
      exact ⟨⟨Nat.le_add_right at_ 1, inside⟩, rfl⟩
    · rintro ⟨⟨-, inside⟩, rfl⟩
      exact ⟨rfl, inside⟩

/-- The starts and counts of some intervals. -/
def Hyperslab.parts (intervals : List (Nat × Nat)) : List (Nat × Nat) :=
  intervals.map fun interval => (interval.1, interval.2 - interval.1)

/-- The extents of all axes are resolved to their intervals, where these lie in the shape. -/
theorem Extents.resolveAxes_within : ∀ {extents : List Extent} {shape : List Nat} (axis : Nat),
    (∀ extent ∈ extents, extent.stride = 1) → extents.length = shape.length → ∀ found : List (Nat × Nat),
    (resolveAxes axis extents shape = .ok found ∧
        Hyperslab.Within (found.map Prod.fst) (found.map Prod.snd) shape ↔
      List.Forall₂ (fun len extent => Lies len (extent.interval len)) shape extents ∧
        found = Hyperslab.parts (List.zipWith Extent.interval shape extents))
  | [], [], _, _, _, found => by
    simp only [resolveAxes, Hyperslab.parts, List.Forall₂.nil, true_and, List.zipWith_nil_left,
      List.map_nil, Outcome.ok.injEq]
    constructor
    · rintro ⟨rfl, -⟩
      rfl
    · rintro rfl
      exact ⟨rfl, trivial⟩
  | first :: others, len :: shape, axis, units, ranks, found => by
    obtain ⟨unit, otherUnits⟩ := List.forall_mem_cons.mp units
    have later := resolveAxes_within (axis + 1) otherUnits (Nat.succ.inj ranks)
    rw [resolveAxes, List.forall₂_cons, List.zipWith_cons_cons, Outcome.bind_eq_ok]
    constructor
    · rintro ⟨⟨part, here, done⟩, within⟩
      obtain ⟨rest, resolved, done⟩ := Outcome.bind_eq_ok.mp done
      cases done
      obtain ⟨lies, same⟩ := (first.resolve_inside unit axis part).mp ⟨here, within.1⟩
      obtain ⟨all, rfl⟩ := (later rest).mp ⟨resolved, within.2⟩
      exact ⟨⟨lies, all⟩, by rw [same]; rfl⟩
    · rintro ⟨⟨lies, all⟩, rfl⟩
      obtain ⟨here, inside⟩ := (first.resolve_inside unit axis _).mpr ⟨lies, rfl⟩
      obtain ⟨resolved, within⟩ := (later _).mpr ⟨all, rfl⟩
      refine ⟨⟨_, here, ?_⟩, inside, within⟩
      rw [resolved]
      rfl

theorem Hyperslab.ofIntervals_eq (intervals : List (Nat × Nat)) :
    Hyperslab.ofIntervals intervals =
      { start := (Hyperslab.parts intervals).map Prod.fst, count :=
    (Hyperslab.parts intervals).map Prod.snd } := by
  simp [Hyperslab.ofIntervals, Hyperslab.parts, Function.comp_def]

/-- Extents of every axis are converted into the hyperslab of their intervals, where these lie in the shape. -/
theorem Extents.toHyperslab_eq_ok (words : ∀ len ∈ shape, len < wordSize)
    (units : ∀ extent ∈ extents, extent.stride = 1) (what : String) (slab : Hyperslab) :
    (extent extents).toHyperslab what shape = .ok slab ↔
      List.Forall₂ (fun len extent => Lies len (extent.interval len)) shape extents ∧
        slab = Hyperslab.ofIntervals (List.zipWith Extent.interval shape extents) := by
  unfold toHyperslab
  by_cases ranks : extents.length = shape.length
  · have within := resolveAxes_within 0 units ranks
    dsimp only
    rw [if_neg (not_not_intro ranks), Outcome.bind_eq_ok]
    have valid (found : List (Nat × Nat)) (long : found.length = shape.length) :
        Hyperslab.validate ⟨found.map Prod.fst, found.map Prod.snd⟩ shape = .ok () ↔
          Hyperslab.Within (found.map Prod.fst) (found.map Prod.snd) shape := by
      unfold Hyperslab.validate
      rw [if_neg (by simp [long])]
      exact Hyperslab.validateAxes_eq_ok 0 (by simp [long]) (by simp [long]) words
    constructor
    · rintro ⟨found, resolved, done⟩
      obtain ⟨⟨⟩, passed, done⟩ := Outcome.bind_eq_ok.mp done
      cases done
      obtain ⟨inside, -⟩ := Hyperslab.within_of_validate passed
      obtain ⟨lies, rfl⟩ := (within found).mp ⟨resolved, inside⟩
      exact ⟨lies, (Hyperslab.ofIntervals_eq _).symm⟩
    · rintro ⟨lies, rfl⟩
      obtain ⟨resolved, inside⟩ := (within _).mpr ⟨lies, rfl⟩
      have long : (Hyperslab.parts (List.zipWith Extent.interval shape extents)).length = shape.length := by
        simp [Hyperslab.parts, ranks]
      refine ⟨_, resolved, ?_⟩
      rw [(valid _ long).mpr inside, Outcome.ok_bind, Hyperslab.ofIntervals_eq]
  · dsimp only
    rw [if_pos ranks]
    exact ⟨nofun, fun lies => absurd lies.1.length_eq.symm ranks⟩

theorem Extents.not_panics_toHyperslab (what : String) (shape : List Nat) (extents : Extents) :
    ¬ (extents.toHyperslab what shape).Panics := by
  have resolved (axis : Nat) (selected : List Extent) (shape : List Nat) :
      ¬ (resolveAxes axis selected shape).Panics := by
    induction selected generalizing axis shape with
    | nil => simp [resolveAxes]
    | cons first others ih =>
      cases shape with
      | nil => simp [resolveAxes]
      | cons len shape =>
        refine Outcome.not_panics_bind ?_ fun part => Outcome.not_panics_bind (ih _ shape) fun rest => by simp
        unfold Extent.resolve
        repeat' split
        all_goals simp
  have validated (slab : Hyperslab) : ¬ (slab.validate shape).Panics := by
    have axes (axis : Nat) (start count shape : List Nat) :
        ¬ (Hyperslab.validateAxes axis start count shape).Panics := by
      fun_induction Hyperslab.validateAxes axis start count shape <;> simp_all
    unfold Hyperslab.validate
    split
    · simp
    · exact axes 0 slab.start slab.count shape
  cases extents with
  | all => simp [toHyperslab]
  | extent selected =>
    unfold toHyperslab
    dsimp only
    split
    · simp
    · exact Outcome.not_panics_bind (resolved 0 selected shape) fun found =>
        Outcome.not_panics_bind (validated _) fun _ => by simp

end Resolved

section Converted

variable {build : Build} {form : AxisForm} {len : Nat} {shape : List Nat} {selection : Selection}
  {forms : List AxisForm}

def AxisForm.extent : AxisForm → Extent
  | .index at_ => .index at_
  | .range start stop => .sliceEnd start stop 1
  | .rangeFrom start => .slice start 1
  | .rangeTo stop => .sliceEnd 0 stop 1
  | .rangeToInclusive last => .sliceEnd 0 ((last + 1) % wordSize) 1
  | .rangeInclusive start last => .sliceEnd start ((last + 1) % wordSize) 1
  | .rangeFull => .slice 0 1
  | .startCount start count => .sliceCount start count 1

theorem AxisForm.extent_stride (form : AxisForm) : form.extent.stride = 1 := by
  cases form <;> rfl

theorem nextWord_eq {last : Nat} (word : last < wordSize) (early : last ≠ wordSize - 1) :
    last + 1 < wordSize ∧ (last + 1) % wordSize = last + 1 := by
  have room : last + 1 < wordSize := by omega
  exact ⟨room, Nat.mod_eq_of_lt room⟩

theorem Extent.ofForm_eq (words : form.Words) (fine : build = .debug → ¬ form.EndsAtMax) :
    Extent.ofForm build form = .ok form.extent := by
  have next (last : Nat) (word : last < wordSize) (early : build = .debug → last ≠ wordSize - 1) :
      (build.add last 1 : Code Nat) = .ok ((last + 1) % wordSize) := by
    cases build with
    | debug =>
      obtain ⟨room, same⟩ := nextWord_eq word (early rfl)
      rw [same, Build.add, Build.word_of_lt _ room]
    | release => exact Build.word_release (last + 1)
  cases form with
  | rangeToInclusive last =>
    change (build.add last 1 >>= fun stop => _) = _
    rw [next last words fine]
    rfl
  | rangeInclusive start last =>
    change (build.add last 1 >>= fun stop => _) = _
    rw [next last words.2 fine]
    rfl
  | _ => rfl

theorem Extent.ofForm_debug_panics (late : form.EndsAtMax) : Extent.ofForm .debug form = .panic .overflow := by
  have full : (Build.debug.add (wordSize - 1) 1 : Code Nat) = .panic .overflow :=
    Build.word_debug_of_le (le_refl wordSize)
  cases form with
  | rangeToInclusive last =>
    cases late
    change (Build.debug.add _ 1 >>= fun stop => _) = _
    rw [full]
    rfl
  | rangeInclusive start last =>
    cases late
    change (Build.debug.add _ 1 >>= fun stop => _) = _
    rw [full]
    rfl
  | _ => cases late

theorem extent_interval (words : form.Words) (early : ¬ form.EndsAtMax) :
    form.extent.interval len = form.interval len := by
  cases form with
  | rangeToInclusive last =>
    exact congrArg (Prod.mk 0) (nextWord_eq words early).2
  | rangeInclusive start last =>
    exact congrArg (Prod.mk start) (nextWord_eq words.2 early).2
  | _ => rfl

theorem AxisForm.Wraps.endsAtMax (wraps : form.Wraps) : form.EndsAtMax := by
  cases form with
  | rangeToInclusive last => exact wraps
  | rangeInclusive start last => exact wraps.2
  | _ => cases wraps

/-- No axis is long enough for an inclusive end at the largest word. -/
theorem not_lies_of_endsAtMax (word : len < wordSize) (late : form.EndsAtMax) :
    ¬ Lies len (form.interval len) := by
  rintro ⟨-, inside⟩
  cases form with
  | rangeToInclusive last =>
    cases late
    exact absurd word (Nat.not_lt.mpr inside)
  | rangeInclusive start last =>
    cases late
    exact absurd word (Nat.not_lt.mpr inside)
  | _ => cases late

/-- What is selected besides the intervals in the axis is a form whose end wraps. -/
theorem lies_extent_iff (words : form.Words) (word : len < wordSize) :
    Lies len (form.extent.interval len) ↔ Lies len (form.interval len) ∨ form.Wraps := by
  by_cases late : form.EndsAtMax
  · rw [or_iff_right (not_lies_of_endsAtMax word late)]
    have full : (wordSize - 1 + 1) % wordSize = 0 := by decide
    cases form with
    | rangeToInclusive last =>
      cases late
      simp [AxisForm.extent, Extent.interval, Lies, AxisForm.Wraps, full]
    | rangeInclusive start last =>
      cases late
      simp [AxisForm.extent, Extent.interval, Lies, AxisForm.Wraps, full]
    | _ => cases late
  · rw [extent_interval words late, or_iff_left fun wraps => late wraps.endsAtMax]

theorem Extent.ofForms_eq (words : ∀ form ∈ forms, form.Words)
    (fine : build = .debug → ∀ form ∈ forms, ¬ form.EndsAtMax) :
    forms.mapM (Extent.ofForm build) = .ok (forms.map AxisForm.extent) :=
  Outcome.mapM_of_ok _ fun form member => Extent.ofForm_eq (words form member) fun checked =>
    fine checked form member

theorem extent_startCount (starts counts : List Nat) :
    List.zipWith (fun start count => Extent.sliceCount start count 1) starts counts =
      (List.zipWith AxisForm.startCount starts counts).map AxisForm.extent := by
  rw [List.map_zipWith]
  rfl

theorem startCount_early {starts counts : List Nat} :
    ∀ form ∈ List.zipWith AxisForm.startCount starts counts, ¬ form.EndsAtMax := by
  intro form member
  rw [← List.map_uncurry_zip_eq_zipWith] at member
  obtain ⟨pair, -, rfl⟩ := List.mem_map.mp member
  exact id

theorem Selection.Words.of_forms (words : selection.Words) (found : selection.forms shape = some forms) :
    ∀ form ∈ forms, form.Words := by
  cases selection with
  | whole =>
    cases found
    intro form member
    obtain ⟨_, -, rfl⟩ := List.mem_map.mp member
    exact trivial
  | axes written =>
    cases found
    exact words
  | startsCounts starts counts =>
    obtain ⟨-, same⟩ := Option.ite_none_right_eq_some.mp found
    cases same
    intro form member
    rw [← List.map_uncurry_zip_eq_zipWith] at member
    obtain ⟨⟨start, count⟩, among, rfl⟩ := List.mem_map.mp member
    exact ⟨words.1 start (List.of_mem_zip among).1, words.2 count (List.of_mem_zip among).2⟩

theorem Selection.convert_startsCounts (starts counts : List Nat) (what : String) :
    (∃ e, (Selection.startsCounts starts counts).forms shape = none ∧
        (Selection.startsCounts starts counts).convert build what shape = .error e) ∨
      (Selection.startsCounts starts counts).forms shape = some (List.zipWith .startCount starts counts) ∧
        (Selection.startsCounts starts counts).convert build what shape =
          (Extents.extent ((List.zipWith .startCount starts counts).map AxisForm.extent)).toHyperslab
          what shape := by
  by_cases same : starts.length = counts.length
  · right
    refine ⟨if_pos same, ?_⟩
    change ((if starts.length ≠ counts.length then _ else _) >>= fun extents => _) = _
    rw [if_neg (not_not_intro same), ← extent_startCount]
    rfl
  · left
    refine ⟨.badRequest s!"the selection gives {starts.length} starts and {counts.length} counts",
      if_neg same, ?_⟩
    change ((if starts.length ≠ counts.length then _ else _) >>= fun extents => _) = _
    rw [if_pos same]
    rfl

theorem Selection.convert_unpaired (unpaired : selection.forms shape = none) (build : Build) (what : String) :
    ∃ e, selection.convert build what shape = .error e := by
  cases selection with
  | startsCounts starts counts =>
    rcases @Selection.convert_startsCounts build shape starts counts what with ⟨e, -, failed⟩ | ⟨some_, -⟩
    · exact ⟨e, failed⟩
    · cases unpaired.symm.trans some_
  | _ => cases unpaired

/-- A selection of a whole variable selects every axis in full. -/
theorem toHyperslab_whole (dims : ∀ len ∈ shape, len < wordSize) (what : String) :
    (Extents.extent ((shape.map fun _ => AxisForm.rangeFull).map AxisForm.extent)).toHyperslab what shape =
      .ok (Hyperslab.all shape) := by
  rw [List.map_map, Extents.toHyperslab_eq_ok dims (by simp [AxisForm.extent, Extent.stride]),
    List.forall₂_map_right_iff, List.forall₂_same, List.zipWith_map_right, List.zipWith_self]
  refine ⟨fun len _ => ⟨Nat.zero_le len, le_refl len⟩, ?_⟩
  rw [Hyperslab.ofIntervals, List.map_map, List.map_map]
  exact congrArg (Hyperslab.mk _) (List.map_id shape).symm

/-- A selection whose forms can be converted is converted like the extents that they become. -/
theorem Selection.convert_eq (dims : ∀ len ∈ shape, len < wordSize) (words : selection.Words)
    (found : selection.forms shape = some forms) (fine : build = .debug → ∀ form ∈ forms, ¬ form.EndsAtMax)
    (what : String) :
    selection.convert build what shape =
      (Extents.extent (forms.map AxisForm.extent)).toHyperslab what shape := by
  cases selection with
  | whole =>
    cases found
    exact (toHyperslab_whole dims what).symm
  | axes written =>
    cases found
    change ((forms.mapM (Extent.ofForm build) >>= fun extents => _) >>= fun extents => _) = _
    rw [Extent.ofForms_eq words fine]
    rfl
  | startsCounts starts counts =>
    rcases @Selection.convert_startsCounts build shape starts counts what with ⟨_, none_, -⟩ |
      ⟨some_, converted⟩
    · cases none_.symm.trans found
    · cases some_.symm.trans found
      exact converted

/-- Such a selection gives the intervals of these extents. -/
theorem Selection.convert_eq_ok (dims : ∀ len ∈ shape, len < wordSize) (words : selection.Words)
    (found : selection.forms shape = some forms) (fine : build = .debug → ∀ form ∈ forms, ¬ form.EndsAtMax)
    (what : String) (slab : Hyperslab) :
    selection.convert build what shape = .ok slab ↔
      List.Forall₂ (fun len form => Lies len (form.extent.interval len)) shape forms ∧
        slab = Hyperslab.ofIntervals (List.zipWith (fun len form => form.extent.interval len) shape forms) := by
  rw [convert_eq dims words found fine what,
    Extents.toHyperslab_eq_ok dims (List.forall_mem_map.mpr fun form _ => form.extent_stride),
    List.forall₂_map_right_iff, List.zipWith_map_right]

theorem Hyperslab.within_all (shape : List Nat) :
    Hyperslab.Within (Hyperslab.all shape).start (Hyperslab.all shape).count shape := by
  induction shape with
  | nil => trivial
  | cons len shape ih => exact ⟨(Nat.zero_add len).le, ih⟩

theorem Selection.convert_valid (dims : ∀ len ∈ shape, len < wordSize) {what : String} {slab : Hyperslab}
    (converted : selection.convert build what shape = .ok slab) : slab.validate shape = .ok () := by
  obtain ⟨extents, -, converted⟩ := Outcome.bind_eq_ok.mp converted
  cases extents with
  | all =>
    cases converted
    unfold Hyperslab.validate
    rw [if_neg (by simp [Hyperslab.all])]
    exact (Hyperslab.validateAxes_eq_ok 0 (List.length_map _) rfl dims).mpr (Hyperslab.within_all shape)
  | extent extents =>
    rw [Extents.toHyperslab] at converted
    split at converted
    · cases converted
    · obtain ⟨parts, -, converted⟩ := Outcome.bind_eq_ok.mp converted
      obtain ⟨⟨⟩, passed, same⟩ := Outcome.bind_eq_ok.mp converted
      cases same
      exact passed

/-- A checked build panics where a form ends at the largest word. -/
theorem Selection.convert_debug_panics (words : selection.Words)
    (found : selection.forms shape = some forms) {form : AxisForm} (member : form ∈ forms)
    (late : form.EndsAtMax) (what : String) : (selection.convert .debug what shape).Panics := by
  have mapped : ∀ forms : List AxisForm, (∀ form ∈ forms, form.Words) → form ∈ forms →
      (forms.mapM (Extent.ofForm .debug)).Panics := by
    intro forms
    induction forms with
    | nil => nofun
    | cons first others ih =>
      intro words among
      obtain ⟨here, later⟩ := List.forall_mem_cons.mp words
      rw [List.mapM_cons, Outcome.panics_bind]
      rcases List.mem_cons.mp among with rfl | among
      · left
        rw [Extent.ofForm_debug_panics late]
        exact Outcome.panics_panic _
      · by_cases early : first.EndsAtMax
        · left
          rw [Extent.ofForm_debug_panics early]
          exact Outcome.panics_panic _
        · right
          refine ⟨_, Extent.ofForm_eq here fun _ => early, ?_⟩
          exact Outcome.panics_bind.mpr (.inl (ih later among))
  cases selection with
  | whole =>
    cases found
    obtain ⟨_, -, rfl⟩ := List.mem_map.mp member
    cases late
  | axes written =>
    cases found
    exact Outcome.panics_bind.mpr (.inl (Outcome.panics_bind.mpr (.inl (mapped forms words member))))
  | startsCounts starts counts =>
    rcases @Selection.convert_startsCounts .debug shape starts counts what with ⟨_, none_, -⟩ | ⟨some_, -⟩
    · cases none_.symm.trans found
    · cases some_.symm.trans found
      exact absurd late (startCount_early form member)

theorem forall₂_congr_of_mem {α β : Type} {first second : α → β → Prop} {as : List α} {bs : List β}
    (same : ∀ a ∈ as, ∀ b ∈ bs, (first a b ↔ second a b)) :
    List.Forall₂ first as bs ↔ List.Forall₂ second as bs := by
  rw [List.forall₂_iff_zip, List.forall₂_iff_zip]
  refine and_congr_right fun _ => ?_
  constructor
  · intro all a b member
    exact (same a (List.of_mem_zip member).1 b (List.of_mem_zip member).2).mp (all member)
  · intro all a b member
    exact (same a (List.of_mem_zip member).1 b (List.of_mem_zip member).2).mpr (all member)

theorem zipWith_congr_of_mem {α β γ : Type} {first second : α → β → γ} {as : List α} {bs : List β}
    (same : ∀ a ∈ as, ∀ b ∈ bs, first a b = second a b) :
    List.zipWith first as bs = List.zipWith second as bs := by
  rw [← List.map_uncurry_zip_eq_zipWith, ← List.map_uncurry_zip_eq_zipWith]
  refine List.map_congr_left fun pair member => ?_
  exact same pair.1 (List.of_mem_zip member).1 pair.2 (List.of_mem_zip member).2

theorem early_of_lies (dims : ∀ len ∈ shape, len < wordSize)
    (lies : List.Forall₂ (fun len form => Lies len (AxisForm.interval len form)) shape forms) :
    ∀ form ∈ forms, ¬ form.EndsAtMax := by
  induction lies with
  | nil => nofun
  | cons here later ih =>
    obtain ⟨word, words⟩ := List.forall_mem_cons.mp dims
    exact List.forall_mem_cons.mpr ⟨fun late => not_lies_of_endsAtMax word late here, ih words⟩

theorem Selection.Words.lies_extents (words : selection.Words) (dims : ∀ len ∈ shape, len < wordSize)
    (found : selection.forms shape = some forms) :
    List.Forall₂ (fun len form => Lies len (form.extent.interval len)) shape forms ↔
      List.Forall₂ (fun len form => Lies len (form.interval len) ∨ form.Wraps) shape forms :=
  forall₂_congr_of_mem fun len axis form member => lies_extent_iff (words.of_forms found form member) (dims len axis)

theorem Selection.EndsEarly.of_exact (dims : ∀ len ∈ shape, len < wordSize) (words : selection.Words) {what : String}
    (exact_ : selection.Exact build what shape) : selection.EndsEarly build shape := by
  intro forms found
  -- The checked build panics at a form that ends at the last word; the other one wraps it.
  cases build with
  | debug =>
    intro form member late
    exact exact_.1 (convert_debug_panics words found member late what)
  | release =>
    intro lies form member wraps
    have unchecked : Build.release = .debug → ∀ form ∈ forms, ¬ form.EndsAtMax := nofun
    have done := (convert_eq_ok dims words found unchecked what _).mpr ⟨(words.lies_extents dims found).mpr lies, rfl⟩
    obtain ⟨_, same, inside, -⟩ := (exact_.2 _).mp done
    cases same.symm.trans found
    exact early_of_lies dims inside form member wraps.endsAtMax

/-- Of forms that end early, those that lie in their axes once their ends have wrapped do so as they are. -/
theorem Selection.EndsEarly.lies (early : selection.EndsEarly build shape)
    (found : selection.forms shape = some forms)
    (lies : List.Forall₂ (fun len form => Lies len (form.interval len) ∨ form.Wraps) shape forms) :
    List.Forall₂ (fun len form => Lies len (form.interval len)) shape forms := by
  have plain : ∀ form ∈ forms, ¬ form.Wraps := by
    cases build with
    | debug => exact fun form member wraps => early forms found form member wraps.endsAtMax
    | release => exact early forms found lies
  exact (forall₂_congr_of_mem fun len _ form member => or_iff_left (plain form member)).mp lies

theorem Selection.EndsEarly.exact (early : selection.EndsEarly build shape) (dims : ∀ len ∈ shape, len < wordSize)
    (words : selection.Words) (what : String) : selection.Exact build what shape := by
  cases found : selection.forms shape with
  | none =>
    obtain ⟨e, failed⟩ := convert_unpaired found build what
    simp [Selection.Exact, failed, found]
  | some forms =>
    have fine : build = .debug → ∀ form ∈ forms, ¬ form.EndsAtMax := by
      rintro rfl
      exact early forms found
    have same (lies : List.Forall₂ (fun len form => Lies len (AxisForm.interval len form)) shape forms) :
        List.zipWith (fun len form => form.extent.interval len) shape forms =
          List.zipWith AxisForm.interval shape forms := by
      refine zipWith_congr_of_mem fun len _ form member => ?_
      exact extent_interval (words.of_forms found form member) (early_of_lies dims lies form member)
    refine ⟨?_, fun slab => (convert_eq_ok dims words found fine what slab).trans ?_⟩
    · rw [convert_eq dims words found fine what]
      exact Extents.not_panics_toHyperslab what shape _
    · rw [words.lies_extents dims found]
      constructor
      · rintro ⟨lies, rfl⟩
        have inside := early.lies found lies
        exact ⟨forms, found, inside, by rw [same inside]⟩
      · rintro ⟨_, other, inside, rfl⟩
        cases found.symm.trans other
        exact ⟨inside.imp fun _ _ lies => .inl lies, by rw [same inside]⟩

/-- A selection is converted into exactly what it denotes when none of its forms ends too late. -/
theorem Selection.convert_exact_iff (dims : ∀ len ∈ shape, len < wordSize) (words : selection.Words)
    (what : String) :
    selection.Exact build what shape ↔ selection.EndsEarly build shape :=
  ⟨.of_exact dims words, fun early => early.exact dims words what⟩

theorem Selection.convert_exact_twoAxes :
    Selection.convert .debug "t" [10, 20] (.axes [.index 3, .rangeInclusive 2 5]) = .ok ⟨[3, 2], [1, 4]⟩ := by
  have early : Selection.EndsEarly .debug [10, 20] (.axes [.index 3, .rangeInclusive 2 5]) := by
    rintro forms ⟨⟩
    simp [AxisForm.EndsAtMax, wordSize]
  have exact_ := (convert_exact_iff (by decide) (by simp [Selection.Words, AxisForm.Words, wordSize]) "t").mpr early
  exact (exact_.2 _).mpr ⟨_, rfl, .cons (by decide) (.cons (by decide) .nil), rfl⟩

/-- A range up to and including the largest word selects nothing of an axis, or panics. -/
theorem Selection.lastWord_converts :
    Selection.convert .release "t" [10] (.axes [.rangeToInclusive (wordSize - 1)]) = .ok ⟨[0], [0]⟩ ∧
      Selection.convert .debug "t" [10] (.axes [.rangeToInclusive (wordSize - 1)]) = .panic .overflow ∧
      ¬ Selection.Exact .release "t" [10] (.axes [.rangeToInclusive (wordSize - 1)]) ∧
      ¬ Selection.Exact .debug "t" [10] (.axes [.rangeToInclusive (wordSize - 1)]) := by
  have wrapped : Selection.convert .release "t" [10] (.axes [.rangeToInclusive (wordSize - 1)]) =
      .ok ⟨[0], [0]⟩ := by rfl
  have overflows : Selection.convert .debug "t" [10] (.axes [.rangeToInclusive (wordSize - 1)]) =
      .panic .overflow := by rfl
  refine ⟨wrapped, overflows, fun exact_ => ?_, fun exact_ => exact_.1 ⟨.overflow, overflows⟩⟩
  obtain ⟨forms, same, lies, -⟩ := (exact_.2 _).mp wrapped
  cases same
  cases lies with
  | cons here _ => exact absurd here (by decide)

end Converted

end Oxcdf
