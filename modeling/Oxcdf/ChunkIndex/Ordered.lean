import Oxcdf.ChunkIndex.Positions
import Oxcdf.Foundation.Numeration

/-! Chunk numbers and chunk offsets.

The numbers below the size of the grid are the chunks of the shape, each once, and an
offset grows with its number. Records that are built from consecutive numbers are
therefore sorted as they are.
-/

set_option autoImplicit false

namespace Oxcdf.ChunkIndex

open Foundation Foundation.RowMajor

section Loop

/-- `dims[axis]`. -/
def axisOf (dims : List Nat) (axis : Nat) : Code Nat :=
  match dims[axis]? with
  | some extent => .ok extent
  | none => .panic .index

/-- One turn of the loop of `chunk_offset`: the offset so far and what is left of the number. -/
def takeAxis (build : Build) (grid chunkDims : List Nat) (state : List Nat × Nat) (axis : Nat) :
    Code (List Nat × Nat) := do
  let (out, rest) := state
  let extent ← axisOf grid axis
  let extent := max extent 1
  let width ← axisOf chunkDims axis
  let start ← build.mul (rest % extent) width
  pure (out.set axis start, rest / extent)

/-- `chunk_offset` as it runs, over the axes from the last to the first. -/
def chunkOffsetChecked (build : Build) (index : Nat) (grid chunkDims : List Nat) : Code (List Nat) :=
  Prod.fst <$> (List.range grid.length).reverse.foldlM (takeAxis build grid chunkDims)
    (List.replicate grid.length 0, index)

theorem axisOf_of_drop {dims rest : List Nat} {axis extent : Nat} (here : dims.drop axis = extent :: rest) :
    axisOf dims axis = .ok extent := by
  have found : dims[axis]? = some extent := by
    rw [← List.head?_drop, here]
    rfl
  rw [axisOf, found]

variable (build : Build) {shape chunkDims : List Nat}

/-- A turn takes the next axis as `takeAxes` does; nothing overflows. -/
theorem takeAxis_eq (words : ∀ d ∈ shape, d < wordSize) {d c index axis : Nat} {later laterDims : List Nat}
    (here : shape.drop axis = d :: later) (width : chunkDims.drop axis = c :: laterDims) :
    takeAxis build (chunkGrid shape chunkDims) chunkDims
        (List.replicate (axis + 1) 0 ++ (takeAxes (chunkGrid later laterDims) laterDims index).1,
          (takeAxes (chunkGrid later laterDims) laterDims index).2) axis =
      .ok (List.replicate axis 0 ++ (takeAxes (chunkGrid (d :: later) (c :: laterDims)) (c :: laterDims) index).1,
        (takeAxes (chunkGrid (d :: later) (c :: laterDims)) (c :: laterDims) index).2) := by
  have grid : (chunkGrid shape chunkDims).drop axis =
      (if c = 0 then 0 else (d + c - 1) / c) :: chunkGrid later laterDims := by
    rw [chunkGrid, List.drop_zipWith, here, width]
    rfl
  have member : d ∈ shape := List.mem_of_mem_drop (here ▸ List.mem_cons_self)
  have fits := lt_of_le_of_lt (axisStart_le (takeAxes (chunkGrid later laterDims) laterDims index).2 d c)
    (words d member)
  simp only [takeAxis, axisOf_of_drop grid, axisOf_of_drop width, Outcome.ok_bind, Build.mul,
    Build.word_of_lt build fits, Outcome.pure_eq, chunkGrid_cons, takeAxes]
  rw [List.replicate_succ', List.append_assoc, List.set_append_right _ _ (by simp), List.length_replicate,
    Nat.sub_self]
  rfl

/-- The turns that are left take the axes before those that are taken. -/
theorem foldlM_takeAxis (same : shape.length = chunkDims.length) (words : ∀ d ∈ shape, d < wordSize)
    (index : Nat) : ∀ {axis : Nat}, axis ≤ shape.length →
    (List.range axis).reverse.foldlM (takeAxis build (chunkGrid shape chunkDims) chunkDims)
        (List.replicate axis 0 ++
          (takeAxes (chunkGrid (shape.drop axis) (chunkDims.drop axis)) (chunkDims.drop axis) index).1,
          (takeAxes (chunkGrid (shape.drop axis) (chunkDims.drop axis)) (chunkDims.drop axis) index).2) =
      .ok (takeAxes (chunkGrid shape chunkDims) chunkDims index) := by
  intro axis
  induction axis with
  | zero => exact fun _ => rfl
  | succ axis ih =>
    intro within
    have here := List.drop_eq_getElem_cons (show axis < shape.length by omega)
    have width := List.drop_eq_getElem_cons (show axis < chunkDims.length by omega)
    have front := ih (by omega)
    rw [here, width] at front
    -- The turn for the last axis that is left comes first.
    rw [List.range_succ, List.reverse_append, List.reverse_singleton, List.singleton_append, List.foldlM_cons,
      takeAxis_eq build words here width, Outcome.ok_bind]
    exact front

/-- The loop of `chunk_offset` neither overflows nor leaves its lists, whatever the number. -/
theorem chunkOffsetChecked_eq (same : shape.length = chunkDims.length) (words : ∀ d ∈ shape, d < wordSize)
    (index : Nat) :
    chunkOffsetChecked build index (chunkGrid shape chunkDims) chunkDims =
      .ok (chunkOffset index (chunkGrid shape chunkDims) chunkDims) := by
  have turns := foldlM_takeAxis build same words index (le_refl shape.length)
  rw [List.drop_length, same, List.drop_length, show chunkGrid [] [] = [] from rfl,
    show takeAxes [] [] index = ([], index) from rfl, List.append_nil] at turns
  rw [chunkOffsetChecked, chunkGrid_length same, turns]
  rfl

end Loop

section Offsets

/-- An offset at which a chunk of the shape starts: a multiple of the chunk's length on each axis, below
the end of the axis. -/
def OnGrid (shape chunkDims offset : List Nat) : Prop :=
  List.Forall₂ (· ∣ ·) chunkDims offset ∧ List.Forall₂ (· < ·) offset shape

variable {shape chunkDims : List Nat}

theorem exists_offsetOf_iff : ∀ {shape chunkDims offset : List Nat}, shape.length = chunkDims.length →
    (∀ width ∈ chunkDims, 0 < width) →
    ((∃ cell, Inside (chunkGrid shape chunkDims) cell ∧ offsetOf cell chunkDims = offset) ↔
      OnGrid shape chunkDims offset)
  | [], [], offset, _, _ => by
    constructor
    · rintro ⟨cell, -, rfl⟩
      simp [OnGrid, offsetOf]
    · rintro ⟨multiples, -⟩
      cases multiples
      exact ⟨[], trivial, rfl⟩
  | d :: shape, c :: chunkDims, offset, same, positive => by
    obtain ⟨wide, rest⟩ := List.forall_mem_cons.mp positive
    have later := fun {offset : List Nat} => @exists_offsetOf_iff shape chunkDims offset (Nat.succ.inj same) rest
    -- The division rounds up: a chunk that starts before the end of the axis counts.
    have axis (i : Nat) : i < (if c = 0 then 0 else (d + c - 1) / c) ↔ i * c < d := by
      rw [if_neg (Nat.ne_of_gt wide), Nat.lt_iff_add_one_le, Nat.le_div_iff_mul_le wide, Nat.succ_mul]
      omega
    constructor
    · rintro ⟨cell, inside, rfl⟩
      cases cell with
      | nil => exact inside.elim
      | cons i cell =>
        obtain ⟨multiples, below⟩ := later.mp ⟨cell, inside.2, rfl⟩
        exact ⟨.cons (Nat.dvd_mul_left c i) multiples, .cons ((axis i).mp inside.1) below⟩
    · rintro ⟨multiples, below⟩
      obtain ⟨-, -⟩ | ⟨here, multiples⟩ := multiples
      obtain ⟨i, rfl⟩ := here
      obtain ⟨-, -⟩ | ⟨before, below⟩ := below
      obtain ⟨cell, inside, rfl⟩ := later.mpr ⟨multiples, below⟩
      rw [Nat.mul_comm] at before ⊢
      exact ⟨i :: cell, ⟨(axis i).mpr before, inside⟩, rfl⟩

variable (same : shape.length = chunkDims.length)

include same

/-- The number of a cell gives its offset back. -/
theorem chunkOffset_linear (cell : List Nat) (inside : Inside (chunkGrid shape chunkDims) cell) :
    chunkOffset (linear (chunkGrid shape chunkDims) cell) (chunkGrid shape chunkDims) chunkDims =
      offsetOf cell chunkDims :=
  (chunkOffset_eq_iff same inside _).mpr (Nat.mod_eq_of_lt (linear_lt inside))

variable (positive : ∀ width ∈ chunkDims, 0 < width)

include positive

theorem offsetOf_lt_offsetOf (first second : List Nat) (left : Inside (chunkGrid shape chunkDims) first)
    (right : Inside (chunkGrid shape chunkDims) second) (before : first < second) :
    offsetOf first chunkDims < offsetOf second chunkDims := by
  have rank := chunkGrid_length same
  exact zipWith_mul_lt (left.length_eq.trans rank) (right.length_eq.trans rank) positive before

theorem chunkOffset_strictMonoOn :
    StrictMonoOn (fun index => chunkOffset index (chunkGrid shape chunkDims) chunkDims)
      (Set.Iio (chunkGrid shape chunkDims).prod) :=
  strictMonoOn_of_cells (chunkOffset_linear same) (offsetOf_lt_offsetOf same positive)

theorem chunkOffset_bijOn :
    Set.BijOn (fun index => chunkOffset index (chunkGrid shape chunkDims) chunkDims)
      (Set.Iio (chunkGrid shape chunkDims).prod) {offset | OnGrid shape chunkDims offset} := by
  have cells : Set.BijOn (fun index => chunkOffset index (chunkGrid shape chunkDims) chunkDims)
      (Set.Iio (chunkGrid shape chunkDims).prod)
      {offset | ∃ cell, Inside (chunkGrid shape chunkDims) cell ∧ offsetOf cell chunkDims = offset} :=
    bijOn_of_cells (chunkOffset_linear same) (offsetOf_lt_offsetOf same positive)
  simp only [exists_offsetOf_iff same positive] at cells
  exact cells

end Offsets

section Records

variable {shape chunkDims : List Nat} {records : List ChunkRecord}

/-- One record for each chunk of the shape, in the order that a sort gives them. -/
structure Enumerated (shape chunkDims : List Nat) (records : List ChunkRecord) : Prop where
  distinct : (records.map ChunkRecord.offset).Nodup
  complete : ∀ offset, OnGrid shape chunkDims offset ↔ ∃ record ∈ records, record.offset = offset
  sorted : sortByOffset records = records

/-- Records in a strict order of their offsets are apart, and a sort leaves them as they are. -/
theorem sorted_of_increasing (increasing : (records.map ChunkRecord.offset).Pairwise (· < ·)) :
    (records.map ChunkRecord.offset).Nodup ∧ sortByOffset records = records := by
  refine ⟨increasing.imp fun before => ne_of_lt before, ?_⟩
  apply List.mergeSort_of_pairwise
  rw [List.pairwise_map] at increasing
  exact increasing.imp fun before => decide_eq_true before.le

/-- The offsets of an array's records are those of the numbers of its elements with an address. -/
theorem elementsToRecords_offsets (elements : List Element) (grid chunkDims : List Nat) (unfilteredSize : Nat) :
    (elementsToRecords elements grid chunkDims unfilteredSize).map ChunkRecord.offset =
      (List.range elements.length).filterMap fun index =>
        (storedAt elements index).map fun _ => chunkOffset index grid chunkDims := by
  have positions : List.range elements.length = elements.zipIdx.map Prod.snd := by
    rw [List.zipIdx_map_snd, List.range_eq_range']
  rw [elementsToRecords, List.map_filterMap, positions, List.filterMap_map]
  refine List.filterMap_congr fun entry member => ?_
  obtain ⟨element, index⟩ := entry
  rw [List.mem_zipIdx_iff_getElem?] at member
  simp only [Function.comp_apply, storedAt, member, Option.bind_some, Element.toRecord, Option.map_map]
  rfl

variable (same : shape.length = chunkDims.length) (positive : ∀ width ∈ chunkDims, 0 < width)

include same positive

/-- Records at the offsets of all numbers, in the order of the numbers. -/
theorem enumerated_of_offsets (offsets : records.map ChunkRecord.offset =
    (List.range (chunkGrid shape chunkDims).prod).map fun index =>
      chunkOffset index (chunkGrid shape chunkDims) chunkDims) : Enumerated shape chunkDims records := by
  have increasing := pairwise_map_range (chunkOffset_strictMonoOn same positive) (le_refl _)
  rw [← offsets] at increasing
  obtain ⟨distinct, sorted⟩ := sorted_of_increasing increasing
  refine ⟨distinct, fun offset => ?_, sorted⟩
  have image : offset ∈ (fun index => chunkOffset index (chunkGrid shape chunkDims) chunkDims) ''
      Set.Iio (chunkGrid shape chunkDims).prod ↔ OnGrid shape chunkDims offset :=
    Set.ext_iff.mp (chunkOffset_bijOn same positive).image_eq offset
  rw [← image, ← List.mem_map, offsets, List.mem_map]
  simp only [Set.mem_image, Set.mem_Iio, List.mem_range]

/-- The records of an array with no more elements than the shape has chunks are in order. -/
theorem elementsToRecords_increasing {elements : List Element}
    (few : elements.length ≤ (chunkGrid shape chunkDims).prod) (unfilteredSize : Nat) :
    ((elementsToRecords elements (chunkGrid shape chunkDims) chunkDims unfilteredSize).map
      ChunkRecord.offset).Pairwise (· < ·) := by
  have grows := chunkOffset_strictMonoOn same positive
  rw [elementsToRecords_offsets, List.pairwise_filterMap]
  refine List.pairwise_lt_range.imp_of_mem fun {first second} _ last before offset found other followed => ?_
  obtain ⟨-, -, rfl⟩ := Option.map_eq_some_iff.mp found
  obtain ⟨-, -, rfl⟩ := Option.map_eq_some_iff.mp followed
  have bound := List.mem_range.mp last
  exact grows (show first < _ by omega) (show second < _ by omega) before

/-- The records of an array that stores every chunk of the shape. -/
theorem elementsToRecords_enumerated {elements : List Element}
    (whole : elements.length = (chunkGrid shape chunkDims).prod)
    (stored : ∀ element ∈ elements, element.address ≠ none) (unfilteredSize : Nat) :
    Enumerated shape chunkDims
      (elementsToRecords elements (chunkGrid shape chunkDims) chunkDims unfilteredSize) := by
  apply enumerated_of_offsets same positive
  rw [elementsToRecords_offsets, whole, ← List.filterMap_eq_map]
  refine List.filterMap_congr fun index member => ?_
  have inside : index < elements.length := whole ▸ List.mem_range.mp member
  obtain ⟨address, written⟩ := Option.ne_none_iff_exists'.mp (stored _ (List.getElem_mem inside))
  rw [storedAt, List.getElem?_eq_getElem inside, Option.bind_some, written]
  rfl

theorem read_implicit_enumerated {readBtree2Chunks : Nat → List Nat → Bool → Code (List ChunkRecord)}
    {build : Build} {view : View} {address elementSize : Nat} {filtered : Bool}
    (found : read readBtree2Chunks build view .implicit (some address) shape chunkDims elementSize filtered =
      .ok records) : Enumerated shape chunkDims records := by
  obtain ⟨unsorted, read_, sorted⟩ := Outcome.bind_eq_ok.mp found
  rcases chunkCount_eq view (chunkGrid shape chunkDims) with ⟨e, -, refused⟩ | ⟨-, counted⟩
  · simp only [readAt, refused, Outcome.error_bind, reduceCtorEq] at read_
  · simp only [readAt, counted, Outcome.ok_bind, Outcome.ok.injEq] at read_ sorted
    subst read_ sorted
    -- The records are built in the order of their numbers, so that the sort leaves them alone.
    have listed := @enumerated_of_offsets shape chunkDims
      ((List.range (chunkGrid shape chunkDims).prod).map (implicitRecord (chunkGrid shape chunkDims) chunkDims
        (saturatingMul (elementCount chunkDims) elementSize)
        (min (saturatingMul (elementCount chunkDims) elementSize) (2 ^ 32 - 1)) address)) same positive
      (by rw [List.map_map]; rfl)
    rw [listed.sorted]
    exact listed

end Records

section Numbered

/-- The chunk numbers below the size of the grid are the chunks of the shape, each once and in the order of the
offsets, so that records built from consecutive numbers are apart, complete and sorted as they are. -/
theorem chunk_numbering {shape chunkDims : List Nat} (same : shape.length = chunkDims.length)
    (positive : ∀ width ∈ chunkDims, 0 < width) (words : ∀ d ∈ shape, d < wordSize) :
    Set.BijOn (fun index => chunkOffset index (chunkGrid shape chunkDims) chunkDims)
      (Set.Iio (chunkGrid shape chunkDims).prod) {offset | OnGrid shape chunkDims offset} ∧
    StrictMonoOn (fun index => chunkOffset index (chunkGrid shape chunkDims) chunkDims)
      (Set.Iio (chunkGrid shape chunkDims).prod) ∧
    (∀ build index, chunkOffsetChecked build index (chunkGrid shape chunkDims) chunkDims =
      .ok (chunkOffset index (chunkGrid shape chunkDims) chunkDims)) ∧
    (∀ readBtree2Chunks build view address elementSize filtered records,
      read readBtree2Chunks build view .implicit (some address) shape chunkDims elementSize filtered =
        .ok records → Enumerated shape chunkDims records) ∧
    ∀ elements : List Element, elements.length ≤ (chunkGrid shape chunkDims).prod → ∀ unfilteredSize,
      ((elementsToRecords elements (chunkGrid shape chunkDims) chunkDims unfilteredSize).map
        ChunkRecord.offset).Nodup ∧
      sortByOffset (elementsToRecords elements (chunkGrid shape chunkDims) chunkDims unfilteredSize) =
        elementsToRecords elements (chunkGrid shape chunkDims) chunkDims unfilteredSize ∧
      (elements.length = (chunkGrid shape chunkDims).prod → (∀ element ∈ elements, element.address ≠ none) →
        Enumerated shape chunkDims
          (elementsToRecords elements (chunkGrid shape chunkDims) chunkDims unfilteredSize)) := by
  refine ⟨chunkOffset_bijOn same positive, chunkOffset_strictMonoOn same positive,
    fun build index => chunkOffsetChecked_eq build same words index,
    fun _ _ _ _ _ _ records found => read_implicit_enumerated same positive found,
    fun elements few unfilteredSize => ?_⟩
  obtain ⟨distinct, sorted⟩ :=
    sorted_of_increasing (elementsToRecords_increasing same positive few unfilteredSize)
  exact ⟨distinct, sorted, fun whole stored => elementsToRecords_enumerated same positive whole stored _⟩

/-- The last of the twelve chunks of seven by four that forty by six elements are cut into. -/
theorem chunk_numbering_sixByTwo :
    OnGrid [40, 6] [7, 4] (chunkOffset 11 (chunkGrid [40, 6] [7, 4]) [7, 4]) ∧
    chunkOffset 1 (chunkGrid [40, 6] [7, 4]) [7, 4] < chunkOffset 2 (chunkGrid [40, 6] [7, 4]) [7, 4] ∧
    chunkOffsetChecked .debug 11 (chunkGrid [40, 6] [7, 4]) [7, 4] = .ok [35, 4] := by
  obtain ⟨bijection, increasing, loop, -, -⟩ := @chunk_numbering [40, 6] [7, 4] rfl (by decide) (by decide)
  have size : (chunkGrid [40, 6] [7, 4]).prod = 12 := by decide
  rw [size] at bijection increasing
  refine ⟨bijection.mapsTo (show 11 < 12 by decide), ?_, (loop .debug 11).trans (by decide)⟩
  exact increasing (show 1 < 12 by decide) (show 2 < 12 by decide) (by decide)

end Numbered

end Oxcdf.ChunkIndex
