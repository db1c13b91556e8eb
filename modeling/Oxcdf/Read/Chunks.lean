import Oxcdf.ChunkIndex.Numbering
import Oxcdf.Foundation.Addressing

/-! The chunks of a dataset as a caller sees them, each with the selection that it covers.

A chunk at the edge is stored at full size and is clipped to the shape. One stored chunk for
each cell of the grid then covers every element once.
-/

set_option autoImplicit false

namespace Oxcdf

open Foundation Foundation.RowMajor ChunkIndex

structure Chunk where
  offset : List Nat
  /-- Shape of the region the chunk contributes, without what hangs past the end. -/
  shape : List Nat
  storedSize : Nat
  deriving DecidableEq, Repr

namespace Chunk

def selection (chunk : Chunk) : Hyperslab := { start := chunk.offset, count := chunk.shape }

/-- The coordinates that a reader of the selection visits, in its order. -/
def visits (chunk : Chunk) : List (List Nat) := (cells chunk.shape).map (shift chunk.offset)

/-- Two chunks that have no element in common. -/
def Apart (first second : Chunk) : Prop :=
  ∀ coord, ¬ (InBox first.offset first.shape coord ∧ InBox second.offset second.shape coord)

theorem cells_nodup (box : List Nat) : (cells box).Nodup := by
  have numbers : ((cells box).map (linear box)).Nodup := by
    rw [map_linear_cells]
    exact List.nodup_range
  exact numbers.of_map _

theorem mem_visits {chunk : Chunk} (same : chunk.offset.length = chunk.shape.length) {coord : List Nat} :
    coord ∈ chunk.visits ↔ InBox chunk.offset chunk.shape coord := by
  unfold visits
  rw [List.mem_map]
  constructor
  · rintro ⟨cell, member, rfl⟩
    exact (mem_cells.mp member).inBox_shift same
  · intro inside
    exact ⟨back chunk.offset coord, mem_cells.mpr inside.inside_back, inside.shift_back⟩

theorem visits_nodup {chunk : Chunk} (same : chunk.offset.length = chunk.shape.length) :
    chunk.visits.Nodup := by
  refine List.Nodup.map_on ?_ (cells_nodup chunk.shape)
  intro first inFirst second inSecond shifted
  have long {cell : List Nat} (member : cell ∈ cells chunk.shape) : cell.length ≤ chunk.offset.length := by
    rw [same, (mem_cells.mp member).length_eq]
  rw [← back_shift (long inFirst), shifted, back_shift (long inSecond)]

end Chunk

namespace Read

/-- Clip a stored chunk to the bounds of each axis; there is nothing of one that starts past them. -/
def clipAxes : List Nat → List Nat → List Nat → Option (List Nat)
  | _, _, [] => some []
  | origin :: offset, full :: chunkDims, dim :: shape =>
    if origin ≥ dim then none
    else (clipAxes offset chunkDims shape).map (min full (dim - origin) :: ·)
  | _, _, _ :: _ => none

/-- What a record contributes to a dataset. -/
def chunkOf (chunkDims shape : List Nat) (record : ChunkRecord) : Option Chunk :=
  (clipAxes record.offset chunkDims shape).map fun clipped =>
    { offset := record.offset, shape := clipped, storedSize := record.size }

/-- Every stored chunk, clipped to the bounds. A dataset that is not chunked is one. -/
def chunksOf (dataset : DatasetIndex) : Code (List Chunk) :=
  match dataset.layout, dataset.chunks with
  | .chunked _ chunkDims _ _, some records => .ok (records.filterMap (chunkOf chunkDims dataset.shape))
  | _, _ =>
    .ok [{ offset := List.replicate dataset.shape.length 0, shape := dataset.shape
           storedSize := saturatingMul dataset.elementCount dataset.elementSize }]

section Grid

/-- The grid cell that a coordinate lies in. -/
def cellOf (chunkDims coord : List Nat) : List Nat := List.zipWith (fun x width => x / width) coord chunkDims

theorem inBox_offsetOf_iff : ∀ {chunkDims cell coord : List Nat}, cell.length = chunkDims.length →
    (∀ width ∈ chunkDims, 0 < width) →
    (InBox (offsetOf cell chunkDims) chunkDims coord ↔
      coord.length = chunkDims.length ∧ cell = cellOf chunkDims coord)
  | [], [], [], _, _ => by simp [offsetOf, cellOf, InBox]
  | [], [], _ :: _, _, _ => by simp [offsetOf, InBox]
  | _ :: _, _ :: _, [], _, _ => by simp [offsetOf, InBox]
  | width :: chunkDims, i :: cell, x :: coord, same, positive => by
    obtain ⟨wide, rest⟩ := List.forall_mem_cons.mp positive
    have later := @inBox_offsetOf_iff chunkDims cell coord (Nat.succ.inj same) rest
    have here : (i * width ≤ x ∧ x < i * width + width) ↔ i = x / width := by
      rw [eq_comm, Nat.div_eq_iff wide]
      omega
    change (i * width ≤ x ∧ x < i * width + width) ∧ InBox (offsetOf cell chunkDims) chunkDims coord ↔
      coord.length + 1 = chunkDims.length + 1 ∧ i :: cell = x / width :: cellOf chunkDims coord
    rw [here, later, List.cons.injEq, Nat.add_right_cancel_iff]
    tauto

theorem inside_cellOf : ∀ {shape chunkDims coord : List Nat}, shape.length = chunkDims.length →
    (∀ width ∈ chunkDims, 0 < width) → Inside shape coord →
    Inside (chunkGrid shape chunkDims) (cellOf chunkDims coord)
  | [], [], [], _, _, _ => trivial
  | dim :: shape, width :: chunkDims, x :: coord, same, positive, inside => by
    obtain ⟨wide, rest⟩ := List.forall_mem_cons.mp positive
    rw [chunkGrid_cons, if_neg (Nat.ne_of_gt wide)]
    refine ⟨?_, inside_cellOf (Nat.succ.inj same) rest inside.2⟩
    have below := inside.1
    have floor := Nat.div_mul_le_self x width
    refine (Nat.le_div_iff_mul_le wide).mpr ?_
    change (x / width + 1) * width ≤ dim + width - 1
    rw [Nat.succ_mul]
    omega

/-- A clipped chunk is valid, and holds what of the chunk lies in the shape. -/
theorem clipAxes_spec : ∀ {offset chunkDims shape clipped : List Nat}, offset.length = shape.length →
    chunkDims.length = shape.length → clipAxes offset chunkDims shape = some clipped →
    Hyperslab.Within offset clipped shape ∧
      ∀ coord, InBox offset clipped coord ↔ Inside shape coord ∧ InBox offset chunkDims coord
  | [], [], [], clipped, _, _, found => by
    cases found
    refine ⟨trivial, fun coord => ?_⟩
    cases coord <;> simp [InBox, Inside]
  | [], _ :: _, [], _, _, sameDims, _ => nomatch sameDims
  | _ :: _, [], _ :: _, _, _, sameDims, _ => nomatch sameDims
  | origin :: offset, full :: chunkDims, dim :: shape, clipped, sameOffset, sameDims, found => by
    rw [clipAxes] at found
    split at found
    · cases found
    · next before =>
      obtain ⟨rest, clips, rfl⟩ := Option.map_eq_some_iff.mp found
      obtain ⟨within, covers⟩ := clipAxes_spec (Nat.succ.inj sameOffset) (Nat.succ.inj sameDims) clips
      refine ⟨⟨by omega, within⟩, fun coord => ?_⟩
      cases coord with
      | nil => simp [InBox]
      | cons x coord =>
        have here : (origin ≤ x ∧ x < origin + min full (dim - origin)) ↔
            x < dim ∧ (origin ≤ x ∧ x < origin + full) := by omega
        simp only [InBox, Inside, here, covers]
        tauto

theorem clipAxes_some : ∀ {offset chunkDims shape : List Nat}, chunkDims.length = shape.length →
    List.Forall₂ (· < ·) offset shape → ∃ clipped, clipAxes offset chunkDims shape = some clipped
  | [], [], [], _, .nil => ⟨[], rfl⟩
  | [], _ :: _, [], same, .nil => nomatch same
  | _ :: _, [], _ :: _, same, _ => nomatch same
  | origin :: offset, full :: chunkDims, dim :: shape, same, .cons before rest => by
    obtain ⟨clipped, clips⟩ := clipAxes_some (Nat.succ.inj same) rest
    refine ⟨min full (dim - origin) :: clipped, ?_⟩
    rw [clipAxes, if_neg (Nat.not_le.mpr before), clips]
    rfl

end Grid

section Partition

variable {dataset : DatasetIndex} {records : List ChunkRecord} {chunkDims : List Nat}

/-- One record for each cell of the chunk grid, in any order. -/
structure Tiled (dataset : DatasetIndex) (records : List ChunkRecord) (chunkDims : List Nat) : Prop where
  rank : chunkDims.length = dataset.shape.length
  positive : ∀ width ∈ chunkDims, 0 < width
  words : ∀ dim ∈ dataset.shape, dim < wordSize
  records : (records.map ChunkRecord.offset).Perm
    ((cells (chunkGrid dataset.shape chunkDims)).map fun cell => offsetOf cell chunkDims)

theorem Tiled.cell (tiled : Tiled dataset records chunkDims) {record : ChunkRecord}
    (member : record ∈ records) :
    ∃ cell, Inside (chunkGrid dataset.shape chunkDims) cell ∧ record.offset = offsetOf cell chunkDims := by
  obtain ⟨cell, inside, same⟩ := List.mem_map.mp (tiled.records.subset (List.mem_map_of_mem member))
  exact ⟨cell, mem_cells.mp inside, same.symm⟩

theorem Tiled.grid_length (tiled : Tiled dataset records chunkDims) {cell : List Nat}
    (inside : Inside (chunkGrid dataset.shape chunkDims) cell) : cell.length = chunkDims.length :=
  inside.length_eq.trans (chunkGrid_length tiled.rank.symm)

theorem Tiled.offset_length (tiled : Tiled dataset records chunkDims) {record : ChunkRecord}
    (member : record ∈ records) : record.offset.length = dataset.shape.length := by
  obtain ⟨cell, inside, same⟩ := tiled.cell member
  rw [same, offsetOf, List.length_zipWith, tiled.grid_length inside, Nat.min_self, tiled.rank]

/-- Every record of the grid is a chunk, and its selection holds the elements of its cell. -/
theorem Tiled.chunk (tiled : Tiled dataset records chunkDims) {record : ChunkRecord}
    (member : record ∈ records) :
    ∃ chunk, chunkOf chunkDims dataset.shape record = some chunk := by
  obtain ⟨cell, inside, same⟩ := tiled.cell member
  have before := offsetOf_lt inside
  rw [← same, List.take_of_length_le tiled.rank.ge] at before
  obtain ⟨clipped, clips⟩ := clipAxes_some tiled.rank before
  exact ⟨_, Option.map_eq_some_iff.mpr ⟨clipped, clips, rfl⟩⟩

theorem Tiled.chunk_spec (tiled : Tiled dataset records chunkDims) {record : ChunkRecord}
    (member : record ∈ records)
    {chunk : Chunk} (found : chunkOf chunkDims dataset.shape record = some chunk) :
    Hyperslab.Within chunk.offset chunk.shape dataset.shape ∧
      ∀ coord, InBox chunk.offset chunk.shape coord ↔
        Inside dataset.shape coord ∧ record.offset = offsetOf (cellOf chunkDims coord) chunkDims := by
  obtain ⟨clipped, clips, rfl⟩ := Option.map_eq_some_iff.mp found
  obtain ⟨within, covers⟩ := clipAxes_spec (tiled.offset_length member) tiled.rank clips
  refine ⟨within, fun coord => (covers coord).trans (and_congr_right fun inside => ?_)⟩
  obtain ⟨cell, here, same⟩ := tiled.cell member
  have there := inside_cellOf tiled.rank.symm tiled.positive inside
  rw [same, inBox_offsetOf_iff (tiled.grid_length here) tiled.positive]
  constructor
  · rintro ⟨-, rfl⟩
    rfl
  · intro starts
    exact ⟨inside.length_eq.trans tiled.rank.symm, offsetOf_injective here there starts⟩

/-- Different records of the grid have no element in common. -/
theorem Tiled.apart (tiled : Tiled dataset records chunkDims) :
    (records.filterMap (chunkOf chunkDims dataset.shape)).Pairwise Chunk.Apart := by
  have distinct : (records.map ChunkRecord.offset).Nodup := by
    refine tiled.records.nodup_iff.mpr (List.Nodup.map_on ?_ (Chunk.cells_nodup _))
    exact fun first inFirst second inSecond same =>
      offsetOf_injective (mem_cells.mp inFirst) (mem_cells.mp inSecond) same
  have different : records.Pairwise fun first second => first.offset ≠ second.offset :=
    List.pairwise_map.mp distinct
  refine List.pairwise_filterMap.mpr (different.imp_of_mem ?_)
  intro first second inFirst inSecond other one isFirst two isSecond coord inBoth
  have firstCell := ((tiled.chunk_spec inFirst isFirst).2 coord).mp inBoth.1
  have secondCell := ((tiled.chunk_spec inSecond isSecond).2 coord).mp inBoth.2
  exact other (firstCell.2.trans secondCell.2.symm)

/-- Every element lies in a chunk. -/
theorem Tiled.covers (tiled : Tiled dataset records chunkDims) {coord : List Nat} :
    (∃ chunk ∈ records.filterMap (chunkOf chunkDims dataset.shape), InBox chunk.offset chunk.shape coord) ↔
      Inside dataset.shape coord := by
  constructor
  · rintro ⟨chunk, member, inside⟩
    obtain ⟨record, held, found⟩ := List.mem_filterMap.mp member
    exact (((tiled.chunk_spec held found).2 coord).mp inside).1
  · intro inside
    have there := inside_cellOf tiled.rank.symm tiled.positive inside
    have offset := tiled.records.symm.subset (List.mem_map_of_mem (mem_cells.mpr there))
    obtain ⟨record, held, starts⟩ := List.mem_map.mp offset
    obtain ⟨chunk, found⟩ := tiled.chunk held
    refine ⟨chunk, List.mem_filterMap.mpr ⟨record, held, found⟩, ?_⟩
    exact ((tiled.chunk_spec held found).2 coord).mpr ⟨inside, starts⟩

/-- The chunks of a dataset with one record for each cell of its grid: their selections are valid, no two have an
element in common, and reading all of them visits every element once. -/
theorem chunksOf_partition {address : Option Nat} {elementSize : Nat} {index : ChunkIndex}
    (layout : dataset.layout = .chunked address chunkDims elementSize index)
    (resolved : dataset.chunks = some records) (tiled : Tiled dataset records chunkDims) :
    ∃ chunks, chunksOf dataset = .ok chunks ∧
      (∀ chunk ∈ chunks, chunk.selection.validate dataset.shape = .ok ()) ∧
      chunks.Pairwise Chunk.Apart ∧
      (chunks.flatMap Chunk.visits).Perm (cells dataset.shape) := by
  have within : ∀ chunk ∈ records.filterMap (chunkOf chunkDims dataset.shape),
      Hyperslab.Within chunk.offset chunk.shape dataset.shape := by
    intro chunk member
    obtain ⟨record, held, found⟩ := List.mem_filterMap.mp member
    exact (tiled.chunk_spec held found).1
  have same : ∀ chunk ∈ records.filterMap (chunkOf chunkDims dataset.shape),
      chunk.offset.length = chunk.shape.length := fun chunk member =>
    (within chunk member).lengths.1.trans (within chunk member).lengths.2.symm
  refine ⟨records.filterMap (chunkOf chunkDims dataset.shape), by
    rw [chunksOf, layout, resolved], ?_, tiled.apart, ?_⟩
  · intro chunk member
    obtain ⟨starts, counts⟩ := (within chunk member).lengths
    refine (if_neg (not_or.mpr ⟨not_not_intro starts, not_not_intro counts⟩)).trans ?_
    exact (Hyperslab.validateAxes_eq_ok 0 starts counts tiled.words).mpr (within chunk member)
  · refine (List.perm_ext_iff_of_nodup ?_ (Chunk.cells_nodup _)).mpr fun coord => ?_
    · refine List.nodup_flatMap.mpr ⟨fun chunk member => Chunk.visits_nodup (same chunk member), ?_⟩
      refine tiled.apart.imp_of_mem fun inFirst inSecond apart => ?_
      intro coord first second
      exact apart coord ⟨(Chunk.mem_visits (same _ inFirst)).mp first,
        (Chunk.mem_visits (same _ inSecond)).mp second⟩
    · rw [List.mem_flatMap, mem_cells, ← tiled.covers]
      refine exists_congr fun chunk => and_congr_right fun member => ?_
      exact Chunk.mem_visits (same chunk member)

/-- Five rows of three elements in chunks of two by two, stored from the last to the first. -/
def fiveByThree : DatasetIndex :=
  .ofBytes [5, 3] (.chunked (some 0) [2, 2] 1 .btreeV1)
    (some ([[4, 2], [4, 0], [2, 2], [2, 0], [0, 2], [0, 0]].map fun offset => ⟨4, 0, offset, 0⟩))

theorem chunksOf_fiveByThree : ∃ chunks, chunksOf fiveByThree = .ok chunks ∧
    (∀ chunk ∈ chunks, chunk.selection.validate [5, 3] = .ok ()) ∧ chunks.Pairwise Chunk.Apart ∧
    (chunks.flatMap Chunk.visits).Perm (cells [5, 3]) := by
  have tiled : Tiled fiveByThree
    ([[4, 2], [4, 0], [2, 2], [2, 0], [0, 2], [0, 0]].map fun offset => ⟨4, 0, offset, 0⟩)
      [2, 2] := ⟨rfl, by decide, by decide, by decide⟩
  exact chunksOf_partition rfl rfl tiled

end Partition

end Read

end Oxcdf
