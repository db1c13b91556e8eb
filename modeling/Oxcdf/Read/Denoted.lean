import Oxcdf.Read.Cached

/-! What a chunked read reports.

Every selected element is taken from the chunk that holds its coordinate. No two
chunks on the grid hold the same one, so the order of the copies does not matter,
and where no chunk holds it the fill value stays.
-/

set_option autoImplicit false

namespace Oxcdf.Read

open Foundation Foundation.RowMajor Foundation.Buffer

variable {build : Build} {dataset : DatasetIndex} {slab : Hyperslab}

section Coordinates

variable {offset widths start count : List Nat} {part : List (Nat × Nat)}

/-- A cell of a part is the same coordinate seen from the selection and from the origin. -/
theorem Clipped.shift_start (clipped : Clipped offset widths start count part) :
    ∀ cell : List Nat, shift start (shift (back start (lows part)) cell) = shift (lows part) cell := by
  induction clipped with
  | nil => exact fun _ => rfl
  | @cons offset width s c offsets widths start count part nonempty rest ih =>
    intro cell
    cases cell with
    | nil => rfl
    | cons i cell =>
      have head : s + (max offset s - s + i) = max offset s + i := by omega
      change (s + (max offset s - s + i)) :: shift start (shift (back start (lows part)) cell) = _
      rw [head, ih]
      rfl

/-- A cell of a part is the same coordinate seen from the chunk and from the origin. -/
theorem Clipped.back_offset (clipped : Clipped offset widths start count part) :
    ∀ cell : List Nat, back offset (shift (lows part) cell) = shift (back offset (lows part)) cell := by
  induction clipped with
  | nil => exact fun _ => rfl
  | @cons offset width s c offsets widths start count part nonempty rest ih =>
    intro cell
    cases cell with
    | nil => rfl
    | cons i cell =>
      have head : max offset s + i - offset = max offset s - offset + i := by omega
      change (max offset s + i - offset) :: back offsets (shift (lows part) cell) = _
      rw [head, ih]
      rfl

/-- The chunk of the grid that holds a coordinate is the only one. -/
theorem offset_unique : ∀ {first second coord : List Nat}, List.Forall₂ (· ∣ ·) widths first →
    List.Forall₂ (· ∣ ·) widths second → InBox first widths coord → InBox second widths coord →
    first = second := by
  induction widths with
  | nil =>
    intro first second coord one other _ _
    cases one
    cases other
    rfl
  | cons width widths ih =>
    intro first second coord one other inFirst inSecond
    cases one with
    | @cons _ o _ offsets divides aligned =>
      cases other with
      | @cons _ o' _ offsets' divides' aligned' =>
        match coord with
        | x :: coord =>
          obtain ⟨⟨low, high⟩, rest⟩ := inFirst
          obtain ⟨⟨low', high'⟩, rest'⟩ := inSecond
          have head (p : Nat) (whole : width ∣ p) (le : p ≤ x) (lt : x < p + width) : p =
            x / width * width := by
            obtain ⟨n, rfl⟩ := whole
            rw [Nat.div_eq_of_lt_le (k := n) (by rw [Nat.mul_comm]; exact le)
              (by rw [Nat.succ_mul, Nat.mul_comm]; exact lt), Nat.mul_comm]
          rw [head o divides low high, head o' divides' low' high', ih aligned aligned' rest rest']

end Coordinates

section Rows

variable {offset chunkDims : List Nat} {part : List (Nat × Nat)} {decoded : Bytes} {elementSize : Nat}

/-- The copy of a row of a chunk, in bytes. -/
def chunkRow (decoded : Bytes) (elementSize : Nat) (offset chunkDims : List Nat) (part : List (Nat × Nat))
    (slab : Hyperslab) (index : List Nat) : Write UInt8 where
  start := rowPlace slab part index * elementSize
  entries := slice decoded (rowSource offset chunkDims part index * elementSize) (rowLength part * elementSize)

/-- An entry of a row is an element of the chunk. -/
theorem row_source_cell (clipped : Clipped offset chunkDims slab.start slab.count part) (ranked : part ≠ [])
    {index : List Nat} (inside : Inside (rowBox part) index) {t : Nat} (within : t < rowLength part) :
    InBox offset chunkDims (shift (lows part) (index ++ [t])) ∧
      linear chunkDims (back offset (shift (lows part) (index ++ [t]))) =
        rowSource offset chunkDims part index + t := by
  refine ⟨clipped.inBox (row_inside ranked inside within), ?_⟩
  rw [clipped.back_offset, rowSource_eq clipped ranked inside]

theorem rowSource_lt (clipped : Clipped offset chunkDims slab.start slab.count part) (ranked : part ≠ [])
    {index : List Nat} (inside : Inside (rowBox part) index) {t : Nat} (within : t < rowLength part) :
    rowSource offset chunkDims part index + t < chunkDims.prod := by
  obtain ⟨box, place⟩ := row_source_cell clipped ranked inside within
  rw [← place]
  exact linear_lt box.inside_back

/-- A row in bytes ends inside the chunk and inside the output. -/
theorem row_bytes_le (clipped : Clipped offset chunkDims slab.start slab.count part) (ranked : part ≠ [])
    {index : List Nat} (inside : Inside (rowBox part) index) (elementSize : Nat) :
    rowSource offset chunkDims part index * elementSize + rowLength part * elementSize ≤
        chunkDims.prod * elementSize ∧
      rowPlace slab part index * elementSize + rowLength part * elementSize ≤
      slab.count.prod * elementSize := by
  have positive := (rowLength_pos clipped ranked).1
  have source := rowSource_lt clipped ranked inside (Nat.sub_one_lt_of_lt positive)
  have place := rowPlace_lt clipped ranked inside (Nat.sub_one_lt_of_lt positive)
  rw [← Nat.add_mul, ← Nat.add_mul]
  exact ⟨Nat.mul_le_mul_right _ (by omega), Nat.mul_le_mul_right _ (by omega)⟩

theorem chunkRow_length (clipped : Clipped offset chunkDims slab.start slab.count part) (ranked : part ≠ [])
    {index : List Nat} (inside : Inside (rowBox part) index)
    (long : chunkDims.prod * elementSize ≤ decoded.length) :
    (chunkRow decoded elementSize offset chunkDims part slab index).entries.length =
      rowLength part * elementSize := by
  have source := (row_bytes_le clipped ranked inside elementSize).1
  exact slice_length decoded (source.trans long)

/-- A row of a full chunk is copied as it is, where the sizes in bytes are words. -/
theorem rowWrite_eq (clipped : Clipped offset chunkDims slab.start slab.count part) (ranked : part ≠ [])
    {index : List Nat} (inside : Inside (rowBox part) index)
    (long : chunkDims.prod * elementSize ≤ decoded.length)
    (chunkWord : chunkDims.prod * elementSize < wordSize)
    (countWord : slab.count.prod * elementSize < wordSize) :
    rowWrite build decoded elementSize (rowSource offset chunkDims part index) (rowPlace slab part index)
      (rowLength part) = .ok (chunkRow decoded elementSize offset chunkDims part slab index) := by
  obtain ⟨source, place⟩ := row_bytes_le clipped ranked inside elementSize
  rw [rowWrite, Build.mul, Build.word_of_lt _ (by omega), Outcome.ok_bind, Build.mul,
    Build.word_of_lt _ (by omega), Outcome.ok_bind, Build.mul, Build.word_of_lt _ (by omega), Outcome.ok_bind,
    Build.add, Build.word_of_lt _ (by omega), Outcome.ok_bind, Build.add, Build.word_of_lt _ (by omega),
    Outcome.ok_bind, range_of_le decoded (source.trans long)]
  rfl

end Rows

/-- Chunks on a grid of positive widths, no two at one place. The products of the chunk shape are words. -/
structure Gridded (dataset : DatasetIndex) (chunks : List ChunkRecord) (chunkDims : List Nat) : Prop where
  ranked : 0 < dataset.shape.length
  rank : chunkDims.length = dataset.shape.length
  positive : ∀ width ∈ chunkDims, 0 < width
  aligned : ∀ record ∈ chunks, List.Forall₂ (· ∣ ·) chunkDims record.offset
  apart : (chunks.map ChunkRecord.offset).Nodup
  elements : chunkDims.prod < wordSize
  bytes : chunkDims.prod * dataset.elementSize < wordSize

/-- A selection whose products are words, and whose bytes fit in memory. -/
structure Selects (dataset : DatasetIndex) (slab : Hyperslab) : Prop where
  valid : slab.validate dataset.shape = .ok ()
  strides : ∀ stride ∈ RowMajor.strides slab.count, stride < wordSize
  elements : slab.count.prod < wordSize
  allocated : slab.count.prod * dataset.elementSize ≤ isizeMax

section Copies

variable {chunks : List ChunkRecord} {chunkDims : List Nat}

namespace Gridded

theorem offset_length (gridded : Gridded dataset chunks chunkDims) {record : ChunkRecord}
    (member : record ∈ chunks) :
    record.offset.length = dataset.shape.length :=
  (gridded.aligned record member).length_eq.symm.trans gridded.rank

/-- The chunk that holds a coordinate is the only one. -/
theorem unique (gridded : Gridded dataset chunks chunkDims) {first second : ChunkRecord} {coord : List Nat}
    (one : first ∈ chunks) (other : second ∈ chunks) (inFirst : InBox first.offset chunkDims coord)
    (inSecond : InBox second.offset chunkDims coord) : first = second :=
  List.inj_on_of_nodup_map gridded.apart one other
    (offset_unique (gridded.aligned first one) (gridded.aligned second other) inFirst inSecond)

theorem prod_pos (gridded : Gridded dataset chunks chunkDims) : 0 < chunkDims.prod :=
  List.prod_pos_iff_forall_pos_nat.mpr gridded.positive

end Gridded

namespace Selects

theorem bytes_lt (selects : Selects dataset slab) : slab.count.prod * dataset.elementSize < wordSize :=
  Nat.lt_of_le_of_lt selects.allocated isizeMax_lt_wordSize

theorem lengths (selects : Selects dataset slab) :
    slab.start.length = dataset.shape.length ∧ slab.count.length = dataset.shape.length :=
  (Hyperslab.within_of_validate selects.valid).1.lengths

theorem stops (selects : Selects dataset slab) : ∀ stop ∈ shift slab.start slab.count, stop < wordSize :=
  (Hyperslab.within_of_validate selects.valid).2

end Selects

/-- The rows that a decoded chunk is copied by. -/
def recordRows (image : ChunkRecord → Bytes) (chunkDims : List Nat) (slab : Hyperslab) (elementSize : Nat)
    (record : ChunkRecord) : List (Write UInt8) :=
  match clip record.offset chunkDims slab.start slab.count with
  | none => []
  | some part => (cells (rowBox part)).map (chunkRow (image record) elementSize record.offset chunkDims part slab)

variable {image : ChunkRecord → Bytes} {plain : ChunkRecord → Code Bytes}

theorem part_of_clip (gridded : Gridded dataset chunks chunkDims) (selects : Selects dataset slab)
    {record : ChunkRecord} (member : record ∈ chunks) {part : List (Nat × Nat)}
    (overlap : clip record.offset chunkDims slab.start slab.count = some part) :
    Clipped record.offset chunkDims slab.start slab.count part ∧ part ≠ [] := by
  obtain ⟨sameStart, sameCount⟩ := selects.lengths
  have offset := gridded.offset_length member
  have clipped := clip_eq_some (offset.trans sameCount.symm) (gridded.rank.trans sameCount.symm)
    (sameStart.trans sameCount.symm) overlap
  have long := clipped.lengths.1
  have ranked := gridded.ranked
  exact ⟨clipped, List.ne_nil_of_length_pos (by omega)⟩

/-- A row of a chunk fits the output, and a byte of it that belongs to a selected element is the byte of
that element in the chunk, which holds the element's coordinate. -/
theorem recordRows_spec (gridded : Gridded dataset chunks chunkDims) (selects : Selects dataset slab)
    {record : ChunkRecord} (member : record ∈ chunks)
    (long : chunkDims.prod * dataset.elementSize ≤ (image record).length) {write : Write UInt8}
    (row : write ∈ recordRows image chunkDims slab dataset.elementSize record) :
    write.Fits (slab.count.prod * dataset.elementSize) ∧
      ∀ cell, Inside slab.count cell → ∀ j < dataset.elementSize,
        write.Covers (linear slab.count cell * dataset.elementSize + j) →
          InBox record.offset chunkDims (shift slab.start cell) ∧
            write.entries[linear slab.count cell * dataset.elementSize + j - write.start]? =
              (image record)[linear chunkDims (back record.offset (shift slab.start cell)) *
                dataset.elementSize + j]? := by
  unfold recordRows at row
  split at row
  · cases row
  · next part overlap =>
    obtain ⟨clipped, ranked⟩ := part_of_clip gridded selects member overlap
    obtain ⟨index, listed, rfl⟩ := List.mem_map.mp row
    have inside := mem_cells.mp listed
    have width := chunkRow_length clipped ranked inside long
    refine ⟨?_, fun cell held j bound covers => ?_⟩
    · unfold Write.Fits
      rw [width]
      exact (row_bytes_le clipped ranked inside dataset.elementSize).2
    · obtain ⟨low, high⟩ := covers
      rw [width] at high
      change rowPlace slab part index * dataset.elementSize ≤ _ at low
      change _ < rowPlace slab part index * dataset.elementSize + _ at high
      -- The byte belongs to entry `t` of the row.
      have below : rowPlace slab part index ≤ linear slab.count cell := by
        by_contra above
        have gap := Nat.mul_le_mul_right dataset.elementSize (Nat.lt_of_not_le above)
        rw [Nat.succ_mul] at gap
        omega
      obtain ⟨t, place⟩ := Nat.exists_eq_add_of_le below
      have within : t < rowLength part := by
        by_contra beyond
        have gap := Nat.mul_le_mul_right dataset.elementSize (Nat.le_of_not_lt beyond)
        rw [place, Nat.add_mul] at high
        omega
      have same : shift (back slab.start (lows part)) (index ++ [t]) = cell := by
        apply linear_injective (clipped.inside_count (row_inside ranked inside within)) held
        rw [rowPlace_eq clipped ranked inside, place]
      have coord : shift slab.start cell = shift (lows part) (index ++ [t]) := by
        rw [← same, clipped.shift_start]
      obtain ⟨box, source⟩ := row_source_cell clipped ranked inside within
      rw [← coord] at box source
      refine ⟨box, ?_⟩
      have moved : linear slab.count cell * dataset.elementSize + j -
          rowPlace slab part index * dataset.elementSize = t * dataset.elementSize + j := by
        rw [place, Nat.add_mul]
        omega
      have last : (t + 1) * dataset.elementSize ≤ rowLength part * dataset.elementSize :=
        Nat.mul_le_mul_right _ within
      rw [Nat.succ_mul] at last
      change (slice (image record) _ _)[_ - rowPlace slab part index * dataset.elementSize]? = _
      rw [moved, getElem?_slice, if_pos (by omega), source, Nat.add_mul, Nat.add_assoc]

/-- The rows of a chunk reach each selected element whose coordinate the chunk holds. -/
theorem recordRows_reach (gridded : Gridded dataset chunks chunkDims) (selects : Selects dataset slab)
    {record : ChunkRecord} (member : record ∈ chunks)
    (long : chunkDims.prod * dataset.elementSize ≤ (image record).length) {cell : List Nat}
    (held : Inside slab.count cell) (box : InBox record.offset chunkDims (shift slab.start cell)) {j : Nat}
    (bound : j < dataset.elementSize) :
    ∃ write ∈ recordRows image chunkDims slab dataset.elementSize record,
      write.Covers (linear slab.count cell * dataset.elementSize + j) := by
  obtain ⟨sameStart, sameCount⟩ := selects.lengths
  have offset := gridded.offset_length member
  have overlaps := clip_isSome (offset.trans sameCount.symm) (gridded.rank.trans sameCount.symm)
    (sameStart.trans sameCount.symm) selects.stops held box
  obtain ⟨part, overlap⟩ := Option.isSome_iff_exists.mp overlaps
  obtain ⟨clipped, ranked⟩ := part_of_clip gridded selects member overlap
  obtain ⟨within, same⟩ := clipped.covers selects.stops held box
  obtain ⟨index, t, split, inside, inner⟩ := exists_row ranked within
  have place := rowPlace_eq clipped ranked inside t
  rw [← split, same] at place
  refine ⟨chunkRow (image record) dataset.elementSize record.offset chunkDims part slab index, ?_, ?_⟩
  · unfold recordRows
    rw [overlap]
    exact List.mem_map_of_mem (mem_cells.mpr inside)
  · have last : (t + 1) * dataset.elementSize ≤ rowLength part * dataset.elementSize :=
      Nat.mul_le_mul_right _ inner
    rw [Nat.succ_mul] at last
    unfold Write.Covers
    rw [chunkRow_length clipped ranked inside long, place, Nat.add_mul]
    change rowPlace slab part index * dataset.elementSize ≤ _ ∧
      _ < rowPlace slab part index * dataset.elementSize + rowLength part * dataset.elementSize
    omega

/-- Full chunks are copied row by row, one chunk after the other. -/
theorem copyPlain_eq (gridded : Gridded dataset chunks chunkDims) (selects : Selects dataset slab)
    {chunkStrides : List Nat} (weights : (build.words (RowMajor.strides chunkDims) : Code (List Nat)) =
      .ok chunkStrides)
    (records : List ChunkRecord) : ∀ {out : Bytes}, out.length = slab.count.prod * dataset.elementSize →
    (∀ record ∈ records, record ∈ chunks ∧ plain record = .ok (image record) ∧
      chunkDims.prod * dataset.elementSize ≤ (image record).length) →
    copyPlain build plain dataset (chunkDims.prod * dataset.elementSize) chunkDims chunkStrides
        (RowMajor.strides slab.count) slab records out =
      .ok (applyWrites out (records.flatMap (recordRows image chunkDims slab dataset.elementSize))) := by
  induction records with
  | nil => exact fun _ _ => rfl
  | cons record records ih =>
    intro out sized full
    obtain ⟨⟨member, decoded, long⟩, others⟩ := List.forall_mem_cons.mp full
    cases overlap : clip record.offset chunkDims slab.start slab.count with
    | none =>
      -- A chunk beside the selection has no rows to copy.
      have none_ : recordRows image chunkDims slab dataset.elementSize record = [] := by
        unfold recordRows
        rw [overlap]
      simp only [copyPlain, overlap]
      rw [ih sized others, List.flatMap_cons, none_, List.nil_append]
    | some part =>
      obtain ⟨clipped, ranked⟩ := part_of_clip gridded selects member overlap
      have rows : recordRows image chunkDims slab dataset.elementSize record =
          (cells (rowBox part)).map (chunkRow
            (image record) dataset.elementSize record.offset chunkDims part slab) := by
        unfold recordRows
        rw [overlap]
      have writes : chunkWrites build (image record) record.offset part chunkStrides
        (RowMajor.strides slab.count) slab
          dataset.elementSize = .ok ((recordRows image chunkDims slab dataset.elementSize record).map .ok) := by
        rw [chunkWrites_eq build clipped ranked selects.stops selects.elements weights, rows, List.map_map]
        congr 1
        apply List.map_congr_left
        intro index listed
        have inside := mem_cells.mp listed
        have source := rowSource_lt clipped ranked inside (rowLength_pos clipped ranked).1
        have words := gridded.elements
        rw [Build.word_of_lt _ (by omega), Outcome.ok_bind,
          rowWrite_eq clipped ranked inside long gridded.bytes selects.bytes_lt]
        rfl
      have fits : ∀ write ∈ recordRows image chunkDims slab dataset.elementSize record,
        write.Fits out.length := by
        rw [sized]
        exact fun write row => (recordRows_spec gridded selects member long row).1
      simp only [copyPlain, overlap]
      rw [decoded, Outcome.ok_bind, if_neg (Nat.not_lt.mpr long), writes, Outcome.ok_bind,
        storeEach_of_fits fits,
        Outcome.ok_bind, ih ((applyWrites_length fits).trans sized) others, List.flatMap_cons,
        applyWrites_append]

end Copies

section Denotation

variable {ctx : Ctx} {codecs : Codecs} {file : FileImage} {caches : Caches} {chunks : List ChunkRecord}
  {address : Option Nat} {chunkDims : List Nat} {width : Nat} {index : ChunkIndex} {paged : Bool}
  {plain : ChunkRecord → Code Bytes} {image : ChunkRecord → Bytes}

/-- What a chunked read reports: each selected element as its chunk decodes it, or as the fill value where no
chunk holds its coordinate, in native order. -/
structure Denotes (dataset : DatasetIndex) (chunks : List ChunkRecord) (chunkDims : List Nat)
    (plain : ChunkRecord → Code Bytes) (slab : Hyperslab) (raw : RawData) : Prop where
  shape : raw.shape = slab.count
  elementSize : raw.elementSize = dataset.elementSize
  length : raw.bytes.length = slab.count.prod * dataset.elementSize
  stored : ∀ record ∈ chunks, ∀ bytes, plain record = .ok bytes → ∀ cell, Inside slab.count cell →
    InBox record.offset chunkDims (shift slab.start cell) → ∀ j < dataset.elementSize,
      raw.bytes[linear slab.count cell * dataset.elementSize + j]? =
        bytes[linear chunkDims (back record.offset (shift slab.start cell)) * dataset.elementSize +
          nativeByte dataset j]?
  filled : ∀ cell, Inside slab.count cell →
    (∀ record ∈ chunks, ¬ InBox record.offset chunkDims (shift slab.start cell)) → ∀ j < dataset.elementSize,
      raw.bytes[linear slab.count cell * dataset.elementSize + j]? =
        (dataset.fillValue.element dataset.elementSize)[nativeByte dataset j]?

/-- Every chunk decodes to at least a full one. -/
def Full (dataset : DatasetIndex) (chunks : List ChunkRecord) (chunkDims : List Nat)
    (plain : ChunkRecord → Code Bytes) : Prop :=
  ∀ record ∈ chunks, ∃ bytes, plain record = .ok bytes ∧ chunkDims.prod * dataset.elementSize ≤ bytes.length

/-- The copies of the needed chunks, made over an output that was started. -/
def copied (dataset : DatasetIndex) (chunks : List ChunkRecord) (chunkDims : List Nat)
    (image : ChunkRecord → Bytes) (slab : Hyperslab) : Bytes :=
  applyWrites (startBuffer dataset (some chunks) slab
      (List.replicate (slab.count.prod * dataset.elementSize) 0) dataset.elementSize)
    ((chunks.filter fun record => intersects record.offset chunkDims slab.start slab.count).flatMap
      (recordRows image chunkDims slab dataset.elementSize))

theorem rows_of_copied (gridded : Gridded dataset chunks chunkDims) (selects : Selects dataset slab)
    (long : ∀ record ∈ chunks, chunkDims.prod * dataset.elementSize ≤ (image record).length)
    {write : Write UInt8} (row : write ∈ (chunks.filter fun record =>
      intersects record.offset chunkDims slab.start slab.count).flatMap
        (recordRows image chunkDims slab dataset.elementSize)) :
    ∃ record ∈ chunks, write ∈ recordRows image chunkDims slab dataset.elementSize record ∧
      write.Fits (startBuffer dataset (some chunks) slab
        (List.replicate (slab.count.prod * dataset.elementSize) 0) dataset.elementSize).length := by
  obtain ⟨record, among, inner⟩ := List.mem_flatMap.mp row
  have member := List.mem_of_mem_filter among
  refine ⟨record, member, inner, ?_⟩
  rw [startBuffer_length]
  exact (recordRows_spec gridded selects member (long record member) inner).1

theorem copied_length (gridded : Gridded dataset chunks chunkDims) (selects : Selects dataset slab)
    (long : ∀ record ∈ chunks, chunkDims.prod * dataset.elementSize ≤ (image record).length) :
    (copied dataset chunks chunkDims image slab).length = slab.count.prod * dataset.elementSize := by
  refine (applyWrites_length fun write row => ?_).trans (startBuffer_length _ _)
  obtain ⟨-, -, -, fits⟩ := rows_of_copied gridded selects long row
  exact fits

/-- Where a chunk holds the coordinate of a selected element, the element is copied from it. -/
theorem getElem?_copied_of_stored (gridded : Gridded dataset chunks chunkDims) (selects : Selects dataset slab)
    (long : ∀ record ∈ chunks, chunkDims.prod * dataset.elementSize ≤ (image record).length)
    {record : ChunkRecord} (member : record ∈ chunks) {cell : List Nat} (held : Inside slab.count cell)
    (box : InBox record.offset chunkDims (shift slab.start cell)) {j : Nat} (bound : j < dataset.elementSize) :
    (copied dataset chunks chunkDims image slab)[linear slab.count cell * dataset.elementSize + j]? =
      (image record)[linear chunkDims
      (back record.offset (shift slab.start cell)) * dataset.elementSize + j]? := by
  obtain ⟨sameStart, sameCount⟩ := selects.lengths
  have offset := gridded.offset_length member
  have needed : record ∈ chunks.filter fun record =>
      intersects record.offset chunkDims slab.start slab.count := by
    rw [List.mem_filter, intersects_eq]
    exact ⟨member, clip_isSome (offset.trans sameCount.symm) (gridded.rank.trans sameCount.symm)
      (sameStart.trans sameCount.symm) selects.stops held box⟩
  obtain ⟨write, row, covers⟩ := recordRows_reach gridded selects member (long record member) held box bound
  refine (getElem?_applyWrites _ _ (fun write row => ?_) fun other among reached => ?_).1
    ⟨write, List.mem_flatMap.mpr ⟨record, needed, row⟩, covers⟩
  · obtain ⟨-, -, -, fits⟩ := rows_of_copied gridded selects long row
    exact fits
  · obtain ⟨source, there, inner, -⟩ := rows_of_copied gridded selects long among
    obtain ⟨-, spec⟩ := recordRows_spec gridded selects there (long source there) inner
    obtain ⟨alsoBox, entry⟩ := spec cell held j bound reached
    obtain rfl := gridded.unique there member alsoBox box
    exact entry

/-- Where no chunk holds the coordinate of a selected element, the output was filled and stays so. -/
theorem getElem?_copied_of_missing (gridded : Gridded dataset chunks chunkDims) (selects : Selects dataset slab)
    (layout : dataset.layout = .chunked address chunkDims width index)
    (long : ∀ record ∈ chunks, chunkDims.prod * dataset.elementSize ≤ (image record).length)
    {cell : List Nat} (held : Inside slab.count cell)
    (missing : ∀ record ∈ chunks, ¬ InBox record.offset chunkDims (shift slab.start cell)) {j : Nat}
    (bound : j < dataset.elementSize) :
    (copied dataset chunks chunkDims image slab)[linear slab.count cell * dataset.elementSize + j]? =
      (dataset.fillValue.element dataset.elementSize)[j]? := by
  obtain ⟨sameStart, sameCount⟩ := selects.lengths
  have positive := Nat.mul_pos held.prod_pos (Nat.zero_lt_of_lt bound)
  have sized := sized_of_ok selects.valid
    (fits_of_allocated selects.allocated positive) selects.allocated positive
  have uncovered : selectionIsCovered dataset (some chunks) slab = false := by
    by_contra covered
    rw [Bool.not_eq_false] at covered
    unfold selectionIsCovered at covered
    simp only [layout] at covered
    split at covered
    · cases covered
    · obtain ⟨record, member, -, -, box⟩ := chunksCover_spec gridded.rank sameStart sameCount sized.counted
        (by simpa using covered) held
      exact missing record member box
  unfold copied
  rw [(getElem?_applyWrites _ none (fun write row => ?_) fun other among reached => ?_).2 fun other
    among reached => ?_,
    startBuffer, uncovered, Bool.not_false, if_pos rfl, getElem?_filled sized held bound]
  · obtain ⟨-, -, -, fits⟩ := rows_of_copied gridded selects long row
    exact fits
  all_goals
    obtain ⟨source, there, inner, -⟩ := rows_of_copied gridded selects long among
    obtain ⟨-, spec⟩ := recordRows_spec gridded selects there (long source there) inner
    exact absurd (spec cell held j bound reached).1 (missing source there)

theorem decodedChunkLen_eq (gridded : Gridded dataset chunks chunkDims) (what : String) :
    decodedChunkLen chunkDims dataset.elementSize what = .ok (chunkDims.prod * dataset.elementSize) := by
  rw [decodedChunkLen, elementCount_of_lt gridded.elements, checkedMul, if_pos gridded.bytes]
  rfl

theorem words_of_gridded (gridded : Gridded dataset chunks chunkDims) :
    (build.words (RowMajor.strides chunkDims) : Code (List Nat)) = .ok (RowMajor.strides chunkDims) :=
  Build.words_of_lt build fun stride member =>
    Nat.lt_of_le_of_lt (stride_le_prod gridded.prod_pos stride member) gridded.elements

/-- Nothing overflows before the first chunk is fetched. -/
theorem planned_of_gridded (gridded : Gridded dataset chunks chunkDims) (selects : Selects dataset slab) :
    ∃ needed, Planned build dataset chunks chunkDims slab (chunkDims.prod * dataset.elementSize)
      (RowMajor.strides slab.count) (RowMajor.strides chunkDims) needed := by
  obtain ⟨needed, touched⟩ : ∃ needed, neededChunks chunks chunkDims slab dataset.shape.length =
    .ok needed := by
    unfold neededChunks
    rw [if_neg (by simpa using fun record member => gridded.offset_length member)]
    exact ⟨_, rfl⟩
  refine ⟨needed, gridded.rank, ?_, decodedChunkLen_eq gridded dataset.path, ?_, touched⟩
  · rw [strides, stridesOf_eq]
    exact Build.words_of_lt build selects.strides
  · rw [strides, stridesOf_eq]
    exact words_of_gridded gridded

variable (serves : ctx.source.Serves file) (batches : ctx.source.ServesRanges file)
  (sizes : ∀ record ∈ chunks, record.size < 2 ^ 32) (gridded : Gridded dataset chunks chunkDims)
  (full : Full dataset chunks chunkDims (plainChunk build ctx codecs file dataset
    (chunkDims.prod * dataset.elementSize) paged))

include serves sizes gridded full

/-- A batch of chunks that all decode is fine, where the end of its read-ahead is a word. -/
theorem readAheadFine_of_full
    (reach : build = .debug → ∀ cache, caches.chunk = some cache → chunks.length + cache.readahead < wordSize) :
    ReadAheadFine build ctx codecs file dataset chunks chunkDims paged slab caches := by
  intro decodedLen dstStrides chunkStrides needed planned cache last here end_
  cases planned.decoded.symm.trans (decodedChunkLen_eq gridded dataset.path)
  constructor
  case reach =>
    intro debug
    have listed : last ∈ needed := List.mem_of_getLast? end_
    have small : last < chunks.length := by
      have touched := planned.needed
      unfold neededChunks at touched
      split at touched
      · cases touched
      · cases touched
        obtain ⟨indexed, among, rfl⟩ := List.mem_map.mp listed
        exact (List.getElem?_eq_some_iff.mp (List.mem_zipIdx_iff_getElem?.mp (List.mem_of_mem_filter among))).1
    have room := reach debug cache here
    omega
  case held =>
    intro record member
    obtain ⟨among, nonzero⟩ := mem_batch member
    obtain ⟨bytes, decoded, -⟩ := full record among
    obtain ⟨raw, read, -⟩ := Outcome.bind_eq_ok.mp decoded
    have small := sizes record among
    have room : (2 : Nat) ^ 32 ≤ isizeMax := by decide
    exact held_of_fetched serves (Nat.pos_of_ne_zero nonzero) (by omega) read
  case decodes =>
    intro record member
    obtain ⟨bytes, decoded, -⟩ := full record (mem_batch member).1
    rw [decoded]
    exact Outcome.not_panics_ok bytes

include batches

/-- A chunked read of a selection that fits in memory succeeds, and reports each element from the chunk that
holds it, or as the fill value. -/
theorem readHyperslab_denotes (selects : Selects dataset slab) (decodable : dataset.datatype.isDecodable = true)
    (layout : dataset.layout = .chunked address chunkDims width index) (resolved : dataset.chunks = some chunks)
    (sound : DatasetSound build ctx codecs file dataset chunks chunkDims paged caches)
    (reach : build = .debug → ∀ cache, caches.chunk = some cache → chunks.length + cache.readahead < wordSize) :
    ∃ raw after, readHyperslab build ctx codecs dataset slab caches = (.ok raw, after) ∧
      Denotes dataset chunks chunkDims (plainChunk build ctx codecs file dataset
        (chunkDims.prod * dataset.elementSize) paged) slab raw := by
  have ahead := @readAheadFine_of_full build dataset slab ctx codecs file caches chunks chunkDims
    paged serves sizes gridded full reach
  choose! image known using full
  have long : ∀ record ∈ chunks, chunkDims.prod * dataset.elementSize ≤ (image record).length :=
    fun record member => (known record member).2
  have fits : checkedMul slab.elementCount dataset.elementSize =
    some (slab.count.prod * dataset.elementSize) := by
    rw [Hyperslab.elementCount, elementCount_of_lt selects.elements, checkedMul, if_pos selects.bytes_lt]
  obtain ⟨needed, planned⟩ := @planned_of_gridded build dataset slab chunks chunkDims gridded selects
  have rows := @copyPlain_eq build dataset slab chunks chunkDims image (plainChunk build ctx codecs file dataset
    (chunkDims.prod * dataset.elementSize) paged) gridded selects _ (words_of_gridded gridded)
    (chunks.filter fun record => intersects record.offset chunkDims slab.start slab.count) _
    (@startBuffer_length dataset slab _ (some chunks) dataset.elementSize) fun record among =>
      ⟨List.mem_of_mem_filter among, known record (List.mem_of_mem_filter among)⟩
  rw [← (neededChunks_spec planned.needed).2] at rows
  obtain ⟨after, done⟩ := (readHyperslab_ok_iff serves batches sizes sound layout resolved selects.valid).mpr
    ⟨⟨decodable, _, _, _, _, _, needed, fits, selects.allocated, planned, rows, rfl⟩, ahead⟩
  rw [(neededChunks_spec planned.needed).2] at done
  have size := @copied_length dataset slab chunks chunkDims image gridded selects long
  have whole {cell : List Nat} (held : Inside slab.count cell) :
      (linear slab.count cell + 1) * dataset.elementSize ≤
        (copied dataset chunks chunkDims image slab).length := by
    rw [size]
    exact Nat.mul_le_mul_right _ (linear_lt held)
  refine ⟨_, after, done, rfl, rfl, (nativeOrder_length _).trans size, ?_, ?_⟩
  · intro record member bytes decoded cell held box j bound
    cases (known record member).1.symm.trans decoded
    exact (getElem?_nativeOrder (whole held) bound).trans
      (getElem?_copied_of_stored gridded selects long member held box (nativeByte_lt bound))
  · intro cell held missing j bound
    exact (getElem?_nativeOrder (whole held) bound).trans
      (getElem?_copied_of_missing gridded selects layout long held missing (nativeByte_lt bound))

end Denotation

theorem twoChunks_gridded : Gridded twoChunks [⟨2, 0, [0], 0⟩, ⟨2, 0, [2], 2⟩] [2] where
  ranked := by decide
  rank := rfl
  positive := by decide
  aligned := by decide
  apart := by decide
  elements := by decide
  bytes := by decide

theorem readHyperslab_denotes_twoChunks :
    ∃ raw after, readHyperslab .debug fourBytes .refusing twoChunks ⟨[1], [2]⟩ (coldChunks 1) =
      (.ok raw, after) ∧
      Denotes twoChunks [⟨2, 0, [0], 0⟩, ⟨2, 0, [2], 2⟩] [2]
        (plainChunk .debug fourBytes .refusing ⟨[1, 2, 3, 4], by decide⟩ twoChunks 2 false) ⟨[1], [2]⟩ raw := by
  refine readHyperslab_denotes (fileSource_serves _) (fileSource_servesRanges _)
    (by decide) twoChunks_gridded ?_ ⟨by decide, by decide, by decide, by decide⟩ rfl rfl rfl
    (fun _ _ => coldChunks_sound 1 _ (by unfold Distinct; decide)) ?_
  · rintro record (_ | ⟨_, _ | ⟨_, ⟨⟩⟩⟩)
    · exact ⟨[1, 2], rfl, by decide⟩
    · exact ⟨[3, 4], rfl, by decide⟩
  · rintro - cache same
    cases same
    decide

/-- A chunked dataset of which nothing was written. -/
def unwritten (shape chunkDims : List Nat) : DatasetIndex :=
  .ofBytes shape (.chunked (some 0) chunkDims 1 .btreeV1) (some [])

/-- Two chunks of four bytes at one address, of which the second was written without the shuffle. -/
def sharedAddress : DatasetIndex :=
  { DatasetIndex.ofBytes [8] (.chunked (some 0) [4] 1 .btreeV1) (some [⟨4, 0, [0], 0⟩, ⟨4, 1, [4], 0⟩]) with
    pipeline := ⟨[⟨Filters.shuffleId, "shuffle", 0, [2]⟩]⟩ }

/-- Selections whose product is a word, and that are not read: one that fits in no allocation, an empty one
whose strides overflow, and one of elements that cannot be decoded. And one that is read otherwise with a chunk
cache, which tells the chunks apart by their addresses. -/
theorem readHyperslab_denotes_nothing :
    (Hyperslab.validate ⟨[0], [2 ^ 63]⟩ [2 ^ 63] = .ok () ∧
      readHyperslab .release fourBytes .refusing (unwritten [2 ^ 63] [1]) ⟨[0], [2 ^ 63]⟩ ⟨none, none⟩ =
        (.panic .capacity, ⟨none, none⟩)) ∧
    (Hyperslab.validate ⟨[0, 0, 0], [0, 2 ^ 40, 2 ^ 40]⟩ [1, 2 ^ 40, 2 ^ 40] = .ok () ∧
      readHyperslab .debug fourBytes .refusing (unwritten [1, 2 ^ 40, 2 ^ 40] [1, 1, 1])
        ⟨[0, 0, 0], [0, 2 ^ 40, 2 ^ 40]⟩ ⟨none, none⟩ = (.panic .overflow, ⟨none, none⟩)) ∧
    (Hyperslab.validate ⟨[0], [1]⟩ [1] = .ok () ∧
      (readHyperslab .release fourBytes .refusing
        { unwritten [1] [1] with datatype := { version := 1, size := 1, class_ := .unsupported 2 } } ⟨[0], [1]⟩
          ⟨none, none⟩).1 = .error (.unsupported "datatype of dataset /v")) ∧
    (readHyperslab .debug fourBytes .refusing sharedAddress ⟨[0], [8]⟩ ⟨none, none⟩).1 =
        .ok ⟨[1, 3, 2, 4, 1, 2, 3, 4], 1, [8]⟩ ∧
      (readHyperslab .debug fourBytes .refusing sharedAddress ⟨[0], [8]⟩ (coldChunks 1)).1 =
        .ok ⟨[1, 2, 3, 4, 1, 2, 3, 4], 1, [8]⟩ := by
  refine ⟨⟨by decide +kernel, by rfl⟩, ⟨by decide +kernel, by rfl⟩, ⟨by decide +kernel, by rfl⟩, by rfl, by rfl⟩

end Oxcdf.Read
