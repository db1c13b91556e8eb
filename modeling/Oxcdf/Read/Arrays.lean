import Oxcdf.Filters.RoundTrip
import Oxcdf.Foundation.Layout
import Oxcdf.Read.Denoted
import Oxcdf.Read.Plain
import Oxcdf.Read.Wrapped

/-! What a read is for: a dataset holds an array, and a selection of it is read.

The array is a function of the coordinate. A file holds it when each chunk was written
through the filters with the elements of its cells, in whatever order and at whatever
addresses, and where no chunk was written the array has the fill value.
-/

set_option autoImplicit false

namespace Oxcdf

open Foundation Foundation.RowMajor Foundation.Buffer

/-- An array of elements of one width, in the byte order in which they are stored. -/
structure ElementArray (width : Nat) where
  element : List Nat → Bytes
  uniform : ∀ coord, (element coord).length = width

def ElementArray.box {width : Nat} (array : ElementArray width) (start count : List Nat) : Bytes :=
  layOut (fun cell => array.element (shift start cell)) count

theorem ElementArray.box_length {width : Nat} (array : ElementArray width) (start count : List Nat) :
    (array.box start count).length = count.prod * width :=
  layOut_length fun cell => array.uniform (shift start cell)

namespace Read

variable {build : Build} {ctx : Ctx} {codecs : Codecs} {file : FileImage} {dataset : DatasetIndex}
  {chunks : List ChunkRecord} {chunkDims : List Nat} {slab : Hyperslab}

/-- What a reader should get: the selected elements of an array, in native order. -/
def selected (dataset : DatasetIndex) (array : ElementArray dataset.elementSize) (slab : Hyperslab) : RawData where
  bytes := nativeOrder dataset (array.box slab.start slab.count) dataset.elementSize
  elementSize := dataset.elementSize
  shape := slab.count

/-- The chunks of a dataset as they were written, from an array. -/
structure WrittenChunks (ctx : Ctx) (codecs : Codecs) (file : FileImage) (dataset : DatasetIndex)
    (chunks : List ChunkRecord) (chunkDims : List Nat) (array : ElementArray dataset.elementSize) : Prop where
  gridded : Gridded dataset chunks chunkDims
  memory : chunkDims.prod * dataset.elementSize ≤ isizeMax
  few : dataset.pipeline.filters.length ≤ 32
  held : ∀ record ∈ chunks, file.Holds (ctx.resolve record.address) record.size
  written : ∀ record ∈ chunks, Filters.Written codecs record.filterMask 0 dataset.pipeline.filters
    (array.box record.offset chunkDims) (file.part (ctx.resolve record.address) record.size)
  missing : ∀ coord, Inside dataset.shape coord → (∀ record ∈ chunks, ¬ InBox record.offset chunkDims coord) →
    array.element coord = dataset.fillValue.element dataset.elementSize

section Chunked

/-- An entry of a written chunk is the element at its coordinate. -/
theorem getElem?_chunk {width : Nat} (array : ElementArray width) {offset coord : List Nat}
    (box : InBox offset chunkDims coord) {j : Nat} (bound : j < width) :
    (array.box offset chunkDims)[linear chunkDims (back offset coord) * width + j]? = (array.element coord)[j]? := by
  rw [ElementArray.box, getElem?_layOut (fun cell => array.uniform _) box.inside_back bound, box.shift_back]

variable {array : ElementArray dataset.elementSize} {paged : Bool}
  (stored : WrittenChunks ctx codecs file dataset chunks chunkDims array)

include stored

theorem plainChunk_written (serves : ctx.source.Serves file) {record : ChunkRecord} (member : record ∈ chunks) :
    plainChunk build ctx codecs file dataset (chunkDims.prod * dataset.elementSize) paged record =
      .ok (array.box record.offset chunkDims) := by
  obtain ⟨undone, -⟩ := @Filters.decodeEach_written build codecs record.filterMask
    (chunkDims.prod * dataset.elementSize) _ _ _ _ (stored.written record member) (by simpa using stored.few)
  rw [plainChunk, fetched_of_held serves (stored.held record member), Outcome.ok_bind]
  exact undone fun _ => stored.memory

/-- Whatever the order of the chunks, the copies of those that are needed make up the selection. -/
theorem copied_written (selects : Selects dataset slab) {address : Option Nat} {width : Nat} {index : ChunkIndex}
    (layout : dataset.layout = .chunked address chunkDims width index) :
    copied dataset chunks chunkDims (fun record => array.box record.offset chunkDims) slab =
      array.box slab.start slab.count := by
  have long : ∀ record ∈ chunks, chunkDims.prod * dataset.elementSize ≤
      (array.box record.offset chunkDims).length := fun record _ => (array.box_length _ _).ge
  refine eq_layOut (fun cell => array.uniform _) (copied_length stored.gridded selects long) ?_
  intro cell inside j bound
  by_cases covered : ∃ record ∈ chunks, InBox record.offset chunkDims (shift slab.start cell)
  · obtain ⟨record, member, box⟩ := covered
    rw [getElem?_copied_of_stored stored.gridded selects long member inside box bound]
    exact getElem?_chunk array box bound
  · have uncovered : ∀ record ∈ chunks, ¬ InBox record.offset chunkDims (shift slab.start cell) :=
      fun record member box => covered ⟨record, member, box⟩
    have within := inside_of_within (Hyperslab.within_of_validate selects.valid).1 inside
    rw [getElem?_copied_of_missing stored.gridded selects layout long inside uncovered bound,
      stored.missing _ within uncovered]

theorem plainChunked_written (selects : Selects dataset slab) {plain : ChunkRecord → Code Bytes}
    (decodes : ∀ record ∈ chunks, plain record = .ok (array.box record.offset chunkDims)) {address : Option Nat} {width : Nat} {index : ChunkIndex}
    (layout : dataset.layout = .chunked address chunkDims width index) :
    plainChunked build plain dataset chunks chunkDims
        (startBuffer dataset (some chunks) slab (List.replicate (slab.count.prod * dataset.elementSize) 0)
          dataset.elementSize) slab =
      .ok (array.box slab.start slab.count) := by
  obtain ⟨needed, planned⟩ := @planned_of_gridded build dataset slab chunks chunkDims stored.gridded selects
  have rows := @copyPlain_eq build dataset slab chunks chunkDims (fun record => array.box record.offset chunkDims)
    plain stored.gridded selects _ (words_of_gridded stored.gridded)
    (chunks.filter fun record => intersects record.offset chunkDims slab.start slab.count) _
    (@startBuffer_length dataset slab _ (some chunks) dataset.elementSize) fun record among => by
      have member := List.mem_of_mem_filter among
      exact ⟨member, decodes record member, (array.box_length _ _).ge⟩
  rw [← (neededChunks_spec planned.needed).2] at rows
  simp only [plainChunked, planned.rank, planned.places, planned.decoded, planned.weights, planned.needed,
    Outcome.ok_bind, ne_eq, not_true_eq_false, if_false]
  rw [rows, (neededChunks_spec planned.needed).2]
  exact congrArg Outcome.ok (copied_written stored selects layout)

end Chunked

section Dense

variable {elementSize width : Nat}

/-- Nothing of a row overflows: it ends in some content, and its address is a word. -/
structure RowFits (address elementSize width : Nat) (content : Bytes) (run : ElementRun) : Prop where
  inside : run.src * elementSize + width * elementSize ≤ content.length
  word : address + run.src * elementSize < wordSize

/-- A row that fills the front of what is left of an output. -/
theorem placeRun_next {front rest bytes : Bytes} {run : ElementRun} (place : run.dst * elementSize = front.length)
    (wide : bytes.length ≤ rest.length) (room : front.length + rest.length ≤ isizeMax) :
    placeRun build elementSize run bytes.length bytes (front ++ rest) =
      .ok ((front ++ bytes) ++ rest.drop bytes.length) := by
  have words := isizeMax_lt_wordSize
  rw [placeRun, Build.mul, place, Build.word_of_lt _ (by omega), Outcome.ok_bind, Build.add,
    Build.word_of_lt _ (by omega), Outcome.ok_bind, copyInto,
    if_pos ⟨by omega, by rw [List.length_append]; omega, by omega⟩, splice, List.take_left,
    List.drop_length_add_append]

/-- Rows that follow each other are copied one after the other. -/
theorem plainRuns_rows {fetch : Nat → Nat → Code Bytes} {address : Nat} {content : Bytes}
    (fetches : ∀ skip len, skip + len ≤ content.length → fetch (address + skip) len = .ok (slice content skip len))
    {runs : List ElementRun} : ∀ {front rest : Bytes}, (∀ run ∈ runs, RowFits address elementSize width content run) →
    Follow elementSize width front.length runs → rest.length = runs.length * (width * elementSize) →
    front.length + rest.length ≤ isizeMax →
    plainRuns build fetch address elementSize (runs.map .ok) (front ++ rest) =
      .ok (front ++ runs.flatMap fun run => slice content (run.src * elementSize) (width * elementSize)) := by
  induction runs with
  | nil =>
    intro front rest _ _ long _
    obtain rfl : rest = [] := List.length_eq_zero_iff.mp (by simpa using long)
    simp [plainRuns]
  | cons run runs ih =>
    intro front rest fits follow long room
    have words := isizeMax_lt_wordSize
    obtain ⟨here, others⟩ := List.forall_mem_cons.mp fits
    obtain ⟨wide, place⟩ := follow 0 run rfl
    rw [Nat.zero_mul, Nat.add_zero] at place
    rw [List.length_cons, Nat.succ_mul] at long
    have row := slice_length content here.inside
    have address_ := here.word
    have ranged : runRange build address elementSize run =
        .ok (address + run.src * elementSize, width * elementSize) := by
      rw [runRange, Build.mul, wide, Build.word_of_lt _ (by omega), Outcome.ok_bind, Build.mul,
        Build.word_of_lt _ (by omega), Outcome.ok_bind, Build.add, Build.word_of_lt _ here.word, Outcome.ok_bind]
    have placed := @placeRun_next build elementSize front rest
      (slice content (run.src * elementSize) (width * elementSize)) run place (by omega) room
    rw [row] at placed
    have later := @ih (front ++ slice content (run.src * elementSize) (width * elementSize))
      (rest.drop (width * elementSize)) others (by rw [List.length_append, row]; exact follow.tail)
      (by rw [List.length_drop]; omega) (by rw [List.length_append, List.length_drop]; omega)
    simp only [List.map_cons, plainRuns, Outcome.ok_bind, ranged, fetches _ _ here.inside, placed]
    rw [later, List.flatMap_cons, List.append_assoc]

/-- The same of rows that are copied out of data in memory. -/
theorem copyRows_rows {content : Bytes} (memory : content.length ≤ isizeMax) {runs : List ElementRun} :
    ∀ {front rest : Bytes}, (∀ run ∈ runs, RowFits 0 elementSize width content run) →
    Follow elementSize width front.length runs → rest.length = runs.length * (width * elementSize) →
    front.length + rest.length ≤ isizeMax →
    storeEach ((runs.map .ok).map fun next : Code ElementRun => next >>= denseWrite build content elementSize)
        (front ++ rest) =
      .ok (front ++ runs.flatMap fun run => slice content (run.src * elementSize) (width * elementSize)) := by
  induction runs with
  | nil =>
    intro front rest _ _ long _
    obtain rfl : rest = [] := List.length_eq_zero_iff.mp (by simpa using long)
    simp [storeEach]
  | cons run runs ih =>
    intro front rest fits follow long room
    have words := isizeMax_lt_wordSize
    obtain ⟨here, others⟩ := List.forall_mem_cons.mp fits
    obtain ⟨wide, place⟩ := follow 0 run rfl
    rw [Nat.zero_mul, Nat.add_zero] at place
    rw [List.length_cons, Nat.succ_mul] at long
    have inside := here.inside
    have row := slice_length content inside
    have written : denseWrite build content elementSize run =
        .ok ⟨front.length, slice content (run.src * elementSize) (width * elementSize)⟩ := by
      simp only [denseWrite, Build.mul, Build.add, wide, place]
      rw [Build.word_of_lt _ (by omega), Outcome.ok_bind, Build.word_of_lt _ (by omega), Outcome.ok_bind,
        Build.word_of_lt _ (by omega), Outcome.ok_bind, Build.word_of_lt _ (by omega), Outcome.ok_bind,
        if_neg (by omega), Build.word_of_lt _ (by omega), Outcome.ok_bind, range_of_le content inside]
      rfl
    have fits : Write.Fits ⟨front.length, slice content (run.src * elementSize) (width * elementSize)⟩
        (front ++ rest).length := by
      unfold Write.Fits
      rw [List.length_append]
      dsimp only
      omega
    have spliced : splice (front ++ rest) front.length
        (slice content (run.src * elementSize) (width * elementSize)) =
        (front ++ slice content (run.src * elementSize) (width * elementSize)) ++
          rest.drop (width * elementSize) := by
      rw [splice, List.take_left, List.drop_length_add_append, row]
    have later := @ih (front ++ slice content (run.src * elementSize) (width * elementSize))
      (rest.drop (width * elementSize)) others (by rw [List.length_append, row]; exact follow.tail)
      (by rw [List.length_drop]; omega) (by rw [List.length_append, List.length_drop]; omega)
    rw [List.map_cons, List.map_cons, storeEach, Outcome.ok_bind, written, Outcome.ok_bind, store_of_fits fits,
      Outcome.ok_bind]
    dsimp only
    rw [spliced, later, List.flatMap_cons, List.append_assoc]

section Rows

variable {total : Nat} (sized : Sized dataset slab total)

include sized

theorem row_le {index : List Nat} (inside : Inside (outerBox slab dataset.shape) index) :
    runSource slab dataset.shape index + runLength slab dataset.shape ≤ dataset.shape.prod := by
  have positive : 0 < runLength slab dataset.shape :=
    Nat.pos_of_mul_pos_left ((outerBox_mul_runLength slab dataset.shape).symm ▸ sized.positive)
  obtain ⟨cell, held, -, last⟩ := row_cell sized.within inside (Nat.sub_lt positive Nat.one_pos)
  have below := linear_lt (inside_of_within sized.within held)
  omega

/-- Where the elements of a dataset can be counted, no row wraps. -/
theorem forEachRun_words (small : dataset.shape.prod < wordSize) :
    forEachRun build dataset.shape slab =
      .ok (((cells (outerBox slab dataset.shape)).map (wordRow slab dataset.shape)).map .ok) := by
  rcases Nat.eq_zero_or_pos dataset.shape.length with scalar | ranked
  · rw [← forEachRun_release sized, forEachRun, forEachRun, if_pos scalar, if_pos scalar]
  · have positive := Nat.lt_of_lt_of_le sized.positive (prod_le_of_within sized.within)
    have weights : (build.words (RowMajor.strides dataset.shape) : Code (List Nat)) =
        .ok (RowMajor.strides dataset.shape) :=
      Build.words_of_lt build fun stride member => Nat.lt_of_le_of_lt (stride_le_prod positive stride member) small
    rw [forEachRun_eq build ranked sized.positive sized.small sized.within sized.stops, weights, Outcome.ok_bind,
      List.map_map]
    congr 1
    apply List.map_congr_left
    intro index member
    have row := row_le sized (mem_cells.mp member)
    have source : runSource slab dataset.shape index < wordSize := by omega
    rw [Build.word_of_lt _ source, Outcome.ok_bind]
    simp [wordRow, Nat.mod_eq_of_lt source]

theorem rows_written (array : ElementArray dataset.elementSize) :
    (cells (outerBox slab dataset.shape)).flatMap (fun index => slice (layOut array.element dataset.shape)
        (runSource slab dataset.shape index * dataset.elementSize)
        (runLength slab dataset.shape * dataset.elementSize)) =
      array.box slab.start slab.count := by
  have long : (layOut array.element dataset.shape).length = dataset.shape.prod * dataset.elementSize :=
    layOut_length array.uniform
  have row (index : List Nat) (member : index ∈ cells (outerBox slab dataset.shape)) :
      (slice (layOut array.element dataset.shape) (runSource slab dataset.shape index * dataset.elementSize)
        (runLength slab dataset.shape * dataset.elementSize)).length =
          runLength slab dataset.shape * dataset.elementSize := by
    refine slice_length _ ?_
    rw [long, ← Nat.add_mul]
    exact Nat.mul_le_mul_right _ (row_le sized (mem_cells.mp member))
  refine eq_layOut (fun cell => array.uniform _) ?_ ?_
  · rw [length_flatMap_block row, cells_length, ← Nat.mul_assoc, outerBox_mul_runLength]
  · intro cell inside j bound
    obtain ⟨k, index, t, found, within, place, same⟩ := cell_byte sized inside bound
    unfold trueOffset rowOffset at same
    unfold rowBytes at within place
    rw [place, getElem?_flatMap_block row within, found, Option.bind_some, getElem?_slice,
      if_pos within, ← same, getElem?_layOut array.uniform (inside_of_within sized.within inside) bound]

end Rows

/-- The data of a dataset without chunks, as it was written from an array. -/
structure WrittenDense (dataset : DatasetIndex) (array : ElementArray dataset.elementSize) (content : Bytes) :
    Prop where
  positive : 0 < dataset.elementSize
  memory : content.length ≤ isizeMax
  written : content = layOut array.element dataset.shape

theorem WrittenDense.rowFits {array : ElementArray dataset.elementSize} {content : Bytes} {total address : Nat}
    (stored : WrittenDense dataset array content) (sized : Sized dataset slab total)
    (room : address + content.length < wordSize) :
    ∀ run ∈ (cells (outerBox slab dataset.shape)).map (wordRow slab dataset.shape),
      RowFits address dataset.elementSize (runLength slab dataset.shape) content run := by
  have long : content.length = dataset.shape.prod * dataset.elementSize :=
    stored.written ▸ layOut_length array.uniform
  rintro _ among
  obtain ⟨index, member, rfl⟩ := List.mem_map.mp among
  have row := Nat.mul_le_mul_right dataset.elementSize (row_le sized (mem_cells.mp member))
  have words := isizeMax_lt_wordSize
  have bound := Nat.le_mul_of_pos_right (runSource slab dataset.shape index) stored.positive
  rw [Nat.add_mul, ← long] at row
  have memory := stored.memory
  have source : (wordRow slab dataset.shape index).src = runSource slab dataset.shape index :=
    Nat.mod_eq_of_lt (by omega)
  constructor
  · rw [source]
    exact row
  · rw [source]
    omega

/-- Nothing is copied for a selection without elements. -/
theorem forEachRun_nothing (valid : slab.validate dataset.shape = .ok ()) (none_ : slab.count.prod = 0) :
    forEachRun build dataset.shape slab = .ok [] := by
  have counted : slab.elementCount = 0 := by
    rw [Hyperslab.elementCount, elementCount_of_lt (none_ ▸ wordSize_pos), none_]
  rcases Nat.eq_zero_or_pos dataset.shape.length with scalar | ranked
  · have empty := List.eq_nil_of_length_eq_zero ((Hyperslab.within_of_validate valid).1.lengths.2.trans scalar)
    simp [empty] at none_
  · rw [forEachRun, if_neg ranked.ne', if_pos counted]

theorem box_nothing {width : Nat} (array : ElementArray width) (none_ : slab.count.prod = 0) {out : Bytes}
    (sized : out.length = slab.count.prod * width) : array.box slab.start slab.count = out := by
  have long := array.box_length slab.start slab.count
  rw [none_, Nat.zero_mul] at long sized
  rw [List.eq_nil_of_length_eq_zero long, List.eq_nil_of_length_eq_zero sized]

/-- What there is to know of a selection with elements, of data that was written. -/
structure Copies (dataset : DatasetIndex) (slab : Hyperslab) (array : ElementArray dataset.elementSize)
    (content : Bytes) : Prop where
  sized : Sized dataset slab (slab.count.prod * dataset.elementSize)
  walked : ∀ build : Build, forEachRun build dataset.shape slab =
    .ok (((cells (outerBox slab dataset.shape)).map (wordRow slab dataset.shape)).map .ok)
  rows : ((cells (outerBox slab dataset.shape)).map (wordRow slab dataset.shape)).flatMap (fun run =>
    slice content (run.src * dataset.elementSize) (runLength slab dataset.shape * dataset.elementSize)) =
      array.box slab.start slab.count

theorem WrittenDense.copies {array : ElementArray dataset.elementSize} {content : Bytes}
    (stored : WrittenDense dataset array content) (selects : Selects dataset slab)
    (positive : 0 < slab.count.prod) : Copies dataset slab array content := by
  have bytes := Nat.mul_pos positive stored.positive
  have found := sized_of_ok selects.valid (fits_of_allocated selects.allocated bytes) selects.allocated bytes
  have words := isizeMax_lt_wordSize
  have memory := stored.memory
  have long : content.length = dataset.shape.prod * dataset.elementSize :=
    stored.written ▸ layOut_length array.uniform
  have counted := Nat.le_mul_of_pos_right dataset.shape.prod stored.positive
  refine ⟨found, fun build => forEachRun_words found (by omega), ?_⟩
  rw [List.flatMap_map, ← rows_written found array, ← stored.written]
  refine List.flatMap_congr fun index member => ?_
  have row := row_le found (mem_cells.mp member)
  rw [wordRow, Nat.mod_eq_of_lt (by omega)]

/-- A read of data in memory copies the selected elements. -/
theorem copyFromDense_written {array : ElementArray dataset.elementSize} {content out : Bytes}
    (stored : WrittenDense dataset array content) (selects : Selects dataset slab)
    (sized : out.length = slab.count.prod * dataset.elementSize) :
    copyFromDense build out content dataset.shape slab dataset.elementSize =
      .ok (array.box slab.start slab.count) := by
  have allocated := selects.allocated
  rcases Nat.eq_zero_or_pos slab.count.prod with none_ | positive
  · rw [copyFromDense, forEachRun_nothing selects.valid none_, box_nothing array none_ sized]
    rfl
  · obtain ⟨found, walked, rows⟩ := stored.copies selects positive
    have words := isizeMax_lt_wordSize
    have memory := stored.memory
    have copied := @copyRows_rows build dataset.elementSize (runLength slab dataset.shape) content memory _ [] out
      (stored.rowFits found (by omega)) (wordRows_follow slab dataset.shape dataset.elementSize)
      (sized.trans (rows_total found)) (by rw [List.length_nil]; omega)
    rw [rows, List.nil_append, List.nil_append] at copied
    rw [copyFromDense, walked, Outcome.ok_bind, copied]

/-- A read of data in the file copies the selected elements. -/
theorem plainRuns_written {array : ElementArray dataset.elementSize} {content out : Bytes} {address : Nat}
    {fetch : Nat → Nat → Code Bytes}
    (fetches : ∀ skip len, skip + len ≤ content.length → fetch (address + skip) len = .ok (slice content skip len))
    (stored : WrittenDense dataset array content) (room : address + content.length < wordSize)
    (selects : Selects dataset slab) (sized : out.length = slab.count.prod * dataset.elementSize) :
    (forEachRun build dataset.shape slab >>= fun runs =>
        plainRuns build fetch address dataset.elementSize runs out) = .ok (array.box slab.start slab.count) := by
  have allocated := selects.allocated
  rcases Nat.eq_zero_or_pos slab.count.prod with none_ | positive
  · rw [forEachRun_nothing selects.valid none_, box_nothing array none_ sized]
    rfl
  · obtain ⟨found, walked, rows⟩ := stored.copies selects positive
    have copied := @plainRuns_rows build dataset.elementSize (runLength slab dataset.shape) fetch address content
      fetches _ [] out (stored.rowFits found room) (wordRows_follow slab dataset.shape dataset.elementSize)
      (sized.trans (rows_total found)) (by rw [List.length_nil]; omega)
    rw [rows, List.nil_append, List.nil_append] at copied
    rw [walked, Outcome.ok_bind, copied]

/-- A read of data that was never written gives the fill value. -/
theorem fill_written {array : ElementArray dataset.elementSize}
    (fill : ∀ coord, Inside dataset.shape coord →
      array.element coord = dataset.fillValue.element dataset.elementSize) (selects : Selects dataset slab) :
    dataset.fillValue.fill (List.replicate (slab.count.prod * dataset.elementSize) 0) dataset.elementSize =
      array.box slab.start slab.count := by
  refine eq_layOut (fun cell => array.uniform _) (by simp [FillValue.fill_length]) ?_
  intro cell inside j bound
  have bytes := Nat.mul_pos inside.prod_pos (Nat.zero_lt_of_lt bound)
  have found := sized_of_ok selects.valid (fits_of_allocated selects.allocated bytes) selects.allocated bytes
  rw [getElem?_filled found inside bound, fill _ (inside_of_within found.within inside)]

end Dense

section Whole

/-- How a file holds an array as a dataset, given what its chunk index resolves to. -/
def Written (ctx : Ctx) (codecs : Codecs) (file : FileImage) (dataset : DatasetIndex)
    (resolved : Code (Option (List ChunkRecord))) (array : ElementArray dataset.elementSize) : Prop :=
  match dataset.layout with
  | .compact data => WrittenDense dataset array data
  | .contiguous none _ =>
    ∀ coord, Inside dataset.shape coord → array.element coord = dataset.fillValue.element dataset.elementSize
  | .contiguous (some address) _ =>
    file.Holds (ctx.baseAddress + address) (dataset.shape.prod * dataset.elementSize) ∧
      WrittenDense dataset array
        (file.part (ctx.baseAddress + address) (dataset.shape.prod * dataset.elementSize))
  | .chunked _ chunkDims _ _ =>
    ∃ chunks, resolved = .ok (some chunks) ∧ WrittenChunks ctx codecs file dataset chunks chunkDims array

variable {resolved : Code (Option (List ChunkRecord))} {array : ElementArray dataset.elementSize} {paged : Bool}

/-- An array that was written is read back: every selection of it, for every layout. -/
theorem plainHyperslab_written (serves : ctx.source.Serves file)
    (written : Written ctx codecs file dataset resolved array) (decodable : dataset.datatype.isDecodable = true)
    (selects : Selects dataset slab) :
    plainHyperslab build (fetched ctx file paged) (decodedChunk build dataset ctx codecs file paged) dataset
      resolved slab = .ok (selected dataset array slab) := by
  have fits : checkedMul slab.elementCount dataset.elementSize =
      some (slab.count.prod * dataset.elementSize) := by
    rw [Hyperslab.elementCount, elementCount_of_lt selects.elements, checkedMul, if_pos selects.bytes_lt]
  have stored : ∃ chunks, plainIndex dataset resolved = .ok chunks ∧
      plainStored build (fetched ctx file paged) (decodedChunk build dataset ctx codecs file paged) dataset chunks
        slab (startBuffer dataset chunks slab (List.replicate (slab.count.prod * dataset.elementSize) 0)
          dataset.elementSize) = .ok (array.box slab.start slab.count) := by
    have sized (chunks : Option (List ChunkRecord)) := @startBuffer_length dataset slab
      (slab.count.prod * dataset.elementSize) chunks dataset.elementSize
    unfold plainIndex plainStored
    unfold Written at written
    cases layout : dataset.layout with
    | compact data =>
      rw [layout] at written
      exact ⟨none, rfl, copyFromDense_written written selects (sized none)⟩
    | contiguous address size =>
      rw [layout] at written
      cases address with
      | none =>
        refine ⟨none, rfl, congrArg Outcome.ok ?_⟩
        rw [← fill_written written selects, startBuffer, selectionIsCovered]
        simp [layout]
      | some address =>
        obtain ⟨held, dense⟩ := written
        have inFile := held
        have words := file.size_lt
        have long := FileImage.part_length held
        unfold FileImage.Holds at inFile
        refine ⟨none, rfl, plainRuns_written (fun skip len inside => ?_) dense (by omega) selects (sized none)⟩
        have place : ctx.resolve (address + skip) = ctx.baseAddress + address + skip := by
          rw [Ctx.resolve, wrappingAdd, ← Nat.add_assoc, Nat.mod_eq_of_lt (by omega)]
        have part : file.Holds (ctx.resolve (address + skip)) len := by
          rw [place]
          unfold FileImage.Holds
          omega
        rw [fetched_of_held serves part, place, FileImage.part, FileImage.part, Paging.slice_slice _ (by omega)]
    | chunked address chunkDims width index =>
      rw [layout] at written
      obtain ⟨chunks, rfl, chunked⟩ := written
      refine ⟨some chunks, rfl, plainChunked_written chunked selects (fun record member => ?_) layout⟩
      simp only [decodedChunk, layout, decodedChunkLen_eq chunked.gridded, Outcome.ok_bind]
      exact plainChunk_written chunked serves member
  obtain ⟨chunks, indexed, copied⟩ := stored
  simp only [plainHyperslab, selects.valid, decodable, fits, Outcome.ok_bind, Bool.not_true, Bool.false_eq_true,
    if_false, Outcome.ofOption_some, indexed, zeroed_of_le selects.allocated, copied]
  rfl

end Whole

end Read

end Oxcdf
