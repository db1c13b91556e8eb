import Oxcdf.Foundation.Transpose
import Oxcdf.Read.Partition
import Oxcdf.Read.Reported

/-! What an unchecked build reads of a dense dataset.

It computes every address modulo the size of a word. A read that succeeds has
therefore found bytes at every wrapped address, and what it reports is stored at
the true addresses exactly when none of these is larger than a word.
-/

set_option autoImplicit false

namespace Oxcdf.Read

open Foundation Foundation.RowMajor Foundation.Buffer

section Rows

variable {ctx : Ctx} {file : FileImage} {caches : Caches} {elementSize width : Nat}

/-- Runs of one width, each behind the one before it in an output. -/
def Follow (elementSize width first : Nat) (runs : List ElementRun) : Prop :=
  ∀ k run, runs[k]? = some run → run.run = width ∧ run.dst * elementSize = first + k * (width * elementSize)

theorem Follow.tail {first : Nat} {run : ElementRun} {runs : List ElementRun}
    (follow : Follow elementSize width first (run :: runs)) :
    Follow elementSize width (first + width * elementSize) runs := by
  intro k next found
  obtain ⟨wide, place⟩ := follow (k + 1) next found
  rw [Nat.succ_mul] at place
  exact ⟨wide, by omega⟩

/-- The wrapped position of a run behind some address. -/
def wrapped (first elementSize : Nat) (run : ElementRun) : Nat := (first + run.src * elementSize) % wordSize

end Rows

section Selected

variable {slab : Hyperslab} {shape : List Nat}

/-- The row at an index of the outer axes. Its true start is put into a word. -/
def wordRow (slab : Hyperslab) (shape index : List Nat) : ElementRun where
  src := runSource slab shape index % wordSize
  dst := linear (outerBox slab shape) index * runLength slab shape
  run := runLength slab shape

theorem forEachRun_release {dataset : DatasetIndex} {total : Nat} (sized : Sized dataset slab total) :
    forEachRun .release dataset.shape slab =
      .ok (((cells (outerBox slab dataset.shape)).map (wordRow slab dataset.shape)).map .ok) := by
  rcases Nat.eq_zero_or_pos dataset.shape.length with scalar | ranked
  · have none := List.eq_nil_of_length_eq_zero scalar
    have count := List.eq_nil_of_length_eq_zero (sized.within.lengths.2.trans scalar)
    rw [forEachRun, if_pos scalar, none]
    simp [outerBox, leadAxis, growRun, cells, wordRow, runSource, runLength, linear, count]
  · rw [forEachRun_eq .release ranked sized.positive sized.small sized.within sized.stops,
      Build.words_release, Outcome.ok_bind, List.map_map]
    congr 1
    apply List.map_congr_left
    intro index _
    rw [Build.word_release, Outcome.ok_bind]
    rfl

theorem wordRows_follow (slab : Hyperslab) (shape : List Nat) (elementSize : Nat) :
    Follow elementSize (runLength slab shape) 0 ((cells (outerBox slab shape)).map (wordRow slab shape)) := by
  intro k run found
  rw [List.getElem?_map] at found
  obtain ⟨index, member, rfl⟩ := Option.map_eq_some_iff.mp found
  refine ⟨rfl, ?_⟩
  change linear (outerBox slab shape) index * runLength slab shape * elementSize = _
  rw [linear_getElem?_cells member, Nat.zero_add, Nat.mul_assoc]

/-- An entry of a row is a selected element. -/
theorem row_cell (within : Hyperslab.Within slab.start slab.count shape) {index : List Nat}
    (inside : Inside (outerBox slab shape) index) {i : Nat} (bound : i < runLength slab shape) :
    ∃ cell, Inside slab.count cell ∧
      linear slab.count cell = linear (outerBox slab shape) index * runLength slab shape + i ∧
      linear shape (shift slab.start cell) = runSource slab shape index + i := by
  rcases Nat.eq_zero_or_pos shape.length with scalar | ranked
  · have none := List.eq_nil_of_length_eq_zero scalar
    have start := List.eq_nil_of_length_eq_zero (within.lengths.1.trans scalar)
    have count := List.eq_nil_of_length_eq_zero (within.lengths.2.trans scalar)
    simp only [outerBox, runLength, runSource, count, List.take_nil, List.drop_nil, List.prod_nil]
      at inside bound ⊢
    obtain rfl : index = [] := List.eq_nil_of_length_eq_zero inside.length_eq
    obtain rfl : i = 0 := by omega
    exact ⟨[], by simp [none, start, linear, shift]⟩
  · obtain ⟨cell, held, place, source⟩ := run_cell within ranked inside bound
    exact ⟨cell, held, place, source.symm⟩

/-- Every selected element is an entry of a row. -/
theorem cell_row (within : Hyperslab.Within slab.start slab.count shape) {cell : List Nat}
    (inside : Inside slab.count cell) :
    ∃ k index i, (cells (outerBox slab shape))[k]? = some index ∧ i < runLength slab shape ∧
      linear slab.count cell = k * runLength slab shape + i ∧
      linear shape (shift slab.start cell) = runSource slab shape index + i := by
  have below := linear_lt inside
  rw [← outerBox_mul_runLength slab shape] at below
  have width : 0 < runLength slab shape := Nat.pos_of_mul_pos_left (Nat.zero_lt_of_lt below)
  have row : linear slab.count cell / runLength slab shape < (cells (outerBox slab shape)).length := by
    rw [cells_length]
    exact (Nat.div_lt_iff_lt_mul width).mpr below
  have found := List.getElem?_eq_getElem row
  have bound := Nat.mod_lt (linear slab.count cell) width
  obtain ⟨other, held, place, source⟩ := row_cell within (mem_cells.mp (List.mem_of_getElem? found)) bound
  rw [linear_getElem?_cells found, Nat.div_add_mod'] at place
  obtain rfl := linear_injective held inside place
  exact ⟨_, _, _, found, bound, (Nat.div_add_mod' _ _).symm, source⟩

end Selected

/-- Where the bytes of a dense dataset are: from one address on, in some content whose addresses count
from a base address. -/
structure Backing where
  first : Nat
  base : Nat
  content : Bytes

/-- What a dense dataset is read from. There is nothing of a contiguous one that was never written. -/
def backing (ctx : Ctx) (file : FileImage) : Layout → Option Backing
  | .compact data => some ⟨0, 0, data⟩
  | .contiguous (some address) _ => some ⟨address, ctx.baseAddress, file.bytes⟩
  | _ => none

namespace Backing

/-- The position in the content that a build of wrapping arithmetic finds a byte of the dataset at. -/
def place (backing : Backing) (offset : Nat) : Nat := wrappingAdd backing.base (backing.first + offset)

def byte (backing : Backing) (offset : Nat) : Option UInt8 := backing.content[backing.place offset]?

end Backing

section Stored

variable {ctx : Ctx} {codecs : Codecs} {file : FileImage} {caches : Caches} {dataset : DatasetIndex}
  {slab : Hyperslab} {total : Nat} {backing : Backing}

/-- The first byte of the row at an index of the outer axes, in the dataset. -/
def rowOffset (dataset : DatasetIndex) (slab : Hyperslab) (index : List Nat) : Nat :=
  runSource slab dataset.shape index * dataset.elementSize

def rowBytes (dataset : DatasetIndex) (slab : Hyperslab) : Nat :=
  runLength slab dataset.shape * dataset.elementSize

/-- The rows of a dense read, one after the other. -/
def rows (backing : Backing) (dataset : DatasetIndex) (slab : Hyperslab) : Bytes :=
  (cells (outerBox slab dataset.shape)).flatMap fun index =>
    slice backing.content (backing.place (rowOffset dataset slab index)) (rowBytes dataset slab)

theorem rows_total (sized : Sized dataset slab total) :
    total = ((cells (outerBox slab dataset.shape)).map (wordRow slab dataset.shape)).length *
      rowBytes dataset slab := by
  rw [List.length_map, cells_length, rowBytes, ← Nat.mul_assoc, outerBox_mul_runLength, sized.total_eq]

/-- The place of a byte of a selected element among the bytes of the dataset, as an exact number. -/
def trueOffset (dataset : DatasetIndex) (slab : Hyperslab) (cell : List Nat) (j : Nat) : Nat :=
  linear dataset.shape (shift slab.start cell) * dataset.elementSize + j

theorem cell_byte (sized : Sized dataset slab total) {cell : List Nat}
    (inside : Inside slab.count cell) {j : Nat} (bound : j < dataset.elementSize) :
    ∃ k index t, (cells (outerBox slab dataset.shape))[k]? = some index ∧ t < rowBytes dataset slab ∧
      linear slab.count cell * dataset.elementSize + j = k * rowBytes dataset slab + t ∧
      trueOffset dataset slab cell j = rowOffset dataset slab index + t := by
  obtain ⟨k, index, i, found, row, place, source⟩ := cell_row sized.within inside
  refine ⟨k, index, i * dataset.elementSize + j, found, Transpose.entry_lt row bound, ?_, ?_⟩
  · rw [place, rowBytes, Nat.add_mul, Nat.mul_assoc, Nat.add_assoc]
  · rw [trueOffset, rowOffset, source, Nat.add_mul, Nat.add_assoc]

theorem byte_cell (sized : Sized dataset slab total) {index : List Nat}
    (inside : Inside (outerBox slab dataset.shape) index) {t : Nat} (bound : t < rowBytes dataset slab) :
    ∃ cell j, Inside slab.count cell ∧ j < dataset.elementSize ∧
      trueOffset dataset slab cell j = rowOffset dataset slab index + t := by
  have row : t / dataset.elementSize < runLength slab dataset.shape :=
    (Nat.div_lt_iff_lt_mul sized.element).mpr bound
  obtain ⟨cell, held, -, source⟩ := row_cell sized.within inside row
  refine ⟨cell, t % dataset.elementSize, held, Nat.mod_lt _ sized.element, ?_⟩
  rw [trueOffset, rowOffset, source, Nat.add_mul, Nat.add_assoc, Nat.div_add_mod']

end Stored

section Dense

variable {ctx : Ctx} {codecs : Codecs} {file : FileImage} {caches : Caches} {dataset : DatasetIndex}
  {slab : Hyperslab} {total : Nat}

/-- A layout without chunks. Compact data is one allocation. -/
def Dense : Layout → Prop
  | .compact data => data.length ≤ isizeMax
  | .contiguous _ _ => True
  | .chunked .. => False

theorem Dense.resolvedIndex (dense : Dense dataset.layout) : resolvedIndex dataset = .ok none := by
  unfold Read.resolvedIndex
  cases layout : dataset.layout with
  | compact data => rfl
  | contiguous address size => rfl
  | chunked address chunkDims width index =>
    rw [layout] at dense
    exact dense.elim

theorem Dense.memory (dense : Dense dataset.layout) {backing : Backing}
    (backed : Read.backing ctx file dataset.layout = some backing) : backing.content.length ≤ isizeMax := by
  cases layout : dataset.layout with
  | compact data =>
    rw [layout] at dense backed
    cases backed
    exact dense
  | contiguous address size =>
    cases address with
    | none =>
      rw [layout] at backed
      cases backed
    | some address =>
      rw [layout] at backed
      cases backed
      exact file.bounded
  | chunked address chunkDims width index =>
    rw [layout] at dense
    exact dense.elim

/-- A selection that fits in memory and has a byte at a true address larger than a word, while bytes are
stored at the wrapped address of each. -/
structure Wraps (ctx : Ctx) (file : FileImage) (dataset : DatasetIndex) (slab : Hyperslab) : Prop where
  decodable : dataset.datatype.isDecodable = true
  allocated : slab.count.prod * dataset.elementSize ≤ isizeMax
  wrapped : ∃ backing, Read.backing ctx file dataset.layout = some backing ∧
    (∀ cell, Inside slab.count cell → ∀ j < dataset.elementSize,
      (backing.byte (trueOffset dataset slab cell j)).isSome) ∧
    ∃ cell j, Inside slab.count cell ∧ j < dataset.elementSize ∧
      wordSize ≤ backing.first + trueOffset dataset slab cell j

end Dense

end Oxcdf.Read
