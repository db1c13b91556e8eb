import Oxcdf.Cache.Transparent
import Oxcdf.Foundation.Overwrite
import Oxcdf.Read.Runs

/-! The runs of a selection take it apart, and a dense read puts each element of it at
its place. -/

set_option autoImplicit false

namespace Oxcdf.Read

open Foundation Foundation.RowMajor Foundation.Buffer

variable {build : Build} {slab : Hyperslab} {shape : List Nat}

/-- Runs that take a selection apart: the places they fill follow each other and are all
of the output, and each entry of a run is an element of the selection that moves from its
row-major index in the dataset to its row-major index in the selection. -/
structure Decomposes (shape : List Nat) (slab : Hyperslab) (runs : List ElementRun) : Prop where
  nonempty : ∀ run ∈ runs, 0 < run.run
  partition : runs.flatMap (fun run => List.range' run.dst run.run) = List.range slab.count.prod
  sources : ∀ run ∈ runs, ∀ i < run.run, ∃ cell, Inside slab.count cell ∧
    linear slab.count cell = run.dst + i ∧ run.src + i = linear shape (shift slab.start cell)

section Runs

theorem prod_le_of_within : ∀ {start count shape : List Nat}, Hyperslab.Within start count shape →
    count.prod ≤ shape.prod
  | [], [], [], _ => le_refl _
  | s :: _, c :: _, dim :: _, within => by
    rw [List.prod_cons, List.prod_cons]
    exact Nat.mul_le_mul (by have := within.1; omega) (prod_le_of_within within.2)

/-- A cell of a selection lies in the shape. -/
theorem inside_of_within : ∀ {start count shape cell : List Nat}, Hyperslab.Within start count shape →
    Inside count cell → Inside shape (shift start cell)
  | [], [], [], [], _, _ => trivial
  | s :: _, c :: _, dim :: _, i :: _, within, inside => by
    have bound : i < c := inside.1
    have fits := within.1
    exact ⟨(by omega : s + i < dim), inside_of_within within.2 inside.2⟩

theorem flatMap_range' (width count : Nat) :
    (List.range count).flatMap (fun k => List.range' (k * width) width) = List.range (count * width) := by
  induction count with
  | zero => simp
  | succ count ih =>
    rw [List.range_succ, List.flatMap_append, ih, List.flatMap_singleton, Nat.succ_mul, List.range_add,
      List.range'_eq_map_range]

/-- The first axis of a box does not weigh in the linear index. -/
theorem linear_congr_tail : ∀ {first second cell : List Nat}, first.length = second.length →
    first.tail = second.tail → linear first cell = linear second cell
  | [], [], _, _, _ => rfl
  | _ :: _, _ :: _, [], _, _ => rfl
  | _ :: first, _ :: second, i :: cell, _, same => by
    have tails : first = second := same
    rw [linear, linear, tails]

theorem tail_after_lead (within : Hyperslab.Within slab.start slab.count shape) :
    (shape.drop (leadAxis slab shape)).tail = (slab.count.drop (leadAxis slab shape)).tail := by
  obtain ⟨-, sameCount⟩ := within.lengths
  rw [List.tail_drop, List.tail_drop]
  apply List.ext_getElem?
  intro k
  rw [List.getElem?_drop, List.getElem?_drop]
  have same := (@full_after_lead slab shape within (leadAxis slab shape + 1 + k) (by omega)).2
  rw [List.getD_eq_getElem?_getD, List.getD_eq_getElem?_getD] at same
  rcases Nat.lt_or_ge (leadAxis slab shape + 1 + k) shape.length with bound | beyond
  · rw [List.getElem?_eq_getElem (by omega), List.getElem?_eq_getElem (by omega)] at same ⊢
    exact congrArg some same.symm
  · rw [List.getElem?_eq_none beyond, List.getElem?_eq_none (by omega)]

/-- Entry `i` of the run at an index of the outer axes is the element `i` further on. -/
theorem run_cell (within : Hyperslab.Within slab.start slab.count shape) (ranked : 0 < shape.length)
    {index : List Nat} (inside : Inside (outerBox slab shape) index) {i : Nat}
    (bound : i < runLength slab shape) :
    ∃ cell, Inside slab.count cell ∧
      linear slab.count cell = linear (outerBox slab shape) index * runLength slab shape + i ∧
      runSource slab shape index + i = linear shape (shift slab.start cell) := by
  obtain ⟨sameStart, sameCount⟩ := within.lengths
  have lead : leadAxis slab shape < shape.length := leadAxis_lt ranked
  have long : index.length = leadAxis slab shape := by
    rw [inside.length_eq, outerBox, List.length_take]
    omega
  let inner := slab.count.drop (leadAxis slab shape)
  have parts : outerBox slab shape ++ inner = slab.count := List.take_append_drop _ _
  -- The run goes through the cells of the inner axes in row-major order.
  have found : i < (cells inner).length := by
    rw [cells_length]
    exact bound
  have rest := List.getElem?_eq_getElem found
  have place := linear_getElem?_cells rest
  have within_ : Inside inner (cells inner)[i] := mem_cells.mp (List.getElem_mem found)
  refine ⟨index ++ (cells inner)[i], ?_, ?_, ?_⟩
  · rw [← parts]
    exact inside.append within_
  · rw [← parts, linear_append inner _ inside.length_eq, place]
    rfl
  · have axes : linear (shape.drop index.length) (cells inner)[i] = i := by
      rw [long]
      apply Eq.trans _ place
      apply linear_congr_tail _ (tail_after_lead within)
      rw [List.length_drop, List.length_drop, sameCount]
    have size : (index ++ (cells inner)[i]).length = shape.length := by
      rw [List.length_append, within_.length_eq, List.length_drop]
      omega
    rw [linear_shift shape (by rw [size, sameStart]), linear_append_dot _ (by omega), axes, runSource,
      Nat.add_assoc]

/-- Every valid selection is taken apart, and no step of it overflows. -/
theorem forEachRun_decomposes (valid : slab.validate shape = .ok ()) (small : shape.prod < wordSize) :
    ∃ runs, forEachRun build shape slab = .ok (runs.map .ok) ∧ Decomposes shape slab runs := by
  obtain ⟨within, stops⟩ := Hyperslab.within_of_validate valid
  have bound := prod_le_of_within within
  rcases Nat.eq_zero_or_pos shape.length with scalar | ranked
  · -- A scalar is one run of one element.
    have none := List.eq_nil_of_length_eq_zero scalar
    have start := List.eq_nil_of_length_eq_zero (within.lengths.1.trans scalar)
    have count := List.eq_nil_of_length_eq_zero (within.lengths.2.trans scalar)
    refine ⟨[⟨0, 0, 1⟩], by rw [forEachRun, if_pos scalar]; rfl, by simp, by rw [count]; rfl, ?_⟩
    intro run member i inside
    rw [List.mem_singleton.mp member] at inside ⊢
    have zero : i = 0 := Nat.lt_one_iff.mp inside
    exact ⟨[], by rw [count]; trivial, by rw [count, zero]; rfl, by rw [none, start, zero]; rfl⟩
  · rcases Nat.eq_zero_or_pos slab.count.prod with empty | positive
    · refine ⟨[], ?_, nofun, by rw [empty]; rfl, nofun⟩
      rw [forEachRun, if_neg (by omega), Hyperslab.elementCount, elementCount_of_lt (by omega), if_pos empty]
      rfl
    · have runPos : 0 < runLength slab shape :=
        Nat.pos_of_mul_pos_left ((outerBox_mul_runLength slab shape).symm ▸ positive)
      have inShape := fun index member => stride_le_prod (Nat.lt_of_lt_of_le positive bound) index member
      refine ⟨(cells (outerBox slab shape)).map fun index =>
        ⟨runSource slab shape index, linear (outerBox slab shape) index * runLength slab shape,
          runLength slab shape⟩, ?_, ?_, ?_, ?_⟩
      · rw [forEachRun_eq build ranked positive (by omega) within stops,
          Build.words_of_lt build (fun stride member => Nat.lt_of_le_of_lt (inShape stride member) small),
          Outcome.ok_bind, List.map_map]
        congr 1
        apply List.map_congr_left
        intro index member
        have inside := mem_cells.mp member
        obtain ⟨cell, held, -, source⟩ := run_cell within ranked inside runPos
        have below := linear_lt (inside_of_within within held)
        rw [Build.word_of_lt build (by omega), Outcome.ok_bind]
        rfl
      · intro run member
        obtain ⟨index, -, rfl⟩ := List.mem_map.mp member
        exact runPos
      · have linears := map_linear_cells (outerBox slab shape)
        have joined := flatMap_range' (runLength slab shape) (outerBox slab shape).prod
        rw [← linears, List.flatMap_map, outerBox_mul_runLength] at joined
        rw [List.flatMap_map]
        exact joined
      · intro run member i inside
        obtain ⟨index, there, rfl⟩ := List.mem_map.mp member
        exact run_cell within ranked (mem_cells.mp there) inside

end Runs

section Copies

/-- The copy of a run, in bytes. -/
def runWrite (data : Bytes) (elementSize : Nat) (run : ElementRun) : Write UInt8 :=
  ⟨run.dst * elementSize, slice data (run.src * elementSize) (run.run * elementSize)⟩

/-- Every selected element is at its place in the output. -/
def Places (data out : Bytes) (shape : List Nat) (slab : Hyperslab) (elementSize : Nat) : Prop :=
  out.length = slab.count.prod * elementSize ∧
    ∀ cell, Inside slab.count cell →
      slice out (linear slab.count cell * elementSize) elementSize =
        slice data (linear shape (shift slab.start cell) * elementSize) elementSize

variable {data out : Bytes} {elementSize : Nat} {runs : List ElementRun}

namespace Decomposes

theorem run_le (parts : Decomposes shape slab runs) (within : Hyperslab.Within slab.start slab.count shape)
    {run : ElementRun} (member : run ∈ runs) :
    run.src + run.run ≤ shape.prod ∧ run.dst + run.run ≤ slab.count.prod := by
  have some_ := parts.nonempty run member
  obtain ⟨cell, inside, place, source⟩ := parts.sources run member (run.run - 1) (by omega)
  have from_ := linear_lt (inside_of_within within inside)
  have into := linear_lt inside
  omega

theorem bytes_le (parts : Decomposes shape slab runs)
    (within : Hyperslab.Within slab.start slab.count shape) {run : ElementRun} (member : run ∈ runs)
    (elementSize : Nat) :
    run.src * elementSize + run.run * elementSize ≤ shape.prod * elementSize ∧
      run.dst * elementSize + run.run * elementSize ≤ slab.count.prod * elementSize := by
  obtain ⟨from_, into⟩ := parts.run_le within member
  rw [← Nat.add_mul, ← Nat.add_mul]
  exact ⟨Nat.mul_le_mul_right _ from_, Nat.mul_le_mul_right _ into⟩

/-- What the runs write is the selection. -/
theorem places (parts : Decomposes shape slab runs)
    (within : Hyperslab.Within slab.start slab.count shape)
    (long : data.length = shape.prod * elementSize) (sized : out.length = slab.count.prod * elementSize) :
    (∀ write ∈ runs.map (runWrite data elementSize), write.Fits out.length) ∧
      Places data (applyWrites out (runs.map (runWrite data elementSize))) shape slab elementSize := by
  have width (run : ElementRun) (member : run ∈ runs) :
      (runWrite data elementSize run).entries.length = run.run * elementSize := by
    have fits := parts.bytes_le within member elementSize
    exact slice_length data (by omega)
  have fits : ∀ write ∈ runs.map (runWrite data elementSize), write.Fits out.length := by
    intro write member
    obtain ⟨run, there, rfl⟩ := List.mem_map.mp member
    have bound := (parts.bytes_le within there elementSize).2
    unfold Write.Fits
    rw [width run there, sized]
    exact bound
  refine ⟨fits, (applyWrites_length fits).trans sized, fun cell inside => ?_⟩
  -- Byte for byte: the run that holds the cell writes it, and nothing else writes there.
  apply List.ext_getElem?
  intro b
  rw [getElem?_slice, getElem?_slice]
  split
  · next inElement =>
    have unique (run : ElementRun) (member : run ∈ runs)
        (covers : (runWrite data elementSize run).Covers (linear slab.count cell * elementSize + b)) :
        (runWrite data elementSize run).entries[linear slab.count cell * elementSize + b -
          (runWrite data elementSize run).start]? =
            data[linear shape (shift slab.start cell) * elementSize + b]? := by
      obtain ⟨low, high⟩ := covers
      rw [width run member] at high
      change run.dst * elementSize ≤ _ at low
      change _ < run.dst * elementSize + run.run * elementSize at high
      have below : run.dst ≤ linear slab.count cell := by
        by_contra above
        have gap := Nat.mul_le_mul_right elementSize (Nat.lt_of_not_le above)
        rw [Nat.succ_mul] at gap
        omega
      have above : linear slab.count cell < run.dst + run.run := by
        by_contra beyond
        have gap := Nat.mul_le_mul_right elementSize (Nat.le_of_not_lt beyond)
        rw [Nat.add_mul] at gap
        omega
      obtain ⟨i, place⟩ := Nat.exists_eq_add_of_le below
      obtain ⟨other, held, same, source⟩ := parts.sources run member i (by omega)
      obtain rfl := linear_injective held inside (by omega)
      have moved : (run.dst + i) * elementSize + b - run.dst * elementSize = i * elementSize + b := by
        rw [Nat.add_mul]
        omega
      have last : (i + 1) * elementSize ≤ run.run * elementSize := Nat.mul_le_mul_right _ (by omega)
      rw [Nat.succ_mul] at last
      change (slice data _ _)[_ - run.dst * elementSize]? = _
      rw [place, moved, getElem?_slice, if_pos (by omega), ← source, Nat.add_mul, Nat.add_assoc]
    have reached : ∃ write ∈ runs.map (runWrite data elementSize),
        write.Covers (linear slab.count cell * elementSize + b) := by
      have counted : linear slab.count cell ∈ List.range slab.count.prod :=
        List.mem_range.mpr (linear_lt inside)
      rw [← parts.partition] at counted
      obtain ⟨run, member, there⟩ := List.mem_flatMap.mp counted
      obtain ⟨low, high⟩ := List.mem_range'_1.mp there
      refine ⟨_, List.mem_map.mpr ⟨run, member, rfl⟩, ?_⟩
      have first := Nat.mul_le_mul_right elementSize low
      have last := Nat.mul_le_mul_right elementSize (Nat.succ_le_of_lt high)
      rw [Nat.succ_mul, Nat.add_mul] at last
      unfold Write.Covers
      rw [width run member]
      change run.dst * elementSize ≤ _ ∧ _ < run.dst * elementSize + run.run * elementSize
      omega
    apply (getElem?_applyWrites _ _ fits ?_).1 reached
    intro write member covers
    obtain ⟨run, there, rfl⟩ := List.mem_map.mp member
    exact unique run there covers
  · rfl

end Decomposes

theorem mul_word {n m bound : Nat} (below : n * m ≤ bound) (small : bound ≤ isizeMax) :
    (build.mul n m : Code Nat) = .ok (n * m) :=
  Build.word_of_lt build (Nat.lt_of_le_of_lt (below.trans small) isizeMax_lt_wordSize)

theorem add_word {n m bound : Nat} (below : n + m ≤ bound) (small : bound ≤ isizeMax) :
    (build.add n m : Code Nat) = .ok (n + m) :=
  Build.word_of_lt build (Nat.lt_of_le_of_lt (below.trans small) isizeMax_lt_wordSize)

theorem count_bytes_le (within : Hyperslab.Within slab.start slab.count shape) (elementSize : Nat) :
    slab.count.prod * elementSize ≤ shape.prod * elementSize :=
  Nat.mul_le_mul_right _ (prod_le_of_within within)

theorem denseWrite_eq (parts : Decomposes shape slab runs)
    (within : Hyperslab.Within slab.start slab.count shape) (long : data.length = shape.prod * elementSize)
    (small : data.length ≤ isizeMax) {run : ElementRun} (member : run ∈ runs) :
    denseWrite build data elementSize run = .ok (runWrite data elementSize run) := by
  obtain ⟨from_, into⟩ := parts.bytes_le within member elementSize
  have whole := count_bytes_le within elementSize
  rw [long] at small
  rw [denseWrite, mul_word (by omega) small, Outcome.ok_bind, mul_word (by omega) small, Outcome.ok_bind,
    mul_word (by omega) small, Outcome.ok_bind, add_word from_ small, Outcome.ok_bind, if_neg (by omega),
    add_word (into.trans whole) small, Outcome.ok_bind, range_of_le data (by omega)]
  rfl

/-- A compact read is the writes of the runs. -/
theorem copyFromDense_eq (found : forEachRun build shape slab = .ok (runs.map .ok))
    (parts : Decomposes shape slab runs) (within : Hyperslab.Within slab.start slab.count shape)
    (long : data.length = shape.prod * elementSize) (small : data.length ≤ isizeMax)
    (sized : out.length = slab.count.prod * elementSize) :
    copyFromDense build out data shape slab elementSize =
      .ok (applyWrites out (runs.map (runWrite data elementSize))) := by
  have writes : (runs.map Outcome.ok).map (fun next : Code ElementRun =>
      next >>= denseWrite build data elementSize) = (runs.map (runWrite data elementSize)).map .ok := by
    rw [List.map_map, List.map_map]
    apply List.map_congr_left
    intro run member
    exact denseWrite_eq parts within long small member
  rw [copyFromDense, found, Outcome.ok_bind, writes, storeEach_of_fits (parts.places within long sized).1]

end Copies

section Contiguous

variable {ctx : Ctx} {file : FileImage} {caches : Caches} {elementSize : Nat}

/-- The pages that are held, if there is a page cache, are the file's. -/
def PagesSound (file : FileImage) (caches : Caches) : Prop :=
  ∀ cache, caches.io = some cache → cache.Sound file

/-- A read of bytes that the file has, through the page cache or without one. -/
theorem read_of_held (serves : ctx.source.Serves file) (sound : PagesSound file caches) {address len : Nat}
    (held : file.Holds (ctx.resolve address) len) :
    ∃ after, ctx.read address len caches = (.ok (file.part (ctx.resolve address) len), after) ∧
      PagesSound file after := by
  unfold Ctx.read Caches.throughIo
  cases cached : caches.io with
  | none => exact ⟨caches, by simp only [serves.readVec _ _ held], sound⟩
  | some cache =>
    obtain ⟨returned, kept, -⟩ := IoCache.read_eq serves (sound cache cached) (ctx.resolve address) len
    rw [IoCache.outcome_of_held (.inr held)] at returned
    refine ⟨{ caches with io := some (IoCache.read ctx.source (ctx.resolve address) len cache).2 }, ?_, ?_⟩
    · simp only [returned]
    · intro later same
      cases same
      exact kept

def stored (file : FileImage) (ctx : Ctx) (address total : Nat) : Bytes :=
  file.part (ctx.baseAddress + address) total

theorem readRuns_eq (serves : ctx.source.Serves file) {address : Nat}
    (held : file.Holds (ctx.baseAddress + address) (shape.prod * elementSize))
    (within : Hyperslab.Within slab.start slab.count shape) {all : List ElementRun}
    (parts : Decomposes shape slab all) (runs : List ElementRun) : ∀ {out : Bytes} {caches : Caches},
    (∀ run ∈ runs, run ∈ all) → PagesSound file caches → out.length = slab.count.prod * elementSize →
      ∃ after, readRuns build ctx address elementSize (runs.map .ok) out caches =
          (.ok (applyWrites out (runs.map (runWrite
            (stored file ctx address (shape.prod * elementSize)) elementSize))), after) ∧
        PagesSound file after := by
  induction runs with
  | nil => exact fun {_ caches} _ sound _ => ⟨caches, rfl, sound⟩
  | cons run runs ih =>
    intro out caches among sound sized
    obtain ⟨from_, into⟩ := parts.bytes_le within (among run List.mem_cons_self) elementSize
    have whole := count_bytes_le within elementSize
    have small := held.le_isizeMax
    have bounded := file.bounded
    have inFile : ctx.baseAddress + address + shape.prod * elementSize ≤ file.bytes.length := held
    have range : runRange build address elementSize run =
        .ok (address + run.src * elementSize, run.run * elementSize) := by
      rw [runRange, mul_word (by omega) small, Outcome.ok_bind, mul_word (by omega) small, Outcome.ok_bind,
        add_word (by omega) bounded]
      rfl
    have place : ctx.resolve (address + run.src * elementSize) =
        ctx.baseAddress + address + run.src * elementSize := by
      rw [Ctx.resolve, wrappingAdd_of_lt, Nat.add_assoc]
      have words := isizeMax_lt_wordSize
      omega
    have there : file.Holds (ctx.resolve (address + run.src * elementSize)) (run.run * elementSize) := by
      rw [place]
      unfold FileImage.Holds FileImage.size
      omega
    obtain ⟨middle, answered, kept⟩ := read_of_held serves sound there
    -- What is read is the part of the stored array that the run names.
    have bytes : file.part (ctx.resolve (address + run.src * elementSize)) (run.run * elementSize) =
        slice (stored file ctx address (shape.prod * elementSize)) (run.src * elementSize)
          (run.run * elementSize) := by
      rw [place, stored, FileImage.part, FileImage.part, slice, slice, slice, List.drop_take, List.take_take,
        List.drop_drop, Nat.min_eq_left (by omega)]
    have width := FileImage.part_length there
    rw [bytes] at answered width
    have copied : placeRun build elementSize run (run.run * elementSize)
        (slice (stored file ctx address (shape.prod * elementSize)) (run.src * elementSize)
          (run.run * elementSize)) out =
        .ok (splice out (run.dst * elementSize) (slice (stored file ctx address (shape.prod * elementSize))
          (run.src * elementSize) (run.run * elementSize))) := by
      rw [placeRun, mul_word (by omega) small, Outcome.ok_bind, add_word (into.trans whole) small,
        Outcome.ok_bind, copyInto, if_pos ⟨by omega, by omega, by omega⟩]
    have long := @splice_length _ out (run.dst * elementSize) (slice (stored file ctx address
      (shape.prod * elementSize)) (run.src * elementSize) (run.run * elementSize)) (by omega)
    obtain ⟨after, done, sound'⟩ :=
      ih (fun later member => among later (List.mem_cons_of_mem run member)) kept (long.trans sized)
    refine ⟨after, ?_, sound'⟩
    rw [List.map_cons, readRuns, Session.bind_lift_ok, range, Session.bind_lift_ok]
    simp only
    rw [Session.bind_ok answered, copied, Session.bind_lift_ok, done]
    rfl

end Contiguous

/-- The runs of a valid selection take it apart. So a read of a dataset whose bytes are in
memory, or one after the other in the file, puts every selected element at its place,
with one write for each run. -/
theorem forEachRun_partition (valid : slab.validate shape = .ok ()) (small : shape.prod < wordSize) :
    ∃ runs, forEachRun build shape slab = .ok (runs.map .ok) ∧ Decomposes shape slab runs ∧
      (∀ (data out : Bytes) (elementSize : Nat), data.length = shape.prod * elementSize →
        data.length ≤ isizeMax → out.length = slab.count.prod * elementSize →
          copyFromDense build out data shape slab elementSize =
            .ok (applyWrites out (runs.map (runWrite data elementSize))) ∧
          Places data (applyWrites out (runs.map (runWrite data elementSize))) shape slab elementSize) ∧
      ∀ (file : FileImage) (ctx : Ctx) (caches : Caches) (address : Nat) (out : Bytes) (elementSize : Nat),
        ctx.source.Serves file → PagesSound file caches →
        file.Holds (ctx.baseAddress + address) (shape.prod * elementSize) →
        out.length = slab.count.prod * elementSize →
          ∃ result after,
            readContiguous build ctx address out shape slab elementSize caches = (.ok result, after) ∧
            PagesSound file after ∧
            result = applyWrites out (runs.map
              (runWrite (stored file ctx address (shape.prod * elementSize)) elementSize)) ∧
            Places (stored file ctx address (shape.prod * elementSize)) result shape slab elementSize := by
  obtain ⟨within, -⟩ := Hyperslab.within_of_validate valid
  obtain ⟨runs, found, parts⟩ := @forEachRun_decomposes build slab shape valid small
  refine ⟨runs, found, parts, ?_, ?_⟩
  · intro data out elementSize long allocated sized
    exact ⟨copyFromDense_eq found parts within long allocated sized, (parts.places within long sized).2⟩
  · intro file ctx caches address out elementSize serves sound held sized
    obtain ⟨after, done, kept⟩ :=
      @readRuns_eq build slab shape ctx file elementSize serves address held within runs parts runs out caches
        (fun _ member => member) sound sized
    have long : (stored file ctx address (shape.prod * elementSize)).length = shape.prod * elementSize :=
      FileImage.part_length held
    refine ⟨_, after, ?_, kept, rfl, (parts.places within long sized).2⟩
    rw [readContiguous, found, Session.bind_lift_ok, done]

theorem forEachRun_partition_rows :
    ∃ runs, forEachRun .debug [3, 4] ⟨[1, 1], [2, 2]⟩ = .ok (runs.map .ok) ∧
      Decomposes [3, 4] ⟨[1, 1], [2, 2]⟩ runs := by
  obtain ⟨runs, found, parts, -⟩ :=
    @forEachRun_partition .debug ⟨[1, 1], [2, 2]⟩ [3, 4] (by decide) (by decide)
  exact ⟨runs, found, parts⟩

end Oxcdf.Read
