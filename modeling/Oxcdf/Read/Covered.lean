import Oxcdf.Dataset.Fill
import Oxcdf.Foundation.Overwrite
import Oxcdf.Read.Grid

/-! Skipping the fill of a covered selection.

Where the stored data is said to cover a selection, the copies that follow write
every byte of the output, so what the output started from cannot be seen.
-/

set_option autoImplicit false

namespace Oxcdf.Read

open Foundation Foundation.RowMajor Foundation.Buffer

variable (build : Build)

section Sizes

/-- What is known of a selection once it passed validation and its output was
allocated, and the output is not empty. -/
structure Sized (dataset : DatasetIndex) (slab : Hyperslab) (total : Nat) : Prop where
  within : Hyperslab.Within slab.start slab.count dataset.shape
  stops : ∀ stop ∈ shift slab.start slab.count, stop < wordSize
  positive : 0 < slab.count.prod
  element : 0 < dataset.elementSize
  total_eq : total = slab.count.prod * dataset.elementSize
  allocated : total ≤ isizeMax

variable {dataset : DatasetIndex} {slab : Hyperslab} {total : Nat}

theorem sized_of_ok (valid : slab.validate dataset.shape = .ok ())
    (fits : checkedMul slab.elementCount dataset.elementSize = some total)
    (allocated : total ≤ isizeMax) (nonempty : 0 < total) : Sized dataset slab total := by
  obtain ⟨within, stops⟩ := Hyperslab.within_of_validate valid
  obtain ⟨product, _⟩ := checkedMul_eq_some fits
  have element : 0 < dataset.elementSize := Nat.pos_of_mul_pos_left (product ▸ nonempty)
  have counted : 0 < slab.elementCount := Nat.pos_of_mul_pos_right (product ▸ nonempty)
  have bound : slab.elementCount ≤ isizeMax :=
    (Nat.le_mul_of_pos_right _ element).trans (product ▸ allocated)
  have exact_ : slab.elementCount = slab.count.prod := by
    have clamped := elementCount_eq slab.count
    rw [← Hyperslab.elementCount] at clamped
    have := isizeMax_lt_wordSize
    have large : isizeMax < wordSize - 1 := by decide
    omega
  exact ⟨within, stops, exact_ ▸ counted, element, exact_ ▸ product, allocated⟩

namespace Sized

theorem total_lt (sized : Sized dataset slab total) : total < wordSize :=
  lt_of_le_of_lt sized.allocated isizeMax_lt_wordSize

theorem small (sized : Sized dataset slab total) : slab.count.prod < wordSize := by
  have bound := Nat.le_mul_of_pos_right slab.count.prod sized.element
  rw [← sized.total_eq] at bound
  exact lt_of_le_of_lt bound sized.total_lt

theorem counted (sized : Sized dataset slab total) : slab.elementCount ≠ 0 := by
  rw [Hyperslab.elementCount, elementCount_of_lt sized.small]
  exact Nat.pos_iff_ne_zero.mp sized.positive

/-- A byte offset of the output is not wrapped. -/
theorem offset_eq (sized : Sized dataset slab total) {n : Nat} (inside : n ≤ slab.count.prod) :
    n * dataset.elementSize % wordSize = n * dataset.elementSize := by
  apply Nat.mod_eq_of_lt
  have bound := Nat.mul_le_mul_right dataset.elementSize inside
  rw [← sized.total_eq] at bound
  exact lt_of_le_of_lt bound sized.total_lt

end Sized

end Sizes

section Dense

variable {dataset : DatasetIndex} {slab : Hyperslab} {total : Nat}

/-- The runs have one length and follow each other in the output. -/
theorem forEachRun_tiles {shape : List Nat} (positive : 0 < slab.count.prod)
    (small : slab.count.prod < wordSize) (within : Hyperslab.Within slab.start slab.count shape)
    (stops : ∀ stop ∈ shift slab.start slab.count, stop < wordSize) {runs : List (Code ElementRun)}
    (found : forEachRun build shape slab = .ok runs) :
    ∃ width, runs.length * width = slab.count.prod ∧
      ∀ k run, runs[k]? = some (.ok run) → run.dst = k * width ∧ run.run = width := by
  rcases Nat.eq_zero_or_pos shape.length with scalar | ranked
  · have empty : slab.count = [] := List.eq_nil_of_length_eq_zero (within.lengths.2.trans scalar)
    rw [forEachRun, if_pos scalar] at found
    cases found
    refine ⟨1, by simp [empty], fun k run at_ => ?_⟩
    cases k with
    | zero =>
      cases at_
      exact ⟨rfl, rfl⟩
    | succ k => simp at at_
  · rw [forEachRun_eq build ranked positive small within stops] at found
    obtain ⟨_, _, same⟩ := Outcome.bind_eq_ok.mp found
    cases same
    refine ⟨runLength slab shape, ?_, fun k run at_ => ?_⟩
    · rw [List.length_map, cells_length]
      exact outerBox_mul_runLength slab shape
    · obtain ⟨index, member, done⟩ := List.getElem?_map ▸ at_ |> Option.map_eq_some_iff.mp
      obtain ⟨src, _, same⟩ := Outcome.bind_eq_ok.mp done
      cases same
      exact ⟨by rw [linear_getElem?_cells member], rfl⟩

/-- A write of a run: the run's place in the output and its length, in bytes. -/
def Placed (elementSize : Nat) (next : Code ElementRun) (write : Write UInt8) : Prop :=
  ∃ run, next = .ok run ∧ write.start = run.dst * elementSize % wordSize ∧
    write.entries.length = run.run * elementSize % wordSize

theorem covering_of_placed (sized : Sized dataset slab total) {runs : List (Code ElementRun)}
    (found : forEachRun build dataset.shape slab = .ok runs) {writes : List (Write UInt8)}
    (placed : List.Forall₂ (Placed dataset.elementSize) runs writes) : Covering total writes := by
  obtain ⟨width, product, tiles⟩ :=
    forEachRun_tiles build sized.positive sized.small sized.within sized.stops found
  have long := placed.length_eq
  have tiled : SideBySide (width * dataset.elementSize) writes := by
    intro k write at_
    obtain ⟨bound, rfl⟩ := List.getElem?_eq_some_iff.mp at_
    obtain ⟨run, next, start, len⟩ := (List.forall₂_iff_get.mp placed).2 k (by omega) bound
    obtain ⟨dst, width_⟩ := tiles k run (List.getElem?_eq_some_iff.mpr ⟨by omega, next⟩)
    rw [List.get_eq_getElem] at start len
    have whole : width ≤ slab.count.prod := product ▸ Nat.le_mul_of_pos_left width (by omega)
    have place : k * width ≤ slab.count.prod := product ▸ Nat.mul_le_mul_right width (by omega)
    rw [start, len, dst, width_, sized.offset_eq place, sized.offset_eq whole, Nat.mul_assoc]
    exact ⟨rfl, rfl⟩
  rw [sized.total_eq, ← product, long, Nat.mul_assoc]
  exact tiled.covering

theorem denseWrite_eq_ok {src : Bytes} {elementSize : Nat} {run : ElementRun} {write : Write UInt8}
    (done : denseWrite build src elementSize run = .ok write) :
    write.start = run.dst * elementSize % wordSize ∧
      write.entries.length = run.run * elementSize % wordSize := by
  unfold denseWrite at done
  obtain ⟨sb, srcFits, done⟩ := Outcome.bind_eq_ok.mp done
  obtain ⟨db, dstFits, done⟩ := Outcome.bind_eq_ok.mp done
  obtain ⟨len, lenFits, done⟩ := Outcome.bind_eq_ok.mp done
  obtain ⟨stop, stopFits, done⟩ := Outcome.bind_eq_ok.mp done
  split at done
  · cases done
  · obtain ⟨_, _, done⟩ := Outcome.bind_eq_ok.mp done
    obtain ⟨bytes, sliced, done⟩ := Outcome.bind_eq_ok.mp done
    cases done
    obtain ⟨inside, rfl⟩ := cut_eq build stopFits (Build.lt_of_word_eq_ok srcFits) (Build.lt_of_word_eq_ok lenFits)
      sliced
    refine ⟨Build.word_eq_ok dstFits, ?_⟩
    rw [← Build.word_eq_ok lenFits]
    exact slice_length src inside

theorem placed_of_dense {src : Bytes} {elementSize : Nat} : ∀ {runs : List (Code ElementRun)}
    {writes : List (Write UInt8)},
    (runs.map fun next => next >>= denseWrite build src elementSize) = writes.map .ok →
    List.Forall₂ (Placed elementSize) runs writes
  | [], [], _ => .nil
  | next :: runs, write :: writes, same => by
    simp only [List.map_cons, List.cons.injEq] at same
    obtain ⟨run, found, done⟩ := Outcome.bind_eq_ok.mp same.1
    exact .cons ⟨run, found, denseWrite_eq_ok build done⟩ (placed_of_dense same.2)

/-- A compact read writes the whole output. -/
theorem copyFromDense_writes (sized : Sized dataset slab total) (data : Bytes) :
    Writes total (Covering total) (fun out =>
      (Session.lift (copyFromDense build out data dataset.shape slab dataset.elementSize) :
        Session Caches Error Bytes)) := by
  unfold copyFromDense
  simp only [Session.lift_bind]
  apply Writes.after (Session.Yields.lift fun runs found => found)
  intro runs found
  apply Writes.storeEach
  intro writes same _
  exact covering_of_placed build sized found (placed_of_dense build same)

theorem placeRun_writes (elementSize : Nat) (run : ElementRun) {len : Nat} (lenWord : len < wordSize)
    (bytes : Bytes) :
    Writes total (fun writes => ∃ write, writes = [write] ∧
        write.start = run.dst * elementSize % wordSize ∧ write.entries.length = len)
      (fun out => (Session.lift (placeRun build elementSize run len bytes out) :
        Session Caches Error Bytes)) := by
  unfold placeRun
  simp only [Session.lift_bind]
  apply Writes.after (Session.Yields.lift fun db found => found)
  intro db place
  apply Writes.after (Session.Yields.lift fun stop found => found)
  intro stop end_
  apply (Writes.copyInto db stop bytes).imp
  rintro writes _ ⟨rfl, le, long⟩
  have exact_ := Build.stop_eq_of_le end_ (Build.lt_of_word_eq_ok place) lenWord le
  refine ⟨_, rfl, Build.word_eq_ok place, ?_⟩
  change bytes.length = len
  omega

theorem readRuns_writes (ctx : Ctx) (address elementSize : Nat) (runs : List (Code ElementRun)) :
    Writes total (List.Forall₂ (Placed elementSize) runs)
      (readRuns build ctx address elementSize runs) := by
  induction runs with
  | nil => exact Writes.pure .nil
  | cons next runs ih =>
    apply Writes.after (Session.Yields.lift fun run found => found)
    intro run found
    apply Writes.after (Session.Yields.lift fun range found => found)
    rintro ⟨at_, len⟩ ranged
    apply Writes.after (Session.Yields.trivial _)
    intro bytes _
    obtain ⟨_, lenFits, ranged⟩ := Outcome.bind_eq_ok.mp ranged
    obtain ⟨_, _, ranged⟩ := Outcome.bind_eq_ok.mp ranged
    obtain ⟨_, _, ranged⟩ := Outcome.bind_eq_ok.mp ranged
    cases ranged
    apply (placeRun_writes build elementSize run (Build.lt_of_word_eq_ok lenFits) bytes).bind ih
    rintro first rest ⟨write, rfl, start, long⟩ placed
    exact .cons ⟨run, found, start, long.trans (Build.word_eq_ok lenFits)⟩ placed

theorem readContiguous_writes (sized : Sized dataset slab total) (ctx : Ctx) (address : Nat) :
    Writes total (Covering total) (fun out =>
      readContiguous build ctx address out dataset.shape slab dataset.elementSize) := by
  unfold readContiguous
  apply Writes.after (Session.Yields.lift fun runs found => found)
  intro runs found
  apply (readRuns_writes build ctx address dataset.elementSize runs).imp
  intro writes _ placed
  exact covering_of_placed build sized found placed

end Dense

section Chunked

variable {dataset : DatasetIndex} {slab : Hyperslab} {total : Nat}

/-- The writes reach every byte of every selected element of a chunk. -/
def Reaches (dataset : DatasetIndex) (slab : Hyperslab) (chunkShape : List Nat)
    (writes : List (Write UInt8)) (record : ChunkRecord) : Prop :=
  ∀ cell, Inside slab.count cell → InBox record.offset chunkShape (shift slab.start cell) →
    ∀ j < dataset.elementSize, ∃ write ∈ writes,
      write.Covers (linear slab.count cell * dataset.elementSize + j)

theorem Reaches.mono {chunkShape : List Nat} {writes more : List (Write UInt8)} {record : ChunkRecord}
    (reaches : Reaches dataset slab chunkShape writes record) (sub : writes ⊆ more) :
    Reaches dataset slab chunkShape more record := by
  intro cell inside box j bound
  obtain ⟨write, member, covers⟩ := reaches cell inside box j bound
  exact ⟨write, sub member, covers⟩

theorem reaches_of_rows (sized : Sized dataset slab total) {chunkShape : List Nat} {record : ChunkRecord}
    {part : List (Nat × Nat)} (clipped : Clipped record.offset chunkShape slab.start slab.count part)
    (ranked : part ≠ []) {next : List Nat → Code (Write UInt8)}
    (rows : ∀ index write, next index = .ok write →
      write.start = rowPlace slab part index * dataset.elementSize % wordSize ∧
        write.entries.length = rowLength part * dataset.elementSize % wordSize)
    {writes : List (Write UInt8)} (same : (cells (rowBox part)).map next = writes.map .ok) :
    Reaches dataset slab chunkShape writes record := by
  intro cell inside box j bound
  obtain ⟨within, back_⟩ := clipped.covers sized.stops inside box
  obtain ⟨index, t, split, outer, inner⟩ := exists_row ranked within
  have member : next index ∈ writes.map .ok := same ▸ List.mem_map_of_mem (mem_cells.mpr outer)
  obtain ⟨write, written, done⟩ := List.mem_map.mp member
  obtain ⟨start, long⟩ := rows index write done.symm
  have place := rowPlace_eq clipped ranked outer t
  rw [← split, back_] at place
  have first := rowPlace_lt clipped ranked outer (Nat.zero_lt_of_lt inner)
  have lengthBound : rowLength part ≤ slab.count.prod := by
    have end_ := rowPlace_lt (t := rowLength part - 1) clipped ranked outer (by omega)
    omega
  rw [sized.offset_eq (by omega)] at start
  rw [sized.offset_eq lengthBound] at long
  refine ⟨write, written, ?_, ?_⟩
  · rw [start, place, Nat.add_mul]
    omega
  · have row := Nat.mul_le_mul_right dataset.elementSize (show t + 1 ≤ rowLength part from inner)
    rw [start, long, place, Nat.add_mul]
    rw [Nat.succ_mul] at row
    omega

theorem copyChunks_writes (sized : Sized dataset slab total) (ctx : Ctx) (codecs : Codecs)
    (decodedLen : Nat) {chunkShape chunkStrides : List Nat} (ranked : 0 < dataset.shape.length)
    (sameRank : chunkShape.length = dataset.shape.length)
    (found : (build.words (RowMajor.strides chunkShape) : Code (List Nat)) = .ok chunkStrides)
    (records : List ChunkRecord) (ranks : ∀ record ∈ records, record.offset.length = dataset.shape.length) :
    Writes total (fun writes => ∀ record ∈ records, Reaches dataset slab chunkShape writes record)
      (copyChunks build ctx codecs dataset decodedLen chunkShape chunkStrides
        (RowMajor.strides slab.count) slab dataset.elementSize records) := by
  obtain ⟨sameStart, sameCount⟩ := sized.within.lengths
  induction records with
  | nil => exact Writes.pure (by simp)
  | cons record records ih =>
    have ih := ih fun later member => ranks later (by simp [member])
    have offset := ranks record (by simp)
    have sameOffset : record.offset.length = slab.count.length := offset.trans sameCount.symm
    have sameWidth : chunkShape.length = slab.count.length := sameRank.trans sameCount.symm
    have starts : slab.start.length = slab.count.length := sameStart.trans sameCount.symm
    have joined : ∀ first rest, Reaches dataset slab chunkShape first record →
        (∀ later ∈ records, Reaches dataset slab chunkShape rest later) →
        ∀ later ∈ record :: records, Reaches dataset slab chunkShape (first ++ rest) later := by
      intro first rest here others later member
      rcases List.mem_cons.mp member with rfl | member
      · exact here.mono (List.subset_append_left first rest)
      · exact (others later member).mono (List.subset_append_right first rest)
    cases overlap : clip record.offset chunkShape slab.start slab.count with
    | none =>
      -- A chunk beside the selection holds no selected cell.
      rw [copyChunks_none build overlap]
      apply ih.imp
      intro writes _ others
      apply joined [] writes ?_ others
      intro cell inside box
      have part := clip_isSome sameOffset sameWidth starts sized.stops inside box
      rw [overlap] at part
      cases part
    | some part =>
      rw [copyChunks_some build overlap]
      have clipped := clip_eq_some sameOffset sameWidth starts overlap
      have parts : part ≠ [] := by
        have long := clipped.lengths.1
        rw [offset] at long
        exact List.ne_nil_of_length_pos (long ▸ ranked)
      apply Writes.after (Session.Yields.trivial _)
      intro decoded _
      split
      · exact Writes.fail _ (by simp)
      · apply Writes.after (Session.Yields.lift fun nexts found => found)
        intro nexts copies
        rw [chunkWrites_eq build clipped parts sized.stops sized.small found] at copies
        cases copies
        refine Writes.bind (Writes.storeEach fun writes same _ => ?_) ih joined
        apply reaches_of_rows sized clipped parts ?_ same
        intro index write done
        obtain ⟨src, _, done⟩ := Outcome.bind_eq_ok.mp done
        exact rowWrite_eq_ok build done

/-- Where the stored chunks cover the selection, a chunked read writes the whole output. -/
theorem readChunked_writes (sized : Sized dataset slab total) (ctx : Ctx) (codecs : Codecs)
    {chunks : List ChunkRecord} {chunkDims : List Nat} (ranked : dataset.shape.length ≠ 0)
    (sameRank : chunkDims.length = dataset.shape.length)
    (covered : chunksCover chunks chunkDims slab dataset.shape.length = true) :
    Writes total (Covering total) (fun out =>
      readChunked build ctx codecs dataset chunks chunkDims out slab dataset.elementSize) := by
  obtain ⟨sameStart, sameCount⟩ := sized.within.lengths
  unfold readChunked
  simp only [sameRank, ne_eq, not_true_eq_false, if_false]
  apply Writes.after (Session.Yields.lift fun dstStrides found => found)
  intro dstStrides exact_
  rw [strides_eq_ok build sized.positive sized.small] at exact_
  cases exact_
  apply Writes.after (Session.Yields.trivial _)
  intro decodedLen _
  apply Writes.after (Session.Yields.lift fun chunkStrides found => found)
  intro chunkStrides weights
  apply Writes.after (Session.Yields.lift fun needed found => found)
  intro needed touched
  apply Writes.after (Session.Yields.trivial _)
  intro _ _
  obtain ⟨ranks, filtered⟩ := neededChunks_spec touched
  rw [filtered]
  unfold strides at weights
  rw [stridesOf_eq] at weights
  apply (copyChunks_writes build sized ctx codecs decodedLen (Nat.pos_of_ne_zero ranked) sameRank weights _
    fun record member => ranks record (List.mem_of_mem_filter member)).imp
  intro writes _ reaches i inside
  -- The byte belongs to one element, whose coordinate lies in a stored chunk.
  have element : i / dataset.elementSize < slab.count.prod :=
    (Nat.div_lt_iff_lt_mul sized.element).mpr (sized.total_eq ▸ inside)
  obtain ⟨selected, at_⟩ : ∃ cell, (cells slab.count)[i / dataset.elementSize]? = some cell :=
    ⟨_, List.getElem?_eq_getElem (by rwa [cells_length])⟩
  have cell := mem_cells.mp (List.mem_of_getElem? at_)
  obtain ⟨record, member, _, sameOffset, box⟩ :=
    chunksCover_spec sameRank sameStart sameCount sized.counted covered cell
  have needs : record ∈ chunks.filter fun record =>
      intersects record.offset chunkDims slab.start slab.count := by
    rw [List.mem_filter, intersects_eq]
    exact ⟨member, clip_isSome (sameOffset.trans sameCount.symm) (sameRank.trans sameCount.symm)
      (sameStart.trans sameCount.symm) sized.stops cell box⟩
  obtain ⟨write, written, covers⟩ := reaches record needs _ cell box (i % dataset.elementSize)
    (Nat.mod_lt _ sized.element)
  rw [linear_getElem?_cells at_, Nat.div_add_mod'] at covers
  exact ⟨write, written, covers⟩

end Chunked

section Fill

variable {dataset : DatasetIndex} {slab : Hyperslab} {total : Nat}

/-- Where the stored data covers the selection, a read of it does not depend on what
the output started from. -/
theorem readStored_eq_of_covered (sized : Sized dataset slab total) (ctx : Ctx) (codecs : Codecs)
    {chunks : Option (List ChunkRecord)} (covered : selectionIsCovered dataset chunks slab = true)
    {left right : Bytes} (leftLong : left.length = total) (rightLong : right.length = total) :
    readStored build ctx codecs dataset chunks slab dataset.elementSize left =
      readStored build ctx codecs dataset chunks slab dataset.elementSize right := by
  unfold selectionIsCovered at covered
  unfold readStored
  cases layout : dataset.layout with
  | compact data =>
    exact (copyFromDense_writes build sized data).eq_of_covering leftLong rightLong
  | contiguous address size =>
    cases address with
    | none => simp [layout] at covered
    | some address =>
      exact (readContiguous_writes build sized ctx address).eq_of_covering leftLong rightLong
  | chunked address chunkDims width index =>
    cases chunks with
    | none => rfl
    | some chunks =>
      simp only [layout] at covered
      split at covered
      · cases covered
      · next ranks =>
        obtain ⟨ranked, sameRank⟩ := not_or.mp ranks
        exact (readChunked_writes build sized ctx codecs ranked (not_not.mp sameRank)
          (by simpa using covered)).eq_of_covering leftLong rightLong

/-- A read that writes the fill value first, whatever is stored. -/
def readFilled (ctx : Ctx) (codecs : Codecs) (dataset : DatasetIndex) (slab : Hyperslab) :
    Session Caches Error RawData := do
  Session.lift (slab.validate dataset.shape)
  if !dataset.datatype.isDecodable then Session.throw (undecodable dataset)
  else
    let elementSize := dataset.elementSize
    let total ← Session.lift (Outcome.ofOption tooLarge (checkedMul slab.elementCount elementSize))
    let chunks ← Session.lift (resolvedIndex dataset)
    let out ← Session.lift (zeroed total)
    let out := dataset.fillValue.fill out elementSize
    let out ← readStored build ctx codecs dataset chunks slab elementSize out
    let out := nativeOrder dataset out elementSize
    pure { bytes := out, elementSize, shape := slab.count }

theorem readStored_eq_of_same_length (valid : slab.validate dataset.shape = .ok ())
    (fits : checkedMul slab.elementCount dataset.elementSize = some total)
    (allocated : total ≤ isizeMax) (ctx : Ctx) (codecs : Codecs) {chunks : Option (List ChunkRecord)}
    (covered : selectionIsCovered dataset chunks slab = true) {left right : Bytes}
    (leftLong : left.length = total) (rightLong : right.length = total) :
    readStored build ctx codecs dataset chunks slab dataset.elementSize left =
      readStored build ctx codecs dataset chunks slab dataset.elementSize right := by
  rcases Nat.eq_zero_or_pos total with rfl | nonempty
  · rw [List.eq_nil_of_length_eq_zero leftLong, List.eq_nil_of_length_eq_zero rightLong]
  · exact readStored_eq_of_covered build (sized_of_ok valid fits allocated nonempty) ctx codecs covered
      leftLong rightLong

/-- Skipping the fill cannot be seen: the read ends as the one that always fills does,
with the same caches left behind, and where the selection is covered no byte the output
started from is left in it. -/
theorem readHyperslab_skips_fill (ctx : Ctx) (codecs : Codecs) (dataset : DatasetIndex)
    (slab : Hyperslab) :
    readHyperslab build ctx codecs dataset slab = readFilled build ctx codecs dataset slab ∧
      ∀ (chunks : Option (List ChunkRecord)) (total : Nat) (left right : Bytes),
        slab.validate dataset.shape = .ok () →
        checkedMul slab.elementCount dataset.elementSize = some total → total ≤ isizeMax →
        selectionIsCovered dataset chunks slab = true → left.length = total → right.length = total →
        readStored build ctx codecs dataset chunks slab dataset.elementSize left =
          readStored build ctx codecs dataset chunks slab dataset.elementSize right := by
  constructor
  · unfold readHyperslab readFilled
    apply Session.lift_bind_congr
    intro _ valid
    split
    · rfl
    · apply Session.lift_bind_congr
      intro total fits
      apply Session.lift_bind_congr
      intro chunks _
      apply Session.lift_bind_congr
      intro out allocated
      obtain ⟨bound, rfl⟩ := zeroed_eq_ok.mp allocated
      unfold startBuffer
      split
      · rfl
      · next covered =>
        have blank : (List.replicate total (0 : UInt8)).length = total := List.length_replicate
        have same := readStored_eq_of_same_length build valid (Outcome.ofOption_eq_ok.mp fits) bound ctx
          codecs (show selectionIsCovered dataset chunks slab = true by simpa using covered) blank
          ((FillValue.fill_length dataset.fillValue (List.replicate total 0) dataset.elementSize).trans blank)
        simp only [same]
  · intro chunks total left right valid fits allocated covered leftLong rightLong
    exact readStored_eq_of_same_length build valid fits allocated ctx codecs covered leftLong rightLong

def fourBytes : Ctx where
  source := fileSource ⟨[1, 2, 3, 4], by decide⟩
  baseAddress := 0
  io := .localFile

def twoChunks : DatasetIndex :=
  .ofBytes [4] (.chunked (some 0) [2] 1 .btreeV1) (some [⟨2, 0, [0], 0⟩, ⟨2, 0, [2], 2⟩])

theorem readHyperslab_skips_fill_twoChunks :
    readStored .debug fourBytes .refusing twoChunks twoChunks.chunks ⟨[1], [2]⟩ 1 [7, 7] =
      readStored .debug fourBytes .refusing twoChunks twoChunks.chunks ⟨[1], [2]⟩ 1 [0, 0] :=
  (readHyperslab_skips_fill .debug fourBytes .refusing twoChunks ⟨[1], [2]⟩).2 twoChunks.chunks 2
    [7, 7] [0, 0] (by decide +kernel) (by decide +kernel) (by decide +kernel) (by decide +kernel) rfl rfl

end Fill

end Oxcdf.Read
