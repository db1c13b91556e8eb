import Oxcdf.Read.Async
import Oxcdf.Read.Wrapped

/-! Where a contiguous read takes its bytes from.

Both reads ask for the ranges of the runs of the selection. None of them looks at
the stored size, so what they fetch lies in the stored run exactly when the
selected elements do.
-/

set_option autoImplicit false

namespace Oxcdf.Read

open Foundation Foundation.RowMajor Foundation.Buffer

section Asked

variable (build : Build)

/-- The stored ranges of the runs of a selection, in the order of the runs. -/
def askedRanges (address elementSize : Nat) (shape : List Nat) (slab : Hyperslab) :
    Code (List (Nat × Nat)) := do
  let runs ← forEachRun build shape slab
  runs.mapM fun next => next >>= runRange build address elementSize

variable {build}
variable {ctx : Ctx} {remote : AsyncCtx} {address elementSize : Nat} {shape : List Nat} {slab : Hyperslab}
  {caches after : Caches} {out last : Bytes}

/-- Reading runs one after the other is reading their ranges one after the other. -/
theorem readRuns_asks : ∀ {runs : List (Code ElementRun)} {out : Bytes} {caches : Caches},
    readRuns build ctx address elementSize runs out caches = (.ok last, after) →
    ∃ ranges blobs, runs.mapM (fun next => next >>= runRange build address elementSize) = .ok ranges ∧
      (ranges.mapM fun range => ctx.read range.1 range.2) caches = (.ok blobs, after)
  | [], _, _, done => by
    cases done
    exact ⟨[], [], rfl, rfl⟩
  | next :: runs, out, caches, done => by
    obtain ⟨run, _, found, done⟩ := Session.bind_eq_ok.mp done
    obtain ⟨rfl, rfl⟩ := Session.lift_eq_ok.mp found
    obtain ⟨⟨at_, len⟩, _, reach, done⟩ := Session.bind_eq_ok.mp done
    obtain ⟨ranged, rfl⟩ := Session.lift_eq_ok.mp reach
    obtain ⟨bytes, middle, read, done⟩ := Session.bind_eq_ok.mp done
    obtain ⟨out, _, placed, done⟩ := Session.bind_eq_ok.mp done
    obtain ⟨-, rfl⟩ := Session.lift_eq_ok.mp placed
    obtain ⟨ranges, blobs, others, later⟩ := readRuns_asks done
    refine ⟨(at_, len) :: ranges, bytes :: blobs, ?_, ?_⟩
    · rw [List.mapM_cons, Outcome.ok_bind, ranged, Outcome.ok_bind, others]
      rfl
    · rw [List.mapM_cons, Session.bind_ok read, Session.bind_ok later]
      rfl

theorem readContiguous_asks
    (done : readContiguous build ctx address out shape slab elementSize caches = (.ok last, after)) :
    ∃ ranges blobs, askedRanges build address elementSize shape slab = .ok ranges ∧
      (ranges.mapM fun range => ctx.read range.1 range.2) caches = (.ok blobs, after) := by
  obtain ⟨runs, _, walk, done⟩ := Session.bind_eq_ok.mp done
  obtain ⟨found, rfl⟩ := Session.lift_eq_ok.mp walk
  obtain ⟨ranges, blobs, asked, read⟩ := readRuns_asks done
  refine ⟨ranges, blobs, ?_, read⟩
  rw [askedRanges, found, Outcome.ok_bind, asked]

theorem fetchRanges_asks : ∀ {walked : List (Code ElementRun)} {runs : List ElementRun}
    {ranges : List (Nat × Nat)}, walked.mapM id = .ok runs →
    runs.mapM (fetchRange build remote address elementSize) = .ok ranges →
    ∃ asked, walked.mapM (fun next => next >>= runRange build address elementSize) = .ok asked ∧
      ranges = asked.map fun range => (remote.resolve range.1, range.2)
  | [], _, _, collected, fetched => by
    cases collected
    cases fetched
    exact ⟨[], rfl, rfl⟩
  | next :: walked, _, _, collected, fetched => by
    rw [List.mapM_cons] at collected
    obtain ⟨run, same, collected⟩ := Outcome.bind_eq_ok.mp collected
    obtain ⟨runs, later, collected⟩ := Outcome.bind_eq_ok.mp collected
    cases collected
    rw [List.mapM_cons, fetchRange_eq] at fetched
    obtain ⟨_, first, fetched⟩ := Outcome.bind_eq_ok.mp fetched
    obtain ⟨range, ranged, rfl⟩ := Outcome.map_eq_ok.mp first
    obtain ⟨rest, others, fetched⟩ := Outcome.bind_eq_ok.mp fetched
    cases fetched
    obtain ⟨asked, found, rfl⟩ := fetchRanges_asks later others
    refine ⟨range :: asked, ?_, rfl⟩
    change next = .ok run at same
    rw [List.mapM_cons, same, Outcome.ok_bind, ranged, Outcome.ok_bind, found]
    rfl

theorem fetchContiguous_asks
    (done : fetchContiguous build remote address out shape slab elementSize caches = (.ok last, after)) :
    ∃ ranges blobs, askedRanges build address elementSize shape slab = .ok ranges ∧
      fetchBytes build remote (ranges.map fun range => (remote.resolve range.1, range.2)) caches =
        (.ok blobs, after) := by
  obtain ⟨walked, _, walk, done⟩ := Session.bind_eq_ok.mp done
  obtain ⟨found, rfl⟩ := Session.lift_eq_ok.mp walk
  obtain ⟨runs, _, collect, done⟩ := Session.bind_eq_ok.mp done
  obtain ⟨collected, rfl⟩ := Session.lift_eq_ok.mp collect
  obtain ⟨ranges, _, fetch, done⟩ := Session.bind_eq_ok.mp done
  obtain ⟨fetched, rfl⟩ := Session.lift_eq_ok.mp fetch
  obtain ⟨blobs, _, answered, done⟩ := Session.bind_eq_ok.mp done
  obtain ⟨-, rfl⟩ := Session.lift_eq_ok.mp done
  obtain ⟨asked, same, rfl⟩ := fetchRanges_asks collected fetched
  refine ⟨asked, blobs, ?_, answered⟩
  rw [askedRanges, found, Outcome.ok_bind, same]

end Asked

section Placed

variable {build : Build} {dataset : DatasetIndex} {slab : Hyperslab} {address size total : Nat}
  {ranges : List (Nat × Nat)}

theorem runRange_word {src dst : Nat} {range : Nat × Nat}
    (narrow : runLength slab dataset.shape * dataset.elementSize < wordSize)
    (ranged : ((build.word src : Code Nat) >>= fun src => .ok ⟨src, dst, runLength slab dataset.shape⟩) >>=
      runRange build address dataset.elementSize = .ok range) :
    range = ((address + src * dataset.elementSize) % wordSize, rowBytes dataset slab) := by
  obtain ⟨run, found, ranged⟩ := Outcome.bind_eq_ok.mp ranged
  obtain ⟨source, word, found⟩ := Outcome.bind_eq_ok.mp found
  cases found
  obtain ⟨len, width, ranged⟩ := Outcome.bind_eq_ok.mp ranged
  obtain ⟨skip, skipped, ranged⟩ := Outcome.bind_eq_ok.mp ranged
  obtain ⟨at_, place, ranged⟩ := Outcome.bind_eq_ok.mp ranged
  cases ranged
  rw [Build.word_eq_ok width, Build.word_eq_ok place, Build.word_eq_ok skipped, Build.word_eq_ok word,
    Nat.mod_eq_of_lt narrow, Nat.mod_mul_mod, Nat.add_mod_mod, rowBytes]

/-- The ranges that are asked for begin at the wrapped addresses of the rows. -/
theorem askedRanges_eq (sized : Sized dataset slab total)
    (asked : askedRanges build address dataset.elementSize dataset.shape slab = .ok ranges) :
    ranges = (cells (outerBox slab dataset.shape)).map fun index =>
      ((address + rowOffset dataset slab index) % wordSize, rowBytes dataset slab) := by
  have narrow : runLength slab dataset.shape * dataset.elementSize < wordSize := by
    have whole := rows_total sized
    rw [List.length_map, cells_length] at whole
    have outer : 0 < (outerBox slab dataset.shape).prod :=
      Nat.pos_of_mul_pos_right ((outerBox_mul_runLength slab dataset.shape).symm ▸ sized.positive)
    exact lt_of_le_of_lt (whole ▸ Nat.le_mul_of_pos_left _ outer) sized.total_lt
  obtain ⟨runs, walked, asked⟩ := Outcome.bind_eq_ok.mp asked
  rcases Nat.eq_zero_or_pos dataset.shape.length with scalar | ranked
  · have none := List.eq_nil_of_length_eq_zero scalar
    have count := List.eq_nil_of_length_eq_zero (sized.within.lengths.2.trans scalar)
    rw [forEachRun, if_pos scalar] at walked
    cases walked
    have one : runLength slab dataset.shape = 1 := by simp [runLength, count]
    have each := Outcome.eq_map_of_mapM (fun _ =>
      ((address + 0 * dataset.elementSize) % wordSize, rowBytes dataset slab)) ?_ asked
    · rw [each]
      simp [outerBox, count, rowOffset, runSource, none, linear]
    · intro next member range ranged
      rw [List.mem_singleton.mp member] at ranged
      refine @runRange_word build dataset slab address 0 0 range narrow ?_
      rw [Build.word_of_lt _ wordSize_pos, Outcome.ok_bind, one]
      exact ranged
  · rw [forEachRun_eq build ranked sized.positive sized.small sized.within sized.stops] at walked
    obtain ⟨_, _, walked⟩ := Outcome.bind_eq_ok.mp walked
    cases walked
    rw [List.mapM_map] at asked
    exact Outcome.eq_map_of_mapM _ (fun index _ range ranged => runRange_word narrow ranged) asked

/-- Every byte of a range, at its address in a word, lies among the bytes from an address on. -/
def RangeInside (address size : Nat) (range : Nat × Nat) : Prop :=
  ∀ i < range.2, address ≤ (range.1 + i) % wordSize ∧ (range.1 + i) % wordSize < address + size

/-- Every byte of every selected element lies below the stored size, where its place in the dataset is
counted in a word, and has an address. -/
def SelectionStored (dataset : DatasetIndex) (slab : Hyperslab) (address size : Nat) : Prop :=
  ∀ cell, Inside slab.count cell → ∀ j < dataset.elementSize,
    trueOffset dataset slab cell j % wordSize < size ∧
      address + trueOffset dataset slab cell j % wordSize < wordSize

theorem place_inside_iff (word : address < wordSize) (offset : Nat) :
    (address ≤ (address + offset) % wordSize ∧ (address + offset) % wordSize < address + size) ↔
      offset % wordSize < size ∧ address + offset % wordSize < wordSize := by
  have wrapped : (address + offset) % wordSize = (address + offset % wordSize) % wordSize := by
    rw [Nat.add_mod_mod]
  have bound : offset % wordSize < wordSize := Nat.mod_lt _ wordSize_pos
  rw [wrapped]
  rcases Nat.lt_or_ge (address + offset % wordSize) wordSize with small | large
  · rw [Nat.mod_eq_of_lt small]
    omega
  · rw [Nat.mod_eq_sub_mod large, Nat.mod_eq_of_lt (by omega)]
    omega

/-- Where nothing is selected, or elements take no bytes, nothing is asked for. -/
theorem asks_nothing (rank : slab.count.length = dataset.shape.length)
    (empty : slab.elementCount * dataset.elementSize = 0)
    (asked : askedRanges build address dataset.elementSize dataset.shape slab = .ok ranges) :
    ∀ range ∈ ranges, range.2 = 0 := by
  obtain ⟨runs, walked, asked⟩ := Outcome.bind_eq_ok.mp asked
  rcases Nat.mul_eq_zero.mp empty with nothing | thin
  · have ranked : dataset.shape.length ≠ 0 := by
      intro scalar
      rw [Hyperslab.elementCount, List.eq_nil_of_length_eq_zero (rank.trans scalar)] at nothing
      exact absurd nothing (by decide)
    rw [forEachRun, if_neg ranked, if_pos nothing] at walked
    cases walked
    cases asked
    exact fun _ member => absurd member List.not_mem_nil
  · intro range member
    obtain ⟨next, -, ranged⟩ := Outcome.exists_of_mem_mapM asked range member
    obtain ⟨run, -, ranged⟩ := Outcome.bind_eq_ok.mp ranged
    obtain ⟨len, width, ranged⟩ := Outcome.bind_eq_ok.mp ranged
    obtain ⟨skip, -, ranged⟩ := Outcome.bind_eq_ok.mp ranged
    obtain ⟨at_, -, ranged⟩ := Outcome.bind_eq_ok.mp ranged
    cases ranged
    rw [Build.word_eq_ok width, thin, Nat.mul_zero, Nat.zero_mod]

theorem rangesInside_iff (word : address < wordSize) (valid : slab.validate dataset.shape = .ok ())
    (fits : checkedMul slab.elementCount dataset.elementSize = some total) (allocated : total ≤ isizeMax)
    (asked : askedRanges build address dataset.elementSize dataset.shape slab = .ok ranges) :
    (∀ range ∈ ranges, RangeInside address size range) ↔ SelectionStored dataset slab address size := by
  obtain ⟨product, -⟩ := checkedMul_eq_some fits
  rcases Nat.eq_zero_or_pos total with empty | nonempty
  · constructor
    · intro _ cell inside j bound
      have counted : slab.elementCount = 0 :=
        (Nat.mul_eq_zero.mp (product.symm.trans empty)).resolve_right (by omega)
      have clamped := elementCount_eq slab.count
      have large : 0 < wordSize - 1 := by decide
      have positive := inside.prod_pos
      rw [← Hyperslab.elementCount, counted] at clamped
      omega
    · intro _ range member i bound
      have none := asks_nothing (Hyperslab.within_of_validate valid).1.lengths.2
        (product.symm.trans empty) asked range member
      omega
  · have sized := sized_of_ok valid fits allocated nonempty
    rw [askedRanges_eq sized asked, List.forall_mem_map]
    have place (index : List Nat) (t : Nat) :
        (address ≤ ((address + rowOffset dataset slab index) % wordSize + t) % wordSize ∧
          ((address + rowOffset dataset slab index) % wordSize + t) % wordSize < address + size) ↔
        (rowOffset dataset slab index + t) % wordSize < size ∧
          address + (rowOffset dataset slab index + t) % wordSize < wordSize := by
      rw [Nat.mod_add_mod, Nat.add_assoc, place_inside_iff word]
    constructor
    · intro rows cell inside j bound
      obtain ⟨_, index, t, found, within, -, same⟩ := cell_byte sized inside bound
      rw [same]
      exact (place index t).mp (rows index (List.mem_of_getElem? found) t within)
    · intro stored index member t within
      obtain ⟨cell, j, inside, bound, same⟩ := byte_cell sized (mem_cells.mp member) within
      refine (place index t).mpr ?_
      rw [← same]
      exact stored cell inside j bound

end Placed

section Last

variable {dataset : DatasetIndex} {slab : Hyperslab} {address size : Nat}

/-- The last selected index on each axis, counted from the start of the selection. -/
def lastCell (slab : Hyperslab) : List Nat := slab.count.map (· - 1)

theorem dot_le_dot : ∀ {xs ys : List Nat} (weights : List Nat), List.Forall₂ (· ≤ ·) xs ys →
    dot xs weights ≤ dot ys weights
  | _, _, weights, .nil => by simp
  | _, _, [], .cons _ _ => by simp
  | _, _, weight :: weights, .cons first rest => by
    rw [dot_cons, dot_cons]
    exact Nat.add_le_add (Nat.mul_le_mul_right weight first) (dot_le_dot weights rest)

theorem cell_le_last : ∀ {start count cell : List Nat}, start.length = count.length → Inside count cell →
    List.Forall₂ (· ≤ ·) (shift start cell) (shift start (count.map (· - 1)))
  | [], [], [], _, _ => .nil
  | s :: start, n :: count, i :: cell, same, inside => by
    obtain ⟨below, rest⟩ := inside_cons.mp inside
    refine .cons ?_ (cell_le_last (Nat.succ.inj same) rest)
    change s + i ≤ s + (n - 1)
    omega

theorem inside_lastCell : ∀ {count : List Nat}, 0 < count.prod → Inside count (count.map (· - 1))
  | [], _ => inside_nil
  | n :: count, positive => by
    rw [List.prod_cons] at positive
    have here : 0 < n := Nat.pos_of_mul_pos_right positive
    exact inside_cons.mpr ⟨Nat.sub_lt here Nat.one_pos, inside_lastCell (Nat.pos_of_mul_pos_left positive)⟩

/-- Where all bytes of the shape have addresses, a selection is stored when its last element is. -/
theorem selectionStored_iff (within : Hyperslab.Within slab.start slab.count dataset.shape)
    (positive : 0 < slab.count.prod) (wide : 0 < dataset.elementSize)
    (room : address + dataset.shape.prod * dataset.elementSize ≤ wordSize) :
    SelectionStored dataset slab address size ↔
      (linear dataset.shape (shift slab.start (lastCell slab)) + 1) * dataset.elementSize ≤ size := by
  have last := inside_lastCell positive
  have offset_lt {cell : List Nat} (inside : Inside slab.count cell) {j : Nat}
    (bound : j < dataset.elementSize) :
      address + trueOffset dataset slab cell j < wordSize := by
    have below := linear_lt (inside_of_within within inside)
    have whole := Transpose.entry_lt below bound
    unfold trueOffset
    omega
  constructor
  · intro stored
    have held := (stored _ last (dataset.elementSize - 1) (by omega)).1
    have small := @offset_lt _ last (dataset.elementSize - 1) (by omega)
    rw [Nat.mod_eq_of_lt (by omega)] at held
    unfold trueOffset lastCell at *
    rw [Nat.succ_mul]
    omega
  · intro stored cell inside j bound
    have small := offset_lt inside bound
    have most := dot_le_dot (RowMajor.strides dataset.shape)
      (cell_le_last (within.lengths.1.trans within.lengths.2.symm) inside)
    rw [← linear_eq_dot, ← linear_eq_dot] at most
    have scaled := Nat.mul_le_mul_right dataset.elementSize most
    rw [Nat.mod_eq_of_lt (by omega)]
    unfold trueOffset lastCell at *
    rw [Nat.succ_mul] at stored
    omega

end Last

section Reads

variable {build : Build} {ctx : Ctx} {remote : AsyncCtx} {codecs : Codecs} {dataset : DatasetIndex}
  {slab : Hyperslab} {address size : Nat} {caches after : Caches} {raw : RawData}

/-- What a read checked before it fetched anything. -/
structure Allowed (dataset : DatasetIndex) (slab : Hyperslab) (total : Nat) : Prop where
  valid : slab.validate dataset.shape = .ok ()
  fits : checkedMul slab.elementCount dataset.elementSize = some total
  allocated : total ≤ isizeMax

theorem readHyperslab_asks (layout : dataset.layout = .contiguous (some address) size)
    (read : readHyperslab build ctx codecs dataset slab caches = (.ok raw, after)) :
    (∃ total, Allowed dataset slab total) ∧ ∃ ranges blobs,
      askedRanges build address dataset.elementSize dataset.shape slab = .ok ranges ∧
      (ranges.mapM fun range => ctx.read range.1 range.2) caches = (.ok blobs, after) := by
  have unwrapped := read
  unfold readHyperslab at unwrapped
  obtain ⟨_, _, checked, _⟩ := Session.bind_eq_ok.mp unwrapped
  have valid := (Session.lift_eq_ok.mp checked).1
  have resolved : resolvedIndex dataset = .ok none := by rw [resolvedIndex, layout]
  obtain ⟨-, total, last, fits, small, copied, -⟩ := (readHyperslab_eq_ok valid resolved).mp read
  rw [readStored, layout] at copied
  exact ⟨⟨total, valid, fits, small⟩, readContiguous_asks copied⟩

theorem readHyperslabAsyncWith_asks (layout : dataset.layout = .contiguous (some address) size)
    (read : readHyperslabAsyncWith build remote codecs dataset slab caches = (.ok raw, after)) :
    (∃ total, Allowed dataset slab total) ∧ ∃ ranges blobs,
      askedRanges build address dataset.elementSize dataset.shape slab = .ok ranges ∧
      fetchBytes build remote (ranges.map fun range => (remote.resolve range.1, range.2)) caches =
        (.ok blobs, after) := by
  unfold readHyperslabAsyncWith at read
  obtain ⟨_, _, checked, read⟩ := Session.bind_eq_ok.mp read
  obtain ⟨valid, rfl⟩ := Session.lift_eq_ok.mp checked
  split at read
  · cases read
  · obtain ⟨total, _, counted, read⟩ := Session.bind_eq_ok.mp read
    obtain ⟨fits, rfl⟩ := Session.lift_eq_ok.mp counted
    obtain ⟨buffer, _, allocated, read⟩ := Session.bind_eq_ok.mp read
    obtain ⟨buffered, rfl⟩ := Session.lift_eq_ok.mp allocated
    obtain ⟨last, _, fetched, read⟩ := Session.bind_eq_ok.mp read
    cases read
    rw [fetchStored, layout] at fetched
    exact ⟨⟨total, valid, Outcome.ofOption_eq_ok.mp fits, (zeroed_eq_ok.mp buffered).1⟩,
      fetchContiguous_asks fetched⟩

/-- A contiguous read that succeeds, in memory or over a network, has asked for the ranges of its runs and for
nothing else. They lie in the stored run exactly when every selected element does. -/
theorem contiguous_inside_iff (layout : dataset.layout = .contiguous (some address) size)
    (word : address < wordSize) (build : Build) (codecs : Codecs) (slab : Hyperslab) (caches : Caches) :
    (∀ ctx raw after, readHyperslab build ctx codecs dataset slab caches = (.ok raw, after) →
      ∃ ranges blobs, askedRanges build address dataset.elementSize dataset.shape slab = .ok ranges ∧
        (ranges.mapM fun range => ctx.read range.1 range.2) caches = (.ok blobs, after) ∧
        ((∀ range ∈ ranges, RangeInside address size range) ↔ SelectionStored dataset slab address size)) ∧
    ∀ remote raw after, readHyperslabAsyncWith build remote codecs dataset slab caches = (.ok raw, after) →
      ∃ ranges blobs, askedRanges build address dataset.elementSize dataset.shape slab = .ok ranges ∧
        fetchBytes build remote (ranges.map fun range => (remote.resolve range.1, range.2)) caches =
          (.ok blobs, after) ∧
        ((∀ range ∈ ranges, RangeInside address size range) ↔
          SelectionStored dataset slab address size) := by
  constructor
  · intro ctx raw after read
    obtain ⟨⟨total, allowed⟩, ranges, blobs, asked, fetched⟩ := readHyperslab_asks layout read
    exact ⟨ranges, blobs, asked, fetched,
      rangesInside_iff word allowed.valid allowed.fits allowed.allocated asked⟩
  · intro remote raw after read
    obtain ⟨⟨total, allowed⟩, ranges, blobs, asked, fetched⟩ := readHyperslabAsyncWith_asks layout read
    exact ⟨ranges, blobs, asked, fetched,
      rangesInside_iff word allowed.valid allowed.fits allowed.allocated asked⟩

/-- A file of four bytes, as an asynchronous source. -/
def fourBytesAsync : AsyncCtx where
  source := syncAsAsync fourBytes.source
  baseAddress := 0
  io := .localFile

/-- Four bytes, of which the layout stores some. -/
def fourOf (size : Nat) : DatasetIndex := .ofBytes [4] (.contiguous (some 0) size) none

def fourRead : RawData := ⟨[1, 2, 3, 4], 1, [4]⟩

theorem fourOf_read (size : Nat) :
    readHyperslab .debug fourBytes .refusing (fourOf size) (.all [4]) ⟨none, none⟩ =
      (.ok fourRead, ⟨none, none⟩) := by
  rfl

theorem fourOf_fetched (size : Nat) :
    readHyperslabAsyncWith .debug fourBytesAsync .refusing (fourOf size) (.all [4]) ⟨none, none⟩ =
      (.ok fourRead, ⟨none, none⟩) := by
  rfl

theorem fourOf_stored (size : Nat) : SelectionStored (fourOf size) (.all [4]) 0 size ↔ 4 ≤ size :=
  @selectionStored_iff (fourOf size) (.all [4]) 0 size ⟨le_refl 4, trivial⟩ (by decide) Nat.one_pos
    (show 0 + 4 * 1 ≤ wordSize by decide)

theorem contiguous_inside_four : ∃ ranges blobs,
    askedRanges .debug 0 1 [4] (.all [4]) = .ok ranges ∧ (∀ range ∈ ranges, RangeInside 0 4 range) ∧
      fetchBytes .debug fourBytesAsync (ranges.map fun range => (fourBytesAsync.resolve range.1, range.2))
        ⟨none, none⟩ = (.ok blobs, ⟨none, none⟩) := by
  obtain ⟨ranges, blobs, asked, answered, inside⟩ := (@contiguous_inside_iff (fourOf 4) 0 4 rfl wordSize_pos
    .debug .refusing (.all [4]) ⟨none, none⟩).2 fourBytesAsync fourRead ⟨none, none⟩ (fourOf_fetched 4)
  exact ⟨ranges, blobs, asked, inside.mpr ((fourOf_stored 4).mpr (le_refl 4)), answered⟩

/-- A dataset of four bytes whose layout stores two: both reads return four, and the last two of them belong
to whatever follows in the file. -/
theorem contiguous_reads_foreign :
    readHyperslab .debug fourBytes .refusing (fourOf 2) (.all [4]) ⟨none, none⟩ =
      (.ok fourRead, ⟨none, none⟩) ∧
    readHyperslabAsyncWith .debug fourBytesAsync .refusing (fourOf 2) (.all [4]) ⟨none, none⟩ =
      (.ok fourRead, ⟨none, none⟩) ∧
    askedRanges .debug 0 1 [4] (.all [4]) = .ok [(0, 4)] ∧ ¬ RangeInside 0 2 (0, 4) := by
  refine ⟨fourOf_read 2, fourOf_fetched 2, rfl, fun inside => ?_⟩
  have third := (inside 2 (by decide)).2
  exact absurd third (by decide)

end Reads

end Oxcdf.Read
