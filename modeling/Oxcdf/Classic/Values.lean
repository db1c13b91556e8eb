import Mathlib.Algebra.Order.BigOperators.Ring.List
import Oxcdf.Classic.SourceAlone
import Oxcdf.Read.Runs

/-! Where the values of a classic variable are stored, and that a read returns them.

A selection is read row by row. A row is what follows without a gap in the file:
the last axis of the selection, or one value where the only axis is the record
axis.
-/

set_option autoImplicit false

namespace Oxcdf.Classic

open Foundation Foundation.Buffer Foundation.RowMajor

section Described

variable (build : Build)

/-- What the parser has made sure of for a variable. -/
structure Described (var : ClassicVariable) : Prop where
  record : var.isRecord = true → var.shape ≠ []
  fixed : var.isRecord = false → ∀ dim ∈ var.shape.head?, 0 < dim
  /-- A checked build refuses a record that is larger than a word. -/
  sized : build = .debug → var.isRecord = true → var.shape.tail.prod * var.ncType.size < wordSize

theorem lookupDimensions_head {name : String} {dimensions : List ClassicDimension} {ids : List Nat}
    {found : List ClassicDimension} (named : lookupDimensions name dimensions ids = .ok found) :
    found.head? = ids.head?.bind fun id => dimensions[id]? := by
  cases ids with
  | nil =>
    cases named
    rfl
  | cons id ids =>
    obtain ⟨d, here, named⟩ := Outcome.bind_eq_ok.mp named
    obtain ⟨rest, -, same⟩ := Outcome.bind_eq_ok.mp named
    cases same
    exact (Outcome.ofOption_eq_ok.mp here).symm

/-- A padded size that a checked build can hold is not saturated. -/
theorem record_lt_of_pad4 {dims : List Nat} {type : NcType} {size : Nat}
    (padded : pad4 .debug (saturatingMul (elementCount dims) type.size) = .ok size) :
    dims.prod * type.size < wordSize := by
  by_contra large
  have positive := size_pos type
  have saturated : saturatingMul (elementCount dims) type.size = wordSize - 1 := by
    rw [elementCount_eq]
    unfold saturatingMul
    rcases Nat.le_total dims.prod (wordSize - 1) with small | big
    · rw [Nat.min_eq_left small]
      omega
    · rw [Nat.min_eq_right big]
      exact Nat.min_eq_right (Nat.le_mul_of_pos_right _ positive)
  rw [saturated, pad4, Build.mul, Build.word_debug_of_le (by decide)] at padded
  cases padded

theorem yields_described {container : Container} {dimensions : List ClassicDimension}
    (lengths : ∀ d ∈ dimensions, d.isUnlimited = false → 0 < d.len) :
    (readVariable build container dimensions).Yields (Described build) := by
  unfold readVariable
  iterate 3 refine Session.Yields.last fun _ => ?_
  rename_i name rank dimIds
  iterate 5 refine Session.Yields.last fun _ => ?_
  rename_i ncType _ begin
  have looked : (Session.lift (lookupDimensions name dimensions dimIds) : Parse _).Yields fun found =>
      lookupDimensions name dimensions dimIds = .ok found := Session.Yields.lift fun _ named => named
  refine looked.bind fun found named => ?_
  have head := lookupDimensions_head named
  dsimp only
  rw [← head]
  have sized : (Session.lift (if found.head?.any ClassicDimension.isUnlimited then
      pad4 build (saturatingMul (elementCount ((found.map ClassicDimension.len).drop 1)) ncType.size)
      else .ok 0) : Parse Nat).Yields fun size =>
        found.head?.any ClassicDimension.isUnlimited = true →
          pad4 build (saturatingMul (elementCount ((found.map ClassicDimension.len).drop 1)) ncType.size) =
            .ok size := by
    refine Session.Yields.lift fun size stored record => ?_
    rwa [if_pos record] at stored
  refine sized.bind fun size padded => Session.Yields.pure ?_
  constructor
  · intro record empty
    obtain rfl : found = [] := List.map_eq_nil_iff.mp empty
    cases record
  · intro fixed dim first
    cases found with
    | nil => cases first
    | cons d rest =>
      obtain ⟨id, -, stored⟩ := Option.bind_eq_some_iff.mp head.symm
      cases first
      exact lengths d (List.mem_of_getElem? stored) fixed
  · rintro rfl record
    rw [← List.drop_one]
    exact record_lt_of_pad4 (padded record)

theorem yields_lengths {container : Container} :
    (readDimensions build container).Yields fun stored =>
      ∀ d ∈ stored, d.isUnlimited = (d.len == 0) := by
  have each : (readDimension build container).Yields fun d => d.isUnlimited = (d.len == 0) := by
    unfold readDimension
    iterate 2 refine Session.Yields.last fun _ => ?_
    exact Session.Yields.pure rfl
  unfold readDimensions
  iterate 2 refine Session.Yields.last fun _ => ?_
  split
  · exact Format.yields_times each _
  · split
    · exact Session.Yields.throw _
    · exact Session.Yields.pure (by simp)

/-- Every variable of a parsed header is described. -/
theorem described_of_parse {buf : Bytes} {container : Container} {header : Header}
    (parsed : Header.parse build buf container = .ok header) : ∀ v ∈ header.vars, Described build v := by
  have yields : (Header.read build container).Yields fun header => ∀ v ∈ header.vars, Described build v := by
    unfold Header.read
    iterate 2 refine Session.Yields.last fun _ => ?_
    rename_i recordCount
    refine (yields_lengths build).bind fun stored lengths => Session.Yields.last fun _ => ?_
    have resolved : ∀ d ∈ stored.map (resolveLength recordCount), d.isUnlimited = false → 0 < d.len := by
      intro d member limited
      obtain ⟨first, here, rfl⟩ := List.mem_map.mp member
      have same := lengths first here
      unfold resolveLength at limited ⊢
      by_cases unlimited : first.isUnlimited = true
      · rw [if_pos unlimited] at limited
        exact absurd (unlimited.symm.trans limited) (by decide)
      · rw [if_neg unlimited] at limited ⊢
        rw [limited] at same
        exact Nat.pos_of_ne_zero fun zero => by simp [zero] at same
    refine (show Session.Yields (fun vars => ∀ v ∈ vars, Described build v) _ from ?_).bind
      fun vars described => Session.Yields.last fun _ => Session.Yields.pure described
    unfold readVariables
    iterate 2 refine Session.Yields.last fun _ => ?_
    split
    · exact Format.yields_times (yields_described build resolved) _
    · split
      · exact Session.Yields.throw _
      · exact Session.Yields.pure (by simp)
  exact yields _ header _ (Prod.ext parsed rfl)

end Described

section Places

variable (recordStride : Nat) (var : ClassicVariable) (slab : Hyperslab)

/-- Where the value at a coordinate is stored. -/
def placeOf (coord : List Nat) : Nat :=
  if var.isRecord then
    var.begin + coord.headD 0 * recordStride + linear var.shape.tail coord.tail * var.ncType.size
  else var.begin + linear var.shape coord * var.ncType.size

/-- The stored values of a selection in row-major order, each in native byte order. -/
def valuesAt (image : FileImage) : Bytes :=
  (cells slab.count).flatMap fun cell =>
    (image.part (placeOf recordStride var (shift slab.start cell)) var.ncType.size).reverse

/-- The variable, or each of its records, ends within the 64 bits of an offset. -/
def Addressed : Prop :=
  if var.isRecord then
    ∀ record < var.shape.headD 0,
      var.begin + record * recordStride + var.shape.tail.prod * var.ncType.size < wordSize
  else var.begin + var.shape.prod * var.ncType.size < wordSize

instance : Decidable (Addressed recordStride var) := by
  unfold Addressed
  infer_instance

def rowAxes : Nat := if var.isRecord ∧ var.shape.length = 1 then 1 else var.shape.length - 1

def rowBox : List Nat := slab.count.take (rowAxes var)

/-- The axis along which a row runs, if there is one. -/
def rowShape : List Nat := slab.count.drop (rowAxes var)

def rowRun (row : List Nat) : Run where
  offset := placeOf recordStride var (shift slab.start (row ++ origin (rowShape var slab)))
  len := (rowShape var slab).prod * var.ncType.size
  dst := linear (rowBox var slab) row * (rowShape var slab).prod

/-- Every row of the selection lies in the file. -/
def RowsHeld (image : FileImage) : Prop :=
  ∀ row ∈ cells (rowBox var slab),
    image.Holds (rowRun recordStride var slab row).offset (rowRun recordStride var slab row).len

instance (image : FileImage) : Decidable (RowsHeld recordStride var slab image) :=
  inferInstanceAs (Decidable (∀ row ∈ _, _))

end Places

section Planned

variable {build : Build} {recordStride : Nat} {var : ClassicVariable} {slab : Hyperslab}

theorem within_prod_le : ∀ {start count shape : List Nat}, Hyperslab.Within start count shape →
    count.prod ≤ shape.prod
  | [], [], [], _ => Nat.le_refl _
  | s :: start, c :: count, dim :: shape, within => by
    rw [List.prod_cons, List.prod_cons]
    exact Nat.mul_le_mul (by have := within.1; omega) (within_prod_le within.2)

/-- A selection has no larger strides than the shape it lies in has elements. -/
theorem within_stride_le : ∀ {start count shape : List Nat}, Hyperslab.Within start count shape →
    0 < shape.prod → ∀ stride ∈ strides count, stride ≤ shape.prod
  | [], [], [], _, _ => by simp
  | s :: start, c :: count, dim :: shape, within, positive => by
    rw [List.prod_cons] at positive ⊢
    have bound : shape.prod ≤ dim * shape.prod := Nat.le_mul_of_pos_left _ (Nat.pos_of_mul_pos_right positive)
    intro stride member
    rcases List.mem_cons.mp member with rfl | member
    · exact (within_prod_le within.2).trans bound
    · exact (within_stride_le within.2 (Nat.pos_of_mul_pos_left positive) stride member).trans bound

theorem within_take_le : ∀ (lead : Nat) {start count shape : List Nat}, Hyperslab.Within start count shape →
    0 < shape.prod → (count.take lead).prod ≤ shape.prod
  | 0, _, _, _, _, positive => positive
  | _ + 1, [], [], [], _, _ => Nat.le_refl _
  | lead + 1, s :: start, c :: count, dim :: shape, within, positive => by
    rw [List.prod_cons] at positive
    rw [List.take_succ_cons, List.prod_cons, List.prod_cons]
    exact Nat.mul_le_mul (by have := within.1; omega)
      (within_take_le lead within.2 (Nat.pos_of_mul_pos_left positive))

theorem rowMajorStrides_eq {shape : List Nat} (small : ∀ stride ∈ strides shape, stride < wordSize) :
    rowMajorStrides build shape = .ok (strides shape) := by
  rw [rowMajorStrides, Read.stridesOf_eq]
  exact Build.words_of_lt build small

/-- A list without its last entry, and that entry. -/
theorem take_drop_last {entries : List Nat} {rank : Nat} (length : entries.length = rank) (ranked : 0 < rank) :
    entries.dropLast = entries.take (rank - 1) ∧ entries.drop (rank - 1) = [entries.getLastD 0] := by
  rcases entries.eq_nil_or_concat with rfl | ⟨front, last, rfl⟩
  · exact absurd length (Nat.ne_of_lt ranked)
  · rw [List.concat_eq_append] at length ⊢
    rw [List.length_append, List.length_singleton] at length
    subst length
    simp

/-- A row of a selection ends before the array does. -/
theorem row_stop_le {start count shape index : List Nat} (within : Hyperslab.Within start count shape)
    (ranked : 0 < shape.length) (inside : Inside (count.take (shape.length - 1)) index) :
    linear shape (shift start (index ++ [0])) + count.getLastD 0 ≤ shape.prod := by
  induction shape generalizing start count index with
  | nil => exact absurd ranked (Nat.lt_irrefl 0)
  | cons dim shape ih =>
    obtain ⟨starts, counts⟩ := within.lengths
    obtain ⟨s, start, rfl⟩ := List.exists_cons_of_length_eq_add_one starts
    obtain ⟨c, count, rfl⟩ := List.exists_cons_of_length_eq_add_one counts
    obtain ⟨room, within⟩ := within
    have sameCount := within.lengths.2
    cases shape with
    | nil =>
      obtain rfl : count = [] := List.length_eq_zero_iff.mp sameCount
      obtain rfl : index = [] := List.length_eq_zero_iff.mp inside.length_eq
      cases start with
      | nil => simpa [linear, shift] using room
      | cons => exact absurd within.lengths.1 (Nat.succ_ne_zero _)
    | cons d shape =>
      cases index with
      | nil => exact absurd inside id
      | cons i index =>
        have first : i < c := inside.1
        have rest := ih within (Nat.succ_pos _) inside.2
        have last : (c :: count).getLastD 0 = count.getLastD 0 := by
          cases count with
          | nil => exact absurd sameCount (Nat.ne_of_lt (Nat.succ_pos _))
          | cons => rfl
        have rows : (s + i + 1) * (d :: shape).prod ≤ dim * (d :: shape).prod :=
          Nat.mul_le_mul_right _ (by omega)
        rw [Nat.succ_mul] at rows
        rw [List.cons_append, shift_cons, linear, last, @List.prod_cons _ _ _ dim]
        omega

/-- The same for the window of a row, which a scalar has as well. -/
theorem row_room_le {start count shape index : List Nat} (within : Hyperslab.Within start count shape)
    (inside : Inside (count.take (shape.length - 1)) index) :
    linear shape (shift start (index ++ origin (count.drop (shape.length - 1)))) +
      (count.drop (shape.length - 1)).prod ≤ shape.prod := by
  obtain ⟨sameStart, sameCount⟩ := within.lengths
  rcases Nat.eq_zero_or_pos shape.length with scalar | ranked
  · obtain rfl : shape = [] := List.length_eq_zero_iff.mp scalar
    obtain rfl : start = [] := List.length_eq_zero_iff.mp sameStart
    obtain rfl : count = [] := List.length_eq_zero_iff.mp sameCount
    simp [linear]
  · obtain ⟨-, last⟩ := take_drop_last sameCount ranked
    rw [last, List.prod_singleton]
    exact row_stop_le within ranked inside

theorem row_output_le {count index : List Nat} {axes : Nat} (inside : Inside (count.take axes) index) :
    linear (count.take axes) index * (count.drop axes).prod + (count.drop axes).prod ≤ count.prod := by
  have whole : (count.take axes).prod * (count.drop axes).prod = count.prod := by
    rw [← List.prod_append, List.take_append_drop]
  rw [← whole, ← Nat.succ_mul]
  exact Nat.mul_le_mul_right _ (linear_lt inside)

/-- One request for an element whose number is put into a word: so is its address. -/
theorem runAt_word {base n run dst size : Nat} (len : run * size < wordSize) (word : base < wordSize)
    (typed : 0 < size) :
    (build.word n >>= fun src => runAt build base src run dst size) =
      build.word (base + n * size) >>= fun offset => .ok ⟨offset, run * size, dst⟩ := by
  have product : ∀ rest : Nat → Code Run,
      (build.word n >>= fun src => build.mul src size >>= rest) = build.word (n * size) >>= rest := by
    intro rest
    rw [← Build.word_bind_mul build n size typed, bind_assoc]
    rfl
  unfold runAt
  simp only [Build.mul, Build.word_of_lt build len, Outcome.ok_bind]
  rw [← Build.word_bind_add_word build word, bind_assoc]
  exact product _

/-- The request of one row of an array that starts at `base`, and whose output starts at element
`first`. -/
theorem row_step {start count shape index : List Nat} {first base size : Nat}
    (within : Hyperslab.Within start count shape) (stops : ∀ stop ∈ shift start count, stop < wordSize)
    (typed : 0 < size) (inside : Inside (count.take (shape.length - 1)) index) (word : base < wordSize)
    (bytes : (count.drop (shape.length - 1)).prod * size < wordSize) (places : first + count.prod < wordSize) :
    (do
      let (src, dst) ← position build start index (strides shape) (strides count) (0, first)
      let src ← if shape.length > 0 then build.add src (start.getLastD 0) else .ok src
      runAt build base src (count.drop (shape.length - 1)).prod dst size) =
    build.word (base + linear shape (shift start (index ++ origin (count.drop (shape.length - 1)))) * size) >>=
      fun offset => .ok ⟨offset, (count.drop (shape.length - 1)).prod * size,
        first + linear (count.take (shape.length - 1)) index * (count.drop (shape.length - 1)).prod⟩ := by
  obtain ⟨sameStart, sameCount⟩ := within.lengths
  have room := row_output_le inside
  by_cases scalar : shape.length = 0
  · obtain rfl : shape = [] := List.length_eq_zero_iff.mp scalar
    obtain rfl : start = [] := List.length_eq_zero_iff.mp sameStart
    obtain rfl : count = [] := List.length_eq_zero_iff.mp sameCount
    obtain rfl : index = [] := List.length_eq_zero_iff.mp inside.length_eq
    have request := @runAt_word build base 0 1 first size (by simpa using bytes) word typed
    rw [Build.word_of_lt build wordSize_pos, Outcome.ok_bind] at request
    simpa [position, linear] using request
  · have ranked := Nat.pos_of_ne_zero scalar
    obtain ⟨-, last⟩ := take_drop_last sameCount ranked
    have long : index.length + 1 = shape.length := by
      rw [inside.length_eq, List.length_take, sameCount]
      omega
    have run : (count.drop (shape.length - 1)).prod = count.getLastD 0 := by rw [last, List.prod_singleton]
    have weights : dot index (strides count) =
        linear (count.take (shape.length - 1)) index * (count.drop (shape.length - 1)).prod := by
      have regrouped := dot_strides_append (count.drop (shape.length - 1)) inside.length_eq
      rwa [List.take_append_drop] at regrouped
    have zero : origin (count.drop (shape.length - 1)) = [0] := by
      rw [last]
      rfl
    rw [Read.position_eq build (by omega) (by rw [strides_length]; omega) (by rw [strides_length]; omega)
      (Hyperslab.shift_lt_of_inside _ stops inside) wordSize_pos (by omega), Nat.zero_add, weights,
      Build.word_of_lt build (n := first + _) (by omega)]
    simp only [Outcome.ok_bind, bind_assoc, gt_iff_lt, if_pos ranked]
    rw [Build.word_then_add, zero, ← linear_shift_last sameStart long, runAt_word bytes word typed]

/-- The request of one row, where its address does not leave a word. -/
theorem row_request {start count shape index : List Nat} {first base size : Nat}
    (within : Hyperslab.Within start count shape) (stops : ∀ stop ∈ shift start count, stop < wordSize)
    (typed : 0 < size) (inside : Inside (count.take (shape.length - 1)) index)
    (stop : base + shape.prod * size < wordSize) (places : first + count.prod < wordSize) :
    (do
      let (src, dst) ← position build start index (strides shape) (strides count) (0, first)
      let src ← if shape.length > 0 then build.add src (start.getLastD 0) else .ok src
      runAt build base src (count.drop (shape.length - 1)).prod dst size) =
    .ok ⟨base + linear shape (shift start (index ++ origin (count.drop (shape.length - 1)))) * size,
      (count.drop (shape.length - 1)).prod * size,
      first + linear (count.take (shape.length - 1)) index * (count.drop (shape.length - 1)).prod⟩ := by
  have room := Nat.mul_le_mul_right size (row_room_le within inside)
  rw [Nat.add_mul] at room
  rw [row_step within stops typed inside (by omega) (by omega) places,
    Build.word_of_lt build (by omega), Outcome.ok_bind]

section Fixed

theorem rowAxes_fixed (fixed : var.isRecord = false) : rowAxes var = var.shape.length - 1 :=
  if_neg (by simp [fixed])

theorem rowRun_fixed (fixed : var.isRecord = false) (row : List Nat) :
    rowRun recordStride var slab row =
      ⟨var.begin + linear var.shape (shift slab.start (row ++ origin (slab.count.drop (var.shape.length - 1)))) *
          var.ncType.size,
        (slab.count.drop (var.shape.length - 1)).prod * var.ncType.size,
        linear (slab.count.take (var.shape.length - 1)) row * (slab.count.drop (var.shape.length - 1)).prod⟩ := by
  have value : ∀ coord, placeOf recordStride var coord =
      var.begin + linear var.shape coord * var.ncType.size := fun _ => if_neg (by simp [fixed])
  rw [rowRun, rowShape, rowBox, rowAxes_fixed fixed, value]

theorem fixedRuns_scalar (fixed : var.isRecord = false) (scalar : var.shape = []) (empty : slab.count = []) :
    fixedRuns build var slab var.ncType.size = .ok [.ok (rowRun recordStride var slab [])] := by
  have none : (rowMajorStrides build [] : Code (List Nat)) = .ok [] := rfl
  unfold fixedRuns
  rw [rowRun_fixed fixed, scalar, empty, none, Outcome.ok_bind, Outcome.ok_bind]
  simp [linear]

/-- The rows of a fixed-size variable with axes, in the order of the odometer of the leading ones. -/
theorem fixedRuns_eq_orbit (fixed : var.isRecord = false) (ranked : 0 < var.shape.length)
    (same : slab.count.length = var.shape.length) {srcStrides dstStrides : List Nat}
    (weights : rowMajorStrides build var.shape = .ok srcStrides)
    (dstWeights : rowMajorStrides build slab.count = .ok dstStrides) :
    fixedRuns build var slab var.ncType.size =
      .ok ((orbit (rowBox var slab) (elementCount (rowBox var slab)) (origin (rowBox var slab))).map
        fun index => do
          let (src, dst) ← position build slab.start index srcStrides dstStrides (0, 0)
          let src ← build.add src (slab.start.getLastD 0)
          runAt build var.begin src (slab.count.drop (var.shape.length - 1)).prod dst var.ncType.size) := by
  obtain ⟨lead, last⟩ := take_drop_last same ranked
  have box : slab.count.dropLast = rowBox var slab := by rw [lead, rowBox, rowAxes_fixed fixed]
  have passes : max (elementCount (rowBox var slab)) (if var.shape.length = 1 then 1 else 0) =
      elementCount (rowBox var slab) := by
    split
    · next one =>
      have none : rowBox var slab = [] := by rw [rowBox, rowAxes_fixed fixed, one, List.take_zero]
      rw [none]
      rfl
    · exact Nat.max_eq_left (Nat.zero_le _)
  have run : (slab.count.drop (var.shape.length - 1)).prod = slab.count.getLastD 0 := by
    rw [last, List.prod_singleton]
  unfold fixedRuns
  rw [weights, Outcome.ok_bind, dstWeights, Outcome.ok_bind]
  dsimp only
  rw [if_neg (Nat.ne_of_gt ranked), box, passes, run]

/-- The rows of a fixed-size variable, when no offset of it overflows. -/
theorem fixedRuns_eq (fixed : var.isRecord = false) (positive : 0 < var.shape.prod)
    (addressed : Addressed recordStride var) (valid : slab.validate var.shape = .ok ()) :
    fixedRuns build var slab var.ncType.size =
      .ok ((cells (rowBox var slab)).map fun row => .ok (rowRun recordStride var slab row)) := by
  obtain ⟨within, stops⟩ := Hyperslab.within_of_validate valid
  obtain ⟨sameStart, sameCount⟩ := within.lengths
  have typed := size_pos var.ncType
  rw [Addressed, if_neg (by simp [fixed])] at addressed
  have small : var.shape.prod < wordSize :=
    lt_of_le_of_lt ((Nat.le_mul_of_pos_right _ typed).trans (Nat.le_add_left _ _)) addressed
  have weights := @rowMajorStrides_eq build var.shape fun stride member =>
    lt_of_le_of_lt (stride_le_prod positive stride member) small
  have dstWeights := @rowMajorStrides_eq build slab.count fun stride member =>
    lt_of_le_of_lt (within_stride_le within positive stride member) small
  rcases Nat.eq_zero_or_pos var.shape.length with scalar | ranked
  · obtain empty : slab.count = [] := List.length_eq_zero_iff.mp (sameCount.trans scalar)
    rw [fixedRuns_scalar fixed (List.length_eq_zero_iff.mp scalar) empty, rowBox, empty, List.take_nil, cells]
    rfl
  · have boxSmall : (rowBox var slab).prod < wordSize :=
      lt_of_le_of_lt (within_take_le _ within positive) small
    rw [fixedRuns_eq_orbit fixed ranked sameCount weights dstWeights, elementCount_of_lt boxSmall, orbit_origin]
    refine congrArg Outcome.ok (List.map_congr_left fun row member => ?_)
    have inside := mem_cells.mp member
    rw [rowBox, rowAxes_fixed fixed] at inside
    have request := @row_request build _ _ _ _ 0 _ _ within stops typed inside addressed
      (by have := within_prod_le within; omega)
    simp only [gt_iff_lt, if_pos ranked, Nat.zero_add] at request
    rw [rowRun_fixed fixed]
    exact request

end Fixed

theorem rowMajorStrides_release (shape : List Nat) :
    ∃ found, rowMajorStrides .release shape = .ok found := by
  rw [rowMajorStrides, Read.stridesOf_eq, Build.words_release]
  exact ⟨_, rfl⟩

section Record

variable {n s c : Nat} {inner start count : List Nat}

/-- The rows of a record variable are told apart by the record and by the leading
axes within it. -/
theorem rowAxes_record (record : var.isRecord = true) (shape : var.shape = n :: inner)
    (within : Hyperslab.Within start count inner) :
    (c :: count).take (rowAxes var) = c :: count.take (inner.length - 1) ∧
      (c :: count).drop (rowAxes var) = count.drop (inner.length - 1) := by
  have length := within.lengths.2
  unfold rowAxes
  rw [shape, List.length_cons]
  by_cases flat : inner.length = 0
  · have none : count = [] := List.length_eq_zero_iff.mp (length.trans flat)
    simp [flat, none, record]
  · have one : inner.length + 1 ≠ 1 := by omega
    obtain ⟨rank, more⟩ := Nat.exists_eq_succ_of_ne_zero flat
    rw [if_neg (fun both => one both.2), more]
    simp

theorem innerShape_eq (n : Nat) (inner : List Nat) :
    (range (n :: inner) 1 (inner.length + 1) : Code (List Nat)) = .ok inner := by
  have tail := @range_of_le Nat Error (n :: inner) 1 inner.length (by rw [List.length_cons]; omega)
  rw [Nat.add_comm 1] at tail
  rw [tail, slice, List.drop_one, List.tail_cons, List.take_length]

/-- The rows of a record variable, record after record and each in the order of the odometer of the leading
axes within it. -/
theorem recordRuns_eq_orbit (shape : var.shape = n :: inner) (same : count.length = inner.length)
    {innerStrides dstStrides : List Nat} (weights : rowMajorStrides build inner = .ok innerStrides)
    (dstWeights : rowMajorStrides build (c :: count) = .ok dstStrides) :
    recordRuns build recordStride var ⟨s :: start, c :: count⟩ var.ncType.size =
      .ok ((List.range c).flatMap fun record => Outcome.steps do
        let recordIndex ← build.add s record
        let skip ← build.mul recordIndex recordStride
        let base ← build.add var.begin skip
        .ok ((orbit (count.take (inner.length - 1)) (elementCount (count.take (inner.length - 1)))
            (origin (count.take (inner.length - 1)))).map fun index => do
          let first ← build.mul record (dstStrides.headD 0)
          let (src, dst) ← position build start index innerStrides (dstStrides.drop 1) (0, first)
          let src ← if inner.length > 0 then build.add src ((s :: start).getLastD 0) else .ok src
          runAt build base src (count.drop (inner.length - 1)).prod dst var.ncType.size)) := by
  have box : (((c :: count).drop 1).dropLast) = count.take (inner.length - 1) := by
    rw [List.drop_one, List.tail_cons, List.dropLast_eq_take, same]
  have run : (if inner.length + 1 = 1 then 1 else (c :: count).getLastD 0) =
      (count.drop (inner.length - 1)).prod := by
    by_cases flat : inner.length = 0
    · have none : count = [] := List.length_eq_zero_iff.mp (same.trans flat)
      rw [if_pos (by omega), none, List.drop_nil, List.prod_nil]
    · have ranked := Nat.pos_of_ne_zero flat
      obtain ⟨-, last⟩ := take_drop_last same ranked
      rw [if_neg (by omega), last, List.prod_singleton]
      cases count with
      | nil => exact absurd same (Nat.ne_of_lt ranked)
      | cons => rfl
  have passes : (if inner.length ≤ 1 then 1 else elementCount (count.take (inner.length - 1))) =
      elementCount (count.take (inner.length - 1)) := by
    split
    · next flat =>
      have none : inner.length - 1 = 0 := by omega
      rw [none, List.take_zero]
      rfl
    · rfl
  unfold recordRuns
  dsimp only
  rw [shape, List.length_cons, innerShape_eq, Outcome.ok_bind, weights, Outcome.ok_bind, dstWeights,
    Outcome.ok_bind, box, run, passes]
  rfl

/-- Where a row lies behind the start of its record. -/
def rowSkip (size : Nat) (inner start count row : List Nat) : Nat :=
  linear inner (shift start (row ++ origin (count.drop (inner.length - 1)))) * size

theorem rowRun_record (record : var.isRecord = true) (shape : var.shape = n :: inner)
    (within : Hyperslab.Within start count inner) (r : Nat) (row : List Nat) :
    rowRun recordStride var ⟨s :: start, c :: count⟩ (r :: row) =
      ⟨var.begin + (s + r) * recordStride + rowSkip var.ncType.size inner start count row,
        (count.drop (inner.length - 1)).prod * var.ncType.size,
        r * count.prod + linear (count.take (inner.length - 1)) row *
        (count.drop (inner.length - 1)).prod⟩ := by
  obtain ⟨box, rest⟩ := @rowAxes_record var n c inner start count record shape within
  have product : (count.take (inner.length - 1)).prod * (count.drop (inner.length - 1)).prod = count.prod := by
    rw [← List.prod_append, List.take_append_drop]
  unfold rowRun rowShape rowBox placeOf
  dsimp only
  rw [box, rest, if_pos record, shape, linear, Nat.add_mul, Nat.mul_assoc, product]
  rfl

/-- Without records there are no rows, and then the strides of one record may be anything. -/
theorem recordRuns_none (shape : var.shape = n :: inner) (within : Hyperslab.Within start count inner)
    (positive : 0 < inner.prod) (sized : build = .debug → inner.prod * var.ncType.size < wordSize) :
    recordRuns build recordStride var ⟨s :: start, 0 :: count⟩ var.ncType.size = .ok [] := by
  have small (debug : build = .debug) : inner.prod < wordSize :=
    lt_of_le_of_lt (Nat.le_mul_of_pos_right _ (size_pos var.ncType)) (sized debug)
  obtain ⟨innerStrides, weights⟩ : ∃ found, rowMajorStrides build inner = .ok found := by
    cases build with
    | release => exact rowMajorStrides_release inner
    | debug =>
      exact ⟨_, rowMajorStrides_eq fun stride member =>
        lt_of_le_of_lt (stride_le_prod positive stride member) (small rfl)⟩
  obtain ⟨dstStrides, dstWeights⟩ : ∃ found, rowMajorStrides build (0 :: count) = .ok found := by
    cases build with
    | release => exact rowMajorStrides_release _
    | debug =>
      refine ⟨_, rowMajorStrides_eq fun stride member => ?_⟩
      rcases List.mem_cons.mp member with rfl | member
      · exact lt_of_le_of_lt (within_prod_le within) (small rfl)
      · exact lt_of_le_of_lt (within_stride_le within positive stride member) (small rfl)
  rw [recordRuns_eq_orbit shape within.lengths.2 weights dstWeights]
  rfl

/-- The rows of a record variable, when no offset of it overflows. -/
theorem recordRuns_eq (described : Described build var) (record : var.isRecord = true)
    (positive : 0 < var.shape.tail.prod) (addressed : Addressed recordStride var)
    (valid : slab.validate var.shape = .ok ()) (outputs : slab.count.prod < wordSize) :
    recordRuns build recordStride var slab var.ncType.size =
      .ok ((cells (rowBox var slab)).map fun row => .ok (rowRun recordStride var slab row)) := by
  obtain ⟨within, stops⟩ := Hyperslab.within_of_validate valid
  obtain ⟨n, inner, shape⟩ := List.exists_cons_of_ne_nil (described.record record)
  obtain ⟨start, count⟩ := slab
  have sized := fun debug => described.sized debug record
  rw [Addressed, if_pos record] at addressed
  rw [shape] at within positive addressed sized
  dsimp only at within stops outputs
  obtain ⟨starts, counts⟩ := within.lengths
  obtain ⟨s, start, rfl⟩ := List.exists_cons_of_length_eq_add_one starts
  obtain ⟨c, count, rfl⟩ := List.exists_cons_of_length_eq_add_one counts
  obtain ⟨room, within⟩ := within
  obtain ⟨box, -⟩ := @rowAxes_record var n c inner start count record shape within
  have typed := size_pos var.ncType
  change 0 < inner.prod at positive
  rw [rowBox]
  dsimp only
  rw [box]
  rcases Nat.eq_zero_or_pos c with rfl | some
  · rw [recordRuns_none shape within positive sized]
    rfl
  -- The first selected record is stored, so that one record is within a word.
  · have first := addressed s (by change s < n; omega)
    have small : inner.prod < wordSize := by
      have bytes := Nat.le_mul_of_pos_right inner.prod typed
      change _ + inner.prod * _ < _ at first
      omega
    have weights := @rowMajorStrides_eq build inner fun stride member =>
      lt_of_le_of_lt (stride_le_prod positive stride member) small
    have dstWeights := @rowMajorStrides_eq build (c :: count) fun stride member => by
      rcases List.mem_cons.mp member with rfl | member
      · exact lt_of_le_of_lt (within_prod_le within) small
      · exact lt_of_le_of_lt (within_stride_le within positive stride member) small
    rw [recordRuns_eq_orbit shape within.lengths.2 weights dstWeights,
      elementCount_of_lt (lt_of_le_of_lt (within_take_le _ within positive) small), orbit_origin, cells,
      List.map_flatMap]
    refine congrArg Outcome.ok (List.flatMap_congr fun r listed => ?_)
    have before := List.mem_range.mp listed
    have stored := addressed (s + r) (by change s + r < n; omega)
    change var.begin + (s + r) * recordStride + inner.prod * var.ncType.size < wordSize at stored
    rw [List.prod_cons] at outputs
    have firsts : r * count.prod + count.prod ≤ c * count.prod := by
      rw [← Nat.succ_mul]
      exact Nat.mul_le_mul_right _ before
    have last := stops (s + c) (by simp)
    rw [Build.add, Build.word_of_lt build (by omega), Outcome.ok_bind, Build.mul,
      Build.word_of_lt build (by omega),
      Outcome.ok_bind, Build.add, Build.word_of_lt build (by omega), Outcome.ok_bind,
      Outcome.steps, List.map_map]
    refine List.map_congr_left fun index member => ?_
    have inside := mem_cells.mp member
    have request := @row_request build start count inner index (r * count.prod) _ _ within
      (fun stop later => stops stop (by simp [later])) typed inside stored (by omega)
    rw [Build.mul, strides_cons, List.headD_cons, Build.word_of_lt build (by omega), Outcome.ok_bind,
      List.drop_one, List.tail_cons]
    rw [Function.comp_apply, rowRun_record record shape within, rowSkip, ← request]
    by_cases ranked : inner.length > 0
    · obtain ⟨t, others, rfl⟩ := List.exists_cons_of_length_pos (within.lengths.1 ▸ ranked)
      rfl
    · simp only [if_neg ranked]

end Record

end Planned

section Returned

variable {build : Build} {recordStride elementSize width : Nat} {var : ClassicVariable} {slab : Hyperslab}
  {image : FileImage} {file : ClassicFile}

/-- Over its own source, a read through the source of the file is the same. -/
theorem readRuns_stored (source : ByteSource) (runs : List (Code Run)) : ∀ out : Bytes,
    (readRuns build elementSize (fun offset len => Walk.lift (source.readVec offset len)) runs out).against
        source =
      (readRuns build elementSize Walk.readVec runs out).against source := by
  induction runs with
  | nil => exact fun _ => rfl
  | cons next runs ih =>
    intro out
    simp only [readRuns, Walk.against_bind, Walk.against_lift, Walk.against_readVec, ih]

theorem readSelection_eq (file : ClassicFile) :
    file.readSelection build var slab =
      (plan build file.recordStride var slab >>= fun planned =>
        (readRuns build var.ncType.size Walk.readVec planned.1 planned.2).against file.source >>= fun out =>
          .ok (native var.ncType.size out)) := by
  unfold ClassicFile.readSelection
  rw [readSelectionWith_eq, readPlan, Walk.against_bind, Walk.against_lift]
  apply bind_congr
  intro planned
  rw [Walk.against_bind, ClassicFile.reader]
  split
  · rfl
  · rw [readRuns_stored]
    rfl

/-- Rows of one width whose places follow each other fill the output one after
the other. -/
theorem readRuns_rows {runs : List Run} : ∀ {front rest : Bytes},
    (∀ k run, runs[k]? = some run → image.Holds run.offset run.len ∧ run.len = width ∧
      run.dst * elementSize = front.length + k * width) →
    rest.length = runs.length * width → front.length + rest.length < wordSize →
    (readRuns build elementSize Walk.readVec (runs.map .ok) (front ++ rest)).against (fileSource image) =
      .ok (front ++ runs.flatMap fun run => image.part run.offset run.len) := by
  induction runs with
  | nil =>
    intro front rest _ long _
    obtain rfl : rest = [] := List.length_eq_zero_iff.mp (by simpa using long)
    rfl
  | cons run runs ih =>
    intro front rest rows long small
    obtain ⟨held, wide, dst⟩ := rows 0 run rfl
    rw [List.length_cons, Nat.succ_mul] at long
    rw [Nat.zero_mul, Nat.add_zero] at dst
    have bytes : (image.part run.offset run.len).length = width := (FileImage.part_length held).trans wide
    have read : (fileSource image).readVec run.offset run.len = .ok (image.part run.offset run.len) :=
      (fileSource_readVec image _ _ held.le_isizeMax).trans (if_pos held)
    have placed : place build elementSize run (image.part run.offset run.len) (front ++ rest) =
        .ok ((front ++ image.part run.offset run.len) ++ rest.drop width) := by
      rw [place, Build.mul, dst, Build.word_of_lt build (by omega), Outcome.ok_bind, Build.add,
        Build.word_of_lt build (by omega), Outcome.ok_bind, copyInto,
        if_pos (by rw [List.length_append]; omega), splice, bytes, List.take_left, List.drop_length_add_append]
    have later := @ih (front ++ image.part run.offset run.len) (rest.drop width) (fun k next found => by
      obtain ⟨held, wide, dst⟩ := rows (k + 1) next found
      rw [List.length_append, bytes, dst, Nat.succ_mul]
      exact ⟨held, wide, by omega⟩) (by rw [List.length_drop]; omega)
      (by rw [List.length_append, List.length_drop]; omega)
    rw [List.map_cons, readRuns, Walk.lift_ok_bind, Walk.against_bind, Walk.against_readVec, read,
      Outcome.ok_bind, placed, Walk.lift_ok_bind, later, List.flatMap_cons, List.append_assoc]

/-- The values of a row lie one behind the other. -/
theorem placeOf_row (described : Described build var)
    (within : Hyperslab.Within slab.start slab.count var.shape)
    {row cell : List Nat} (inside : Inside (rowBox var slab) row) (along : Inside (rowShape var slab) cell) :
    placeOf recordStride var (shift slab.start (row ++ cell)) =
      (rowRun recordStride var slab row).offset + linear (rowShape var slab) cell * var.ncType.size := by
  obtain ⟨sameStart, sameCount⟩ := within.lengths
  have axes : rowAxes var ≤ var.shape.length := by
    unfold rowAxes
    split <;> omega
  have rowLength : row.length = rowAxes var := by
    rw [inside.length_eq, rowBox, List.length_take, sameCount, Nat.min_eq_left axes]
  have rest : (rowShape var slab).length = var.shape.length - rowAxes var := by
    rw [rowShape, List.length_drop, sameCount]
  have single : (rowShape var slab).length ≤ 1 := by
    rw [rest]
    unfold rowAxes
    split <;> omega
  have cellLength := along.length_eq
  unfold rowRun placeOf
  by_cases record : var.isRecord = true
  · -- The first axis of a record variable is among those that tell its rows apart.
    obtain ⟨n, inner, shape⟩ := List.exists_cons_of_ne_nil (described.record record)
    have first : 0 < rowAxes var := by
      unfold rowAxes
      rw [shape, List.length_cons]
      split
      · exact Nat.one_pos
      · next several =>
        have more : inner.length + 1 ≠ 1 := fun one => several ⟨record, one⟩
        omega
    obtain ⟨r, row, rfl⟩ := List.exists_cons_of_length_pos (rowLength ▸ first)
    obtain ⟨s, start, begins⟩ := @List.exists_cons_of_length_pos _ slab.start
      (by rw [sameStart, shape]; exact Nat.succ_pos _)
    rw [shape, List.length_cons] at rest sameStart
    rw [begins, List.length_cons] at sameStart
    rw [List.length_cons] at rowLength
    have bound := shape ▸ axes
    rw [List.length_cons] at bound
    have numbered := @linear_row_cell _ _ row _ _ (Nat.succ.inj sameStart) (by omega) cellLength
    have along : linear (inner.drop row.length) cell = linear (rowShape var slab) cell :=
      linear_of_single (by rw [List.length_drop]; omega) single
    rw [if_pos record, if_pos record, begins, shape]
    simp only [List.cons_append, shift_cons, List.headD_cons, List.tail_cons]
    rw [numbered, along, @Nat.add_mul (linear inner _) _ _, Nat.add_assoc _ (linear inner _ * _) _]
  · have numbered := @linear_row_cell _ _ row _ _ sameStart (by omega) cellLength
    have along : linear (var.shape.drop row.length) cell = linear (rowShape var slab) cell :=
      linear_of_single (by rw [List.length_drop]; omega) single
    rw [if_neg record, if_neg record, numbered, along, Nat.add_mul, Nat.add_assoc]

theorem rows_values (described : Described build var)
    (within : Hyperslab.Within slab.start slab.count var.shape) :
    ((cells (rowBox var slab)).flatMap fun row =>
        image.part (rowRun recordStride var slab row).offset (rowRun recordStride var slab row).len) =
      (cells slab.count).flatMap fun cell =>
        image.part (placeOf recordStride var (shift slab.start cell)) var.ncType.size := by
  have split : slab.count = rowBox var slab ++ rowShape var slab := (List.take_append_drop _ _).symm
  rw [split, cells_append, List.flatMap_assoc]
  refine List.flatMap_congr fun row member => ?_
  have inside := mem_cells.mp member
  rw [FileImage.part, rowRun, Paging.slice_blocks, ← map_linear_cells, List.flatMap_map, List.flatMap_map]
  refine List.flatMap_congr fun cell listed => ?_
  rw [placeOf_row described within inside (mem_cells.mp listed)]
  rfl

theorem native_values {values : List (List Nat)} {value : List Nat → Bytes}
    (long : ∀ cell ∈ values, (value cell).length = var.ncType.size) :
    native var.ncType.size (values.flatMap value) = values.flatMap fun cell => (value cell).reverse := by
  have typed := size_pos var.ncType
  unfold native
  split
  · exact reverseBlocks_flatMap typed long
  · next single =>
    refine List.flatMap_congr fun cell member => ?_
    obtain ⟨byte, only⟩ := List.length_eq_one_iff.mp ((long cell member).trans (by omega))
    rw [only, List.reverse_singleton]

/-- Every value of a row that lies in the file lies in it. -/
theorem value_length (described : Described build var)
    (within : Hyperslab.Within slab.start slab.count var.shape) (held : RowsHeld recordStride var slab image)
    {cell : List Nat} (inside : Inside slab.count cell) :
    (image.part (placeOf recordStride var (shift slab.start cell)) var.ncType.size).length =
      var.ncType.size := by
  obtain ⟨row, along⟩ := inside.split (rowAxes var)
  have stored := held _ (mem_cells.mpr row)
  have place := @placeOf_row _ recordStride _ _ described within _ _ row along
  have before := Nat.mul_le_mul_right var.ncType.size (linear_lt along)
  rw [List.take_append_drop] at place
  rw [Nat.succ_mul] at before
  apply FileImage.part_length
  unfold FileImage.Holds at stored ⊢
  rw [place]
  exact le_trans (by rw [Nat.add_assoc]; exact Nat.add_le_add_left before _) stored

/-- Rows in the file are read, and no part of the output is left. -/
theorem readRuns_rowsHeld (described : Described build var)
    (within : Hyperslab.Within slab.start slab.count var.shape)
    (fits : slab.count.prod * var.ncType.size ≤ isizeMax) (held : RowsHeld recordStride var slab image) :
    (readRuns build var.ncType.size Walk.readVec
        ((cells (rowBox var slab)).map fun row => .ok (rowRun recordStride var slab row))
        (List.replicate (slab.count.prod * var.ncType.size) 0)).against (fileSource image) =
      .ok ((cells slab.count).flatMap fun cell =>
        image.part (placeOf recordStride var (shift slab.start cell)) var.ncType.size) := by
  have words := isizeMax_lt_wordSize
  have product : (rowBox var slab).prod * (rowShape var slab).prod = slab.count.prod := by
    rw [← List.prod_append, rowBox, rowShape, List.take_append_drop]
  have places : ∀ k run, ((cells (rowBox var slab)).map (rowRun recordStride var slab))[k]? = some run →
      image.Holds run.offset run.len ∧ run.len = (rowShape var slab).prod * var.ncType.size ∧
        run.dst * var.ncType.size =
          ([] : Bytes).length + k * ((rowShape var slab).prod * var.ncType.size) := by
    intro k run found
    rw [List.getElem?_map, Option.map_eq_some_iff] at found
    obtain ⟨row, listed, rfl⟩ := found
    refine ⟨held row (List.mem_of_getElem? listed), rfl, ?_⟩
    rw [rowRun, linear_getElem?_cells listed, Nat.mul_assoc, List.length_nil, Nat.zero_add]
  have read := @readRuns_rows build _ _ _ _ [] (List.replicate (slab.count.prod * var.ncType.size) 0)
    places (by rw [List.length_replicate, List.length_map, cells_length, ← product, Nat.mul_assoc])
    (by rw [List.length_nil, List.length_replicate]; omega)
  rwa [List.map_map, List.nil_append, List.nil_append, List.flatMap_map, rows_values described within] at read

/-- A planned output has room in memory. -/
theorem room_of_plan {runs : List (Code Run)} {out : Bytes}
    (planned : plan build recordStride var slab = .ok (runs, out)) :
    slab.count.prod * var.ncType.size ≤ isizeMax := by
  obtain ⟨-, -, planned⟩ := Outcome.bind_eq_ok.mp planned
  obtain ⟨total, counted, planned⟩ := Outcome.bind_eq_ok.mp planned
  obtain ⟨out, stored, -⟩ := Outcome.bind_eq_ok.mp planned
  obtain ⟨rfl, -⟩ := checkedMul_eq_some (Outcome.ofOption_eq_ok.mp counted)
  obtain ⟨small, -⟩ := zeroed_eq_ok.mp stored
  rw [Hyperslab.elementCount, elementCount_eq] at small
  rcases Nat.le_total slab.count.prod (wordSize - 1) with few | many
  · rwa [Nat.min_eq_left few] at small
  · -- A count that saturates leaves no room.
    rw [Nat.min_eq_right many] at small
    have large := Nat.le_mul_of_pos_right (wordSize - 1) (size_pos var.ncType)
    exact absurd (large.trans small) (by decide)

theorem plan_rows (described : Described build var) (axes : ∀ dim ∈ var.shape.tail, 0 < dim)
    (addressed : Addressed recordStride var) (valid : slab.validate var.shape = .ok ())
    (fits : slab.count.prod * var.ncType.size ≤ isizeMax) :
    plan build recordStride var slab =
      .ok ((cells (rowBox var slab)).map fun row => .ok (rowRun recordStride var slab row),
        List.replicate (slab.count.prod * var.ncType.size) 0) := by
  have words := isizeMax_lt_wordSize
  have few : slab.count.prod < wordSize :=
    lt_of_le_of_lt ((Nat.le_mul_of_pos_right _ (size_pos var.ncType)).trans fits) words
  have total : checkedMul slab.elementCount var.ncType.size = some (slab.count.prod * var.ncType.size) := by
    rw [Hyperslab.elementCount, elementCount_of_lt few, checkedMul, if_pos (by omega)]
  have inner : 0 < var.shape.tail.prod := CanonicallyOrderedAdd.list_prod_pos.mpr axes
  rw [plan, valid, Outcome.ok_bind, total, Outcome.ofOption_some, Outcome.ok_bind, zeroed_of_le fits,
    Outcome.ok_bind]
  by_cases record : var.isRecord = true
  · rw [if_pos record, recordRuns_eq described record inner addressed valid few, Outcome.ok_bind]
  · have fixed : var.isRecord = false := Bool.not_eq_true _ ▸ record
    have positive : 0 < var.shape.prod := by
      have first := described.fixed fixed
      cases shape : var.shape with
      | nil => exact Nat.one_pos
      | cons dim rest =>
        rw [shape] at first inner
        rw [List.prod_cons]
        exact Nat.mul_pos (first dim rfl) inner
    rw [if_neg record, fixedRuns_eq fixed positive addressed valid, Outcome.ok_bind]

/-- A read of a selection returns its stored values exactly when they have room in
memory and every row of them lies in the file. -/
theorem readSelection_values_iff (opened : ClassicFile.fromSource build (fileSource image) = .ok file)
    (listed : var ∈ file.vars) (axes : ∀ dim ∈ var.shape.tail, 0 < dim)
    (addressed : Addressed file.recordStride var) (valid : slab.validate var.shape = .ok ()) :
    file.readSelection build var slab = .ok (valuesAt file.recordStride var slab image) ↔
      slab.count.prod * var.ncType.size ≤ isizeMax ∧ RowsHeld file.recordStride var slab image := by
  obtain ⟨stands, magic, buf, -, -, parsed⟩ := fromSource_eq_ok opened
  have described := described_of_parse build parsed var listed
  obtain ⟨within, -⟩ := Hyperslab.within_of_validate valid
  rw [readSelection_eq, stands]
  constructor
  · intro returned
    obtain ⟨⟨runs, out⟩, planned, reading⟩ := Outcome.bind_eq_ok.mp returned
    obtain ⟨last, read, -⟩ := Outcome.bind_eq_ok.mp reading
    have fits : slab.count.prod * var.ncType.size ≤ isizeMax := room_of_plan planned
    refine ⟨fits, fun row member => ?_⟩
    rw [plan_rows described axes addressed valid fits] at planned
    cases planned
    obtain ⟨found, same, inside⟩ := inside_of_readRuns image read
    have rows : (cells (rowBox var slab)).map (rowRun file.recordStride var slab) = found := by
      apply List.map_injective_iff.mpr fun _ _ => Outcome.ok.inj
      rw [← same, List.map_map]
      rfl
    exact (inside _ (rows ▸ List.mem_map_of_mem member)).1
  · rintro ⟨fits, held⟩
    rw [plan_rows described axes addressed valid fits, Outcome.ok_bind]
    rw [readRuns_rowsHeld described within fits held, Outcome.ok_bind,
      native_values fun cell member => value_length described within held (mem_cells.mp member)]
    rfl

/-- Pairs of shorts and integers, one of each a record. -/
def pairVariable : StoredVariable :=
  { name := "p", dimIds := [0, 1], attributes := [], ncType := .short, vsize := 4, begin := 132 }

def countVariable : StoredVariable :=
  { name := "n", dimIds := [0], attributes := [], ncType := .int, vsize := 4, begin := 136 }

def twoRecords : StoredHeader where
  recordCount := 2
  dimensions := [⟨"t", 0⟩, ⟨"x", 2⟩]
  attributes := []
  vars := [pairVariable, countVariable]

set_option maxRecDepth 2000 in
theorem twoRecords_length : (twoRecords.encode .cdf1).length = 132 := rfl

def twoRecordsImage (stored : Bytes) : FileImage :=
  ⟨twoRecords.encode .cdf1 ++ stored.take 16, by
    rw [List.length_append, twoRecords_length, List.length_take]
    exact Nat.le_trans (show 132 + min 16 stored.length ≤ 148 by omega) (by decide)⟩

def twoRecordsFile (stored : Bytes) : ClassicFile :=
  { twoRecords.meant with source := fileSource (twoRecordsImage stored), container := .cdf1 }

theorem twoRecords_opened (stored : Bytes) : (twoRecordsFile stored).Opened .debug :=
  opened_of_encode (by decide) (by decide) rfl (by
    rw [FileImage.size, twoRecordsImage, List.length_append, twoRecords_length, List.length_take]
    exact (show 132 + min 16 stored.length ≤ 2 ^ 16 by omega))

def pairs : ClassicVariable := pairVariable.meant twoRecords.resolved

def twoRecordsStored : Bytes := [1, 2, 3, 4, 0, 0, 0, 5, 6, 7, 8, 9, 0, 0, 0, 10]

set_option maxRecDepth 4000 in
/-- The second short of each pair, and no short of either. -/
theorem readSelection_values_twoRecords :
    (twoRecordsFile twoRecordsStored).readSelection .debug pairs ⟨[0, 1], [2, 1]⟩ = .ok [4, 3, 9, 8] ∧
      (twoRecordsFile twoRecordsStored).readSelection .debug pairs ⟨[0, 1], [2, 0]⟩ = .ok [] :=
  ⟨(readSelection_values_iff (twoRecords_opened _) (.head _) (by decide) (by decide) (by decide)).mpr
      ⟨by decide, by decide⟩,
    (readSelection_values_iff (twoRecords_opened _) (.head _) (by decide) (by decide) (by decide)).mpr
      ⟨by decide, by decide⟩⟩

set_option maxRecDepth 4000 in
/-- Of a file that ends behind its header, no short of the first pair cannot be read: the place of the empty row
lies past the end. -/
theorem readSelection_nothing :
    (twoRecordsFile []).Opened .debug ∧ pairs ∈ (twoRecordsFile []).vars ∧
      (∀ dim ∈ pairs.shape.tail, 0 < dim) ∧ Addressed (twoRecordsFile []).recordStride pairs ∧
      Hyperslab.validate ⟨[0, 1], [1, 0]⟩ pairs.shape = .ok () ∧
      valuesAt (twoRecordsFile []).recordStride pairs ⟨[0, 1], [1, 0]⟩ (twoRecordsImage []) = [] ∧
      (twoRecordsFile []).readSelection .debug pairs ⟨[0, 1], [1, 0]⟩ = .error (.outOfBounds "file" 134 0 0) :=
  ⟨twoRecords_opened _, .head _, by decide, by decide, by decide, rfl, by rfl⟩

end Returned

end Oxcdf.Classic
