import Oxcdf.Classic.Opening
import Oxcdf.Classic.Values
import Oxcdf.Cursor.Steady

/-! What can overflow when a selection of a netCDF classic variable is read.

The checked selection bounds every coordinate, but not the products of the
lengths of the axes, nor the place of a row behind the start of its variable.
Every address is computed as its exact value put into a word, row after row, and
a row that does not lie in the file ends the read.
-/

set_option autoImplicit false

namespace Oxcdf.Classic

open Foundation Foundation.Buffer Foundation.RowMajor

section Requests

variable {build : Build} {recordStride : Nat} {var : ClassicVariable} {slab : Hyperslab}

/-- A request at an address that is put into a word. -/
def Run.put (build : Build) (run : Run) : Code Run :=
  build.word run.offset >>= fun offset => .ok { run with offset }

/-- No axis of a selected array weighs more than a word can hold. -/
def Weighed (shape count : List Nat) : Prop := ∀ stride ∈ strides shape ++ strides count, stride < wordSize

theorem Weighed.strides_eq {shape count : List Nat} (weighed : Weighed shape count) :
    rowMajorStrides build shape = .ok (strides shape) ∧ rowMajorStrides build count = .ok (strides count) :=
  ⟨rowMajorStrides_eq fun stride member => weighed stride (List.mem_append_left _ member),
    rowMajorStrides_eq fun stride member => weighed stride (List.mem_append_right _ member)⟩

theorem orbit_take (box : List Nat) : ∀ (steps most : Nat) (coord : List Nat),
    (orbit box steps coord).take most = orbit box (min steps most) coord
  | 0, most, coord => by rw [orbit, List.take_nil, Nat.zero_min, orbit]
  | steps + 1, 0, coord => by rw [List.take_zero, Nat.min_zero, orbit]
  | steps + 1, most + 1, coord => by
    rw [orbit, List.take_succ_cons, orbit_take box steps most, Nat.succ_min_succ, orbit]

/-- The odometer shows the first cells of a box, as many as a count in a word says. -/
theorem orbit_elementCount (box : List Nat) :
    orbit box (elementCount box) (origin box) = (cells box).take (wordSize - 1) := by
  rw [← orbit_origin, orbit_take, elementCount_eq]

/-- The rows of a fixed-size variable, each at its exact address put into a word. -/
theorem fixedRuns_put (fixed : var.isRecord = false) (word : var.begin < wordSize)
    (valid : slab.validate var.shape = .ok ()) (weighed : Weighed var.shape slab.count)
    (fits : slab.count.prod * var.ncType.size < wordSize) :
    fixedRuns build var slab var.ncType.size =
      .ok (((cells (rowBox var slab)).take (wordSize - 1)).map fun row =>
        (rowRun recordStride var slab row).put build) := by
  obtain ⟨within, stops⟩ := Hyperslab.within_of_validate valid
  obtain ⟨sameStart, sameCount⟩ := within.lengths
  have typed := size_pos var.ncType
  obtain ⟨weights, dstWeights⟩ := @Weighed.strides_eq build _ _ weighed
  rcases Nat.eq_zero_or_pos var.shape.length with scalar | ranked
  · obtain empty : slab.count = [] := List.length_eq_zero_iff.mp (sameCount.trans scalar)
    obtain flat : var.shape = [] := List.length_eq_zero_iff.mp scalar
    have whole : (cells (rowBox var slab)).take (wordSize - 1) = [[]] := by
      rw [rowBox, empty, List.take_nil, cells]
      rfl
    have here : (rowRun recordStride var slab []).offset = var.begin := by
      simp [rowRun_fixed fixed, flat, linear]
    rw [@fixedRuns_scalar build recordStride var slab fixed flat empty, whole, List.map_singleton, Run.put, here,
      Build.word_of_lt build word, Outcome.ok_bind, ← here]
  · rw [fixedRuns_eq_orbit fixed ranked sameCount weights dstWeights, orbit_elementCount]
    refine congrArg Outcome.ok (List.map_congr_left fun row member => ?_)
    have inside := mem_cells.mp (List.mem_of_mem_take member)
    rw [rowBox, rowAxes_fixed fixed] at inside
    have room := row_output_le inside
    have bytes := Nat.mul_le_mul_right var.ncType.size (Nat.le_of_add_left_le room)
    have places := Nat.le_mul_of_pos_right slab.count.prod typed
    have request := @row_step build _ _ _ _ 0 _ _ within stops typed inside word (by omega) (by omega)
    simp only [gt_iff_lt, if_pos ranked, Nat.zero_add] at request
    rw [Run.put, rowRun_fixed fixed]
    exact request

section Record

variable {n s c : Nat} {inner start count : List Nat}

/-- The rows of a record variable, record after record: the address of a record is put into a word
before the addresses of its rows are. -/
theorem recordRuns_put (record : var.isRecord = true) (shape : var.shape = n :: inner)
    (word : var.begin < wordSize) (valid : Hyperslab.validate ⟨s :: start, c :: count⟩ var.shape = .ok ())
    (weighed : Weighed inner (c :: count)) (fits : (c :: count).prod * var.ncType.size < wordSize) :
    recordRuns build recordStride var ⟨s :: start, c :: count⟩ var.ncType.size =
      .ok ((List.range c).flatMap fun r => Outcome.steps (
        build.word (var.begin + (s + r) * recordStride) >>= fun base =>
          .ok (((cells (count.take (inner.length - 1))).take (wordSize - 1)).map fun row =>
            Run.put build { rowRun recordStride var ⟨s :: start, c :: count⟩ (r :: row) with
              offset := base + rowSkip var.ncType.size inner start count row }))) := by
  obtain ⟨within, stops⟩ := Hyperslab.within_of_validate valid
  rw [shape] at within
  obtain ⟨room, within⟩ := within
  have same := within.lengths.2
  have typed := size_pos var.ncType
  obtain ⟨weights, dstWeights⟩ := @Weighed.strides_eq build _ _ weighed
  rw [recordRuns_eq_orbit shape same weights dstWeights, orbit_elementCount]
  refine congrArg Outcome.ok (List.flatMap_congr fun r listed => congrArg Outcome.steps ?_)
  have before : r < c := List.mem_range.mp listed
  have last : s + c < wordSize := stops (s + c) (by simp)
  simp only [Build.add, Build.mul]
  rw [Build.word_of_lt build (show s + r < wordSize by omega), Outcome.ok_bind, ← bind_assoc,
    Build.word_bind_add_word build word]
  refine Outcome.bind_congr fun base found => congrArg Outcome.ok (List.map_congr_left fun row member => ?_)
  have inside := mem_cells.mp (List.mem_of_mem_take member)
  have outputs : (r * count.prod + count.prod) * var.ncType.size < wordSize := by
    rw [← Nat.succ_mul]
    rw [List.prod_cons] at fits
    exact lt_of_le_of_lt (Nat.mul_le_mul_right _ (Nat.mul_le_mul_right _ before)) fits
  have room := row_output_le inside
  have places := Nat.le_mul_of_pos_right (r * count.prod + count.prod) typed
  have request := @row_step build start count inner row (r * count.prod) _ _ within
    (fun stop later => stops stop (by simp [later])) typed inside (Build.lt_of_word_eq_ok found)
    (lt_of_le_of_lt (Nat.mul_le_mul_right _ (show _ ≤ r * count.prod + count.prod by omega)) outputs) (by omega)
  rw [strides_cons, List.headD_cons, Build.word_of_lt build (show r * count.prod < wordSize by omega),
    Outcome.ok_bind, List.drop_one, List.tail_cons, rowRun_record record shape within, Run.put]
  refine Eq.trans ?_ request
  by_cases ranked : inner.length > 0
  · obtain ⟨t, others, rfl⟩ := List.exists_cons_of_length_pos (within.lengths.1 ▸ ranked)
    rfl
  · simp only [if_neg ranked]

end Record

end Requests

section Accesses

/-- An address that a read computes: of a record, or of a row that is then fetched. -/
inductive Access where
  | record (place : Nat)
  | row (run : Run)

def Access.place : Access → Nat
  | .record place => place
  | .row run => run.offset

/-- What is fetched lies in the file. -/
def Access.Held (image : FileImage) : Access → Prop
  | .record _ => True
  | .row run => image.Holds run.offset run.len

/-- The addresses of a read in their order, as exact numbers. A count in a word bounds the rows. -/
def accesses (recordStride : Nat) (var : ClassicVariable) (slab : Hyperslab) : List Access :=
  if var.isRecord then
    (List.range (slab.count.headD 0)).flatMap fun r =>
      .record (var.begin + (slab.start.headD 0 + r) * recordStride) ::
        ((cells (rowBox var slab).tail).take (wordSize - 1)).map fun row =>
          .row (rowRun recordStride var slab (r :: row))
  else
    ((cells (rowBox var slab)).take (wordSize - 1)).map fun row => .row (rowRun recordStride var slab row)

variable {build : Build} {elementSize : Nat} {read : Nat → Nat → Walk Bytes}

def readAccesses (build : Build) (elementSize : Nat) (read : Nat → Nat → Walk Bytes) :
    List Access → Bytes → Walk Bytes
  | [], out => pure out
  | .record place :: rest, out => do
    let _ ← Walk.lift (build.word place)
    readAccesses build elementSize read rest out
  | .row run :: rest, out => do
    let run ← Walk.lift (run.put build)
    let bytes ← read run.offset run.len
    let out ← Walk.lift (place build elementSize run bytes out)
    readAccesses build elementSize read rest out

theorem readRuns_put (runs : List Run) {steps : List (Code Run)} {rest : List Access}
    (later : ∀ out, readRuns build elementSize read steps out = readAccesses build elementSize read rest out) :
    ∀ out, readRuns build elementSize read (runs.map (Run.put build) ++ steps) out =
      readAccesses build elementSize read (runs.map .row ++ rest) out := by
  induction runs with
  | nil => exact later
  | cons run runs ih =>
    intro out
    simp only [List.map_cons, List.cons_append, readRuns, readAccesses, ih]

/-- The address of a record is put into a word before those of its rows, which are computed from
that word. -/
theorem readRuns_record {base : Nat} {rows : List (List Nat)} {skip : List Nat → Nat} {request : List Nat → Run}
    (places : ∀ row, (request row).offset = base + skip row) {steps : List (Code Run)} {rest : List Access}
    (later : ∀ out, readRuns build elementSize read steps out = readAccesses build elementSize read rest out)
    (out : Bytes) :
    readRuns build elementSize read (Outcome.steps (build.word base >>= fun word =>
        .ok (rows.map fun row => Run.put build { request row with offset := word + skip row })) ++ steps) out =
      readAccesses build elementSize read
        (.record base :: (rows.map fun row => .row (request row)) ++ rest) out := by
  rw [List.cons_append, readAccesses]
  cases found : (build.word base : Code Nat) with
  | error e => exact absurd found (Build.word_ne_error build base e)
  | panic why => rfl
  | ok word =>
    have same : ∀ row, Run.put build { request row with offset := word + skip row } =
      (request row).put build := by
      intro row
      have sum := Build.word_bind_add build base (skip row) (ε := Error)
      rw [found, Outcome.ok_bind] at sum
      rw [Run.put, sum, Run.put, places]
    have rowsRead := readRuns_put (rows.map request) later out
    rw [List.map_map, List.map_map] at rowsRead
    rw [Outcome.ok_bind, Outcome.steps, Walk.lift_ok_bind]
    simp only [same]
    exact rowsRead

variable {recordStride : Nat} {var : ClassicVariable} {slab : Hyperslab}

/-- The axes whose weights a read computes, apart from those of the selection. -/
def weighedShape (var : ClassicVariable) : List Nat := if var.isRecord then var.shape.tail else var.shape

/-- Where no weight overflows, a read is that of its addresses. -/
theorem readRuns_accesses (described : var.isRecord = true → var.shape ≠ []) (word : var.begin < wordSize)
    (valid : slab.validate var.shape = .ok ()) (weighed : Weighed (weighedShape var) slab.count)
    (fits : slab.count.prod * var.ncType.size < wordSize) :
    ∃ runs,
      (if var.isRecord then recordRuns build recordStride var slab var.ncType.size
        else fixedRuns build var slab var.ncType.size) = .ok runs ∧
      ∀ out, readRuns build elementSize read runs out =
        readAccesses build elementSize read (accesses recordStride var slab) out := by
  unfold weighedShape at weighed
  unfold accesses
  by_cases record : var.isRecord = true
  · obtain ⟨n, inner, shape⟩ := List.exists_cons_of_ne_nil (described record)
    obtain ⟨start, count⟩ := slab
    obtain ⟨within, -⟩ := Hyperslab.within_of_validate valid
    rw [shape] at within
    dsimp only at within
    obtain ⟨starts, counts⟩ := within.lengths
    obtain ⟨s, start, rfl⟩ := List.exists_cons_of_length_eq_add_one starts
    obtain ⟨c, count, rfl⟩ := List.exists_cons_of_length_eq_add_one counts
    obtain ⟨-, within⟩ := within
    obtain ⟨box, -⟩ := @rowAxes_record var n c inner start count record shape within
    rw [if_pos record, shape] at weighed
    rw [if_pos record, if_pos record, rowBox]
    dsimp only
    rw [box, recordRuns_put record shape word valid weighed fits]
    refine ⟨_, rfl, ?_⟩
    simp only [List.headD_cons, List.tail_cons]
    induction List.range c with
    | nil => exact fun _ => rfl
    | cons r records ih =>
      intro out
      rw [List.flatMap_cons, List.flatMap_cons]
      exact readRuns_record (fun row => by rw [rowRun_record record shape within]) ih out
  · have fixed : var.isRecord = false := Bool.not_eq_true _ ▸ record
    rw [if_neg record] at weighed
    rw [if_neg record, if_neg record, fixedRuns_put fixed word valid weighed fits]
    refine ⟨_, rfl, fun out => ?_⟩
    have rows := @readRuns_put build elementSize read (((cells (rowBox var slab)).take (wordSize - 1)).map
      (rowRun recordStride var slab)) [] [] (fun _ => rfl) out
    rw [List.append_nil, List.append_nil, List.map_map, List.map_map] at rows
    exact rows

variable {image : FileImage}

/-- The read comes to an address that no word holds: what it fetched before lies in the file. -/
def AddressOverflows (image : FileImage) (listed : List Access) : Prop :=
  ∃ before access after, listed = before ++ access :: after ∧ (∀ earlier ∈ before, earlier.Held image) ∧
    wordSize ≤ access.place

theorem addressOverflows_cons {access : Access} {rest : List Access} :
    AddressOverflows image (access :: rest) ↔
      wordSize ≤ access.place ∨ access.Held image ∧ AddressOverflows image rest := by
  constructor
  · rintro ⟨before, last, after, same, held, large⟩
    cases before with
    | nil =>
      cases same
      exact .inl large
    | cons first before =>
      cases same
      obtain ⟨here, held⟩ := List.forall_mem_cons.mp held
      exact .inr ⟨here, before, last, after, rfl, held, large⟩
  · rintro (large | ⟨here, before, last, after, rfl, held, large⟩)
    · exact ⟨[], access, rest, rfl, nofun, large⟩
    · exact ⟨access :: before, last, after, rfl, List.forall_mem_cons.mpr ⟨here, held⟩, large⟩

/-- A checked read panics where an address overflows, for its rows have room in the output. -/
theorem readAccesses_panics {listed : List Access} : ∀ {out : Bytes}, out.length ≤ isizeMax →
    (∀ run, .row run ∈ listed → run.Lands .debug elementSize out.length) →
    (((readAccesses .debug elementSize Walk.readVec listed out).against (fileSource image)).Panics ↔
      AddressOverflows image listed) := by
  induction listed with
  | nil =>
    intro out _ _
    constructor
    · exact fun panics => absurd panics (Outcome.not_panics_ok out)
    · rintro ⟨before, access, after, same, -⟩
      simp at same
  | cons access rest ih =>
    intro out bounded lands
    have later := fun run member => lands run (List.mem_cons_of_mem access member)
    rw [addressOverflows_cons]
    cases access with
    | record base =>
      simp only [readAccesses, Walk.against_bind, Walk.against_lift]
      rw [Build.word_bind_panics, ih bounded later]
      simp [Access.place, Access.Held]
    | row run =>
      simp only [readAccesses, Walk.against_bind, Walk.against_lift, Walk.against_readVec, Access.place,
        Access.Held]
      rcases Nat.lt_or_ge run.offset wordSize with small | large
      · have here := lands run List.mem_cons_self
        have short : run.len ≤ isizeMax := by
          obtain ⟨db, -, -, inside⟩ := here
          omega
        rw [Run.put, Build.word_of_lt _ small]
        simp only [Outcome.ok_bind]
        rw [fileSource_readVec image _ _ short, or_iff_right (Nat.not_le.mpr small)]
        by_cases held : image.Holds run.offset run.len
        · obtain ⟨next, placed, same⟩ := place_of_lands here (FileImage.part_length held)
          rw [if_pos held, Outcome.ok_bind, placed, Outcome.ok_bind, and_iff_right held]
          exact ih (same ▸ bounded) (same ▸ later)
        · simp [held]
      · rw [Run.put, Build.word_debug_of_le large]
        simp [large]

theorem readAccesses_consistent (listed : List Access) : ∀ out : Bytes,
    Consistent fun build =>
      (readAccesses build elementSize Walk.readVec listed out).against (fileSource image) := by
  induction listed with
  | nil => exact fun out => .const _
  | cons access rest ih =>
    intro out
    cases access with
    | record base =>
      simp only [readAccesses, Walk.against_bind, Walk.against_lift]
      exact (Consistent.word base).bind fun _ _ => ih out
    | row run =>
      have offsets : Consistent fun build => run.put build :=
        (Consistent.word run.offset).bind fun offset _ => .const _
      have placed : ∀ run bytes, Consistent fun build => place build elementSize run bytes out :=
        fun run bytes => (Consistent.word _).bind fun start _ => (Consistent.word _).bind fun stop _ => .const _
      simp only [readAccesses, Walk.against_bind, Walk.against_lift, Walk.against_readVec]
      refine offsets.bind fun run _ => (Consistent.const _).bind fun bytes _ => ?_
      exact (placed run bytes).bind fun next _ => ih next

/-- A row of a selection that has room in memory has its place in the output. -/
theorem rowRun_lands {row : List Nat} (inside : Inside (rowBox var slab) row)
    (fits : slab.count.prod * var.ncType.size ≤ isizeMax) :
    (rowRun recordStride var slab row).Lands build var.ncType.size (slab.count.prod * var.ncType.size) := by
  have words := isizeMax_lt_wordSize
  have whole : (rowBox var slab).prod * (rowShape var slab).prod = slab.count.prod := by
    rw [← List.prod_append, rowBox, rowShape, List.take_append_drop]
  have room : linear (rowBox var slab) row * (rowShape var slab).prod * var.ncType.size +
      (rowShape var slab).prod * var.ncType.size ≤ slab.count.prod * var.ncType.size := by
    rw [← Nat.add_mul, ← Nat.succ_mul, ← whole]
    exact Nat.mul_le_mul_right _ (Nat.mul_le_mul_right _ (linear_lt inside))
  have first : linear (rowBox var slab) row * (rowShape var slab).prod * var.ncType.size < wordSize := by omega
  refine ⟨linear (rowBox var slab) row * (rowShape var slab).prod * var.ncType.size, ?_, ?_, room⟩
  · exact Build.word_of_lt build first
  · exact Build.word_of_lt build (lt_of_le_of_lt room (lt_of_le_of_lt fits words))

theorem accesses_land (described : var.isRecord = true → var.shape ≠ [])
    (within : Hyperslab.Within slab.start slab.count var.shape)
    (fits : slab.count.prod * var.ncType.size ≤ isizeMax) {run : Run}
    (listed : .row run ∈ accesses recordStride var slab) :
    run.Lands build var.ncType.size (slab.count.prod * var.ncType.size) := by
  unfold accesses at listed
  by_cases record : var.isRecord = true
  · rw [if_pos record, List.mem_flatMap] at listed
    obtain ⟨r, before, listed⟩ := listed
    simp only [List.mem_cons, List.mem_map, reduceCtorEq, false_or, Access.row.injEq] at listed
    obtain ⟨row, member, rfl⟩ := listed
    refine rowRun_lands ?_ fits
    obtain ⟨n, inner, shape⟩ := List.exists_cons_of_ne_nil (described record)
    rw [shape] at within
    obtain ⟨start, count⟩ := slab
    obtain ⟨starts, counts⟩ := within.lengths
    obtain ⟨s, start, rfl⟩ := List.exists_cons_of_length_eq_add_one starts
    obtain ⟨c, count, rfl⟩ := List.exists_cons_of_length_eq_add_one counts
    obtain ⟨box, -⟩ := @rowAxes_record var n c inner start count record shape within.2
    rw [rowBox] at member ⊢
    dsimp only at member ⊢
    rw [box] at member ⊢
    exact ⟨List.mem_range.mp before, mem_cells.mp (List.mem_of_mem_take member)⟩
  · rw [if_neg record, List.mem_map] at listed
    obtain ⟨row, member, same⟩ := listed
    cases same
    exact rowRun_lands (mem_cells.mp (List.mem_of_mem_take member)) fits

end Accesses

section Begins

variable {build : Build}

theorem ofBigEndian_lt (bytes : Bytes) : Format.ofBigEndian bytes < 256 ^ bytes.length := by
  induction bytes using List.reverseRecOn with
  | nil => exact Nat.one_pos
  | append_singleton bytes byte ih =>
    have small := byte.toNat_lt
    unfold Format.ofBigEndian at ih ⊢
    rw [List.foldl_append, List.length_append, List.length_singleton, Nat.pow_succ]
    simp only [List.foldl_cons, List.foldl_nil]
    omega

theorem yields_readOffset (container : Container) : (readOffset container).Yields fun n => n < wordSize := by
  have field : ∀ width ≤ 8, (Cursor.take width >>= fun bytes =>
    (pure (Format.ofBigEndian bytes) : Parse Nat)).Yields fun n => n < wordSize := by
    intro width narrow
    refine (Cursor.yields_take width).bind fun bytes length => Session.Yields.pure ?_
    have bound : 256 ^ width ≤ wordSize := Nat.pow_le_pow_right (show 0 < 256 by decide) narrow
    exact lt_of_lt_of_le (length ▸ ofBigEndian_lt bytes) bound
  unfold readOffset
  split
  · exact field 4 (by decide)
  · exact field 8 (by decide)

/-- The data of every variable begin at a word. -/
theorem begin_lt_of_parse {buf : Bytes} {container : Container} {header : Header}
    (parsed : Header.parse build buf container = .ok header) : ∀ v ∈ header.vars, v.begin < wordSize := by
  have each : ∀ dimensions, (readVariable build container dimensions).Yields fun v => v.begin < wordSize := by
    intro dimensions
    rw [readVariable_eq]
    refine (show (declaredVariable build container dimensions).Yields fun v => v.begin < wordSize from ?_).bind
      fun v small => Session.Yields.lift fun found same => ?_
    · unfold declaredVariable
      iterate 7 refine Session.Yields.last fun _ => ?_
      exact (yields_readOffset container).bind fun begin small => Session.Yields.last fun _ => .pure small
    · obtain ⟨size, -, same⟩ := Outcome.bind_eq_ok.mp same
      cases same
      exact small
  have yields : (Header.read build container).Yields fun header => ∀ v ∈ header.vars, v.begin < wordSize := by
    rw [read_eq]
    refine Session.Yields.last fun preamble => ?_
    exact (Format.yields_times (each preamble.dimensions) _).bind fun vars small =>
      Session.Yields.last fun _ => .pure small
  exact yields _ header _ (Prod.ext parsed rfl)

end Begins

section Reading

variable {build : Build} {image : FileImage} {file : ClassicFile} {var : ClassicVariable} {slab : Hyperslab}

/-- What overflows when a selection is read: the length of the output is a word but more than
memory can hold, or an axis weighs more than a word can hold, or an address overflows. -/
def ReadingOverflows (image : FileImage) (recordStride : Nat) (var : ClassicVariable)
    (slab : Hyperslab) : Prop :=
  slab.elementCount * var.ncType.size < wordSize ∧
    (isizeMax < slab.elementCount * var.ncType.size ∨ ¬ Weighed (weighedShape var) slab.count ∨
      AddressOverflows image (accesses recordStride var slab))

theorem rowMajorStrides_panics {shape : List Nat} :
    (rowMajorStrides .debug shape).Panics ↔ ∃ stride ∈ strides shape, wordSize ≤ stride := by
  rw [rowMajorStrides, Read.stridesOf_eq]
  cases weights : (Build.debug.words (strides shape) : Code (List Nat)) with
  | ok found =>
    have small := (Build.words_debug_eq_ok weights).2
    simpa using small
  | error e => exact absurd weights (Build.words_ne_error _ _ e)
  | panic why =>
    simp only [Outcome.panics_panic, true_iff]
    by_contra none
    rw [Build.words_of_lt _ fun n member => Nat.not_le.mp fun large => none ⟨n, member, large⟩] at weights
    cases weights

/-- An axis that weighs too much is met before anything is read. -/
theorem runs_panic (described : var.isRecord = true → var.shape ≠ []) {recordStride : Nat}
    (heavy : ¬ Weighed (weighedShape var) slab.count) :
    (if var.isRecord then recordRuns .debug recordStride var slab var.ncType.size
      else fixedRuns .debug var slab var.ncType.size).Panics := by
  have some : (rowMajorStrides .debug (weighedShape var)).Panics ∨
    (rowMajorStrides .debug slab.count).Panics := by
    rw [rowMajorStrides_panics, rowMajorStrides_panics]
    by_contra none
    refine heavy fun stride member => Nat.not_le.mp fun large => none ?_
    exact (List.mem_append.mp member).imp (fun here => ⟨stride, here, large⟩) fun here => ⟨stride, here, large⟩
  have both : ∀ next : List Nat → List Nat → Code (List (Code Run)),
      (rowMajorStrides .debug (weighedShape var) >>= fun weights =>
        rowMajorStrides .debug slab.count >>= fun dstWeights => next weights dstWeights).Panics := by
    intro next
    rw [Outcome.panics_bind]
    rcases some with ⟨why, first⟩ | second
    · exact .inl ⟨why, first⟩
    · cases first : rowMajorStrides .debug (weighedShape var) with
      | ok weights => exact .inr ⟨weights, rfl, Outcome.panics_bind.mpr (.inl second)⟩
      | error e =>
        rw [rowMajorStrides, Read.stridesOf_eq] at first
        exact absurd first (Build.words_ne_error _ _ e)
      | panic why => exact .inl ⟨why, rfl⟩
  unfold weighedShape at both
  by_cases record : var.isRecord = true
  · obtain ⟨n, inner, shape⟩ := List.exists_cons_of_ne_nil (described record)
    simp only [if_pos record, shape, List.tail_cons] at both
    rw [if_pos record]
    unfold recordRuns
    dsimp only
    rw [shape, List.length_cons, innerShape_eq, Outcome.ok_bind]
    exact both _
  · simp only [if_neg record] at both
    rw [if_neg record]
    exact both _

/-- A read in its steps: the length of the output, its memory, the rows, and what they are read into. -/
theorem readSelection_steps (opened : ClassicFile.fromSource build (fileSource image) = .ok file)
    (valid : slab.validate var.shape = .ok ()) (other : Build) :
    file.readSelection other var slab =
      Outcome.ofOption ClassicFile.selectionTooLarge (checkedMul slab.elementCount var.ncType.size) >>= fun total =>
        zeroed total >>= fun out =>
          (if var.isRecord then recordRuns other file.recordStride var slab var.ncType.size
            else fixedRuns other var slab var.ncType.size) >>= fun runs =>
              (readRuns other var.ncType.size Walk.readVec runs out).against (fileSource image) >>= fun out =>
                .ok (native var.ncType.size out) := by
  obtain ⟨stands, -⟩ := fromSource_eq_ok opened
  rw [readSelection_eq, stands, plan, valid]
  cases var.isRecord <;> simp [bind_assoc]

/-- The number of elements is exact where memory holds the output. -/
theorem elementCount_of_fits (fits : slab.elementCount * var.ncType.size ≤ isizeMax) :
    slab.elementCount = slab.count.prod := by
  rw [Hyperslab.elementCount, elementCount_eq] at fits ⊢
  refine Nat.min_eq_left (Nat.not_lt.mp fun many => ?_)
  rw [Nat.min_eq_right many.le] at fits
  have large := Nat.le_mul_of_pos_right (wordSize - 1) (size_pos var.ncType)
  exact absurd (large.trans fits) (by decide)

/-- Where no axis weighs too much, the rows overflow at an address or not at all. -/
theorem readRuns_sound_iff {recordStride : Nat} (described : var.isRecord = true → var.shape ≠ [])
    (word : var.begin < wordSize) (valid : slab.validate var.shape = .ok ())
    (weighed : Weighed (weighedShape var) slab.count) (fits : slab.count.prod * var.ncType.size ≤ isizeMax) :
    Sound (fun build =>
      (if var.isRecord then recordRuns build recordStride var slab var.ncType.size
        else fixedRuns build var slab var.ncType.size) >>= fun runs =>
          (readRuns build var.ncType.size Walk.readVec runs
            (List.replicate (slab.count.prod * var.ncType.size) 0)).against (fileSource image) >>= fun out =>
            .ok (native var.ncType.size out)) ↔
      ¬ AddressOverflows image (accesses recordStride var slab) := by
  obtain ⟨within, -⟩ := Hyperslab.within_of_validate valid
  have steps : (fun build => (if var.isRecord then recordRuns build recordStride var slab
    var.ncType.size else fixedRuns build var slab var.ncType.size) >>= fun runs =>
        (readRuns build var.ncType.size Walk.readVec runs
          (List.replicate (slab.count.prod * var.ncType.size) 0)).against
            (fileSource image) >>= fun out =>
            .ok (native var.ncType.size out)) = fun build =>
      (readAccesses build var.ncType.size Walk.readVec (accesses recordStride var slab)
        (List.replicate (slab.count.prod * var.ncType.size) 0)).against (fileSource image) >>= fun out =>
          .ok (native var.ncType.size out) := by
    funext build
    obtain ⟨runs, planned, same⟩ :=
      @readRuns_accesses build var.ncType.size Walk.readVec recordStride var
      slab described word valid weighed (lt_of_le_of_lt fits isizeMax_lt_wordSize)
    rw [planned, Outcome.ok_bind, same]
  have consistent : Consistent fun build =>
      (readAccesses build var.ncType.size Walk.readVec (accesses recordStride var slab)
        (List.replicate (slab.count.prod * var.ncType.size) 0)).against (fileSource image) >>= fun out =>
          .ok (native var.ncType.size out) :=
    (readAccesses_consistent _ _).bind fun out _ => .const _
  have addresses := @readAccesses_panics var.ncType.size image (accesses recordStride var slab)
    (List.replicate (slab.count.prod * var.ncType.size) 0) (by rwa [List.length_replicate])
    fun run member => by
      rw [List.length_replicate]
      exact accesses_land described within fits member
  rw [steps, consistent.sound_iff, Outcome.panics_bind, addresses]
  simp

theorem readSelection_sound_iff (opened : ClassicFile.fromSource build (fileSource image) = .ok file)
    (listed : var ∈ file.vars) (valid : slab.validate var.shape = .ok ()) :
    Sound (fun build => file.readSelection build var slab) ↔
      ¬ ReadingOverflows image file.recordStride var slab := by
  obtain ⟨-, magic, buf, -, -, parsed⟩ := fromSource_eq_ok opened
  have described := (described_of_parse build parsed var listed).record
  have word := begin_lt_of_parse parsed var listed
  rw [funext (readSelection_steps opened valid)]
  unfold ReadingOverflows
  rcases Nat.lt_or_ge (slab.elementCount * var.ncType.size) wordSize with small | large
  · rw [and_iff_right small]
    have total : checkedMul slab.elementCount var.ncType.size = some (slab.elementCount * var.ncType.size) :=
      if_pos small
    simp only [total, Outcome.ofOption_some, Outcome.ok_bind]
    rcases Nat.lt_or_ge isizeMax (slab.elementCount * var.ncType.size) with full | fits
    · have none : zeroed (slab.elementCount * var.ncType.size) = .panic .capacity := if_neg (by omega)
      simp only [none, Outcome.panic_bind, full, true_or, not_true_eq_false, iff_false]
      exact fun sound => sound.safe (Outcome.panics_panic _)
    · rw [or_iff_right (Nat.not_lt.mpr fits)]
      simp only [zeroed_of_le fits, Outcome.ok_bind]
      by_cases weighed : Weighed (weighedShape var) slab.count
      · have few := elementCount_of_fits fits
        rw [few] at fits ⊢
        rw [readRuns_sound_iff described word valid weighed fits]
        simp only [weighed, not_true_eq_false, false_or]
      · simp only [weighed, not_false_eq_true, true_or, not_true_eq_false, iff_false]
        exact fun sound => sound.safe (Outcome.panics_bind.mpr (.inl (runs_panic described weighed)))
  -- A length that is no word is refused before anything overflows.
  · have none : checkedMul slab.elementCount var.ncType.size = none := if_neg (Nat.not_lt.mpr large)
    simp only [none, Outcome.ofOption_none, Outcome.error_bind, Nat.not_lt.mpr large, false_and,
      not_false_eq_true, iff_true]
    exact ⟨Outcome.not_panics_error _, rfl⟩

end Reading

section Whole

/-- Opening a file and reading what it declares overflows nowhere: the checked build does not panic
and the unchecked one does the same. -/
def NeverOverflows (image : FileImage) : Prop :=
  Sound (fun build => ClassicFile.fromSource build (fileSource image)) ∧
    ∀ build file var slab, ClassicFile.fromSource build (fileSource image) = .ok file → var ∈ file.vars →
      slab.validate var.shape = .ok () → Sound fun build => file.readSelection build var slab

/-- Where opening a file and reading it overflows. -/
theorem opening_and_reading_sound_iff (image : FileImage) :
    (Sound (fun build => ClassicFile.fromSource build (fileSource image)) ↔ ¬ OpeningOverflows image) ∧
      ∀ build file var slab, ClassicFile.fromSource build (fileSource image) = .ok file → var ∈ file.vars →
        slab.validate var.shape = .ok () →
          (Sound (fun build => file.readSelection build var slab) ↔
            ¬ ReadingOverflows image file.recordStride var slab) :=
  ⟨fromSource_sound_iff, fun _ _ _ _ opened listed valid => readSelection_sound_iff opened listed valid⟩

/-- The second column of two records is read without an overflow. -/
theorem reading_sound_twoRecords :
    Sound fun build => (twoRecordsFile twoRecordsStored).readSelection build pairs ⟨[0, 1], [2, 1]⟩ := by
  refine ((opening_and_reading_sound_iff (twoRecordsImage twoRecordsStored)).2 .debug _ pairs _ (twoRecords_opened _)
    (.head _) (by decide +kernel)).mpr ?_
  rintro ⟨-, full | heavy | ⟨before, access, after, same, -, large⟩⟩
  · exact absurd full (by decide +kernel)
  · refine heavy ?_
    unfold Weighed
    decide +kernel
  · have small : ∀ access ∈ accesses (twoRecordsFile twoRecordsStored).recordStride pairs ⟨[0, 1], [2, 1]⟩,
        access.place < wordSize := by decide +kernel
    have member : access ∈ accesses (twoRecordsFile twoRecordsStored).recordStride pairs ⟨[0, 1], [2, 1]⟩ := by
      rw [same]
      simp
    exact Nat.not_le.mpr (small access member) large

/-- One variable of two values, of which the second lies past the largest address. -/
def lastAddress : StoredHeader where
  recordCount := 0
  dimensions := [⟨"x", 2⟩]
  attributes := []
  vars := [{ name := "v", dimIds := [0], attributes := [], ncType := .byte, vsize := 0, begin := 2 ^ 64 - 1 }]

/-- The header of records that are too large together, and nothing else. -/
def largeRecordsImage : FileImage :=
  ⟨(twoRecordVariables (2 ^ 31) (2 ^ 31) .short).encode .cdf1, by decide +kernel⟩

def lastAddressImage : FileImage := ⟨lastAddress.encode .cdf2, by decide +kernel⟩

/-- The sizes of two large records overflow when a file is opened, and the address of a value past
the last one when it is read from a file that was opened. -/
theorem opening_and_reading_overflow :
    ¬ NeverOverflows largeRecordsImage ∧ ¬ NeverOverflows lastAddressImage := by
  constructor
  · rintro ⟨opening, -⟩
    have panics : (fun _ => ()) <$> ClassicFile.fromSource .debug (fileSource largeRecordsImage) =
        .panic .overflow := by decide +kernel
    exact opening.safe (Outcome.panics_map.mp ⟨_, panics⟩)
  · rintro ⟨opening, reading⟩
    have panics : (ClassicFile.fromSource .debug (fileSource lastAddressImage) >>= fun file =>
        Outcome.ofOption .incomplete file.vars.head? >>= fun var =>
          if Hyperslab.validate ⟨[1], [1]⟩ var.shape = .ok () then file.readSelection .debug var ⟨[1], [1]⟩
          else .ok []) = .panic .overflow := by decide +kernel
    rcases Outcome.panics_bind.mp ⟨_, panics⟩ with here | ⟨file, opened, later⟩
    · exact opening.safe here
    · rcases Outcome.panics_bind.mp later with none | ⟨var, first, later⟩
      · exact Outcome.not_panics_ofOption _ _ none
      · have listed := List.mem_of_mem_head? (Outcome.ofOption_eq_ok.mp first)
        split at later
        · next valid => exact (reading .debug file var ⟨[1], [1]⟩ opened listed valid).safe later
        · exact Outcome.not_panics_ok _ later

end Whole

end Oxcdf.Classic
