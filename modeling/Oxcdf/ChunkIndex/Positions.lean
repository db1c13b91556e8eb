import Oxcdf.ChunkIndex.Stored

/-! Where the chunk records of a flat index lie.

A fixed array and an implicit index number the chunks of the maximum shape, and
an extensible array those with the unlimited axis slowest. The reader numbers the
chunks of the current shape for all three. -/

set_option autoImplicit false

namespace Oxcdf.ChunkIndex

open Foundation Foundation.RowMajor

section Reading

variable {shape chunkDims : List Nat}

theorem chunkCount_eq (view : View) (grid : List Nat) :
    (∃ e, view.size < grid.prod ∧ chunkCount view (elementCount grid) = .error e) ∨
      (grid.prod ≤ view.size ∧ chunkCount view (elementCount grid) = .ok grid.prod) := by
  have small : view.size < wordSize - 1 := lt_of_le_of_lt view.file.bounded (by decide)
  unfold chunkCount
  rw [elementCount_eq]
  by_cases large : view.size < grid.prod
  · exact .inl ⟨_, large, if_pos (lt_min large small)⟩
  · rw [Nat.min_eq_left ((Nat.not_lt.mp large).trans small.le), if_neg large]
    exact .inr ⟨Nat.not_lt.mp large, rfl⟩

/-- The records of elements that are read back, numbered by what is stored. -/
theorem numbered_elements {elements stored : List Element} (back : storedAt elements = storedAt stored)
    (grid chunkDims : List Nat) (unfilteredSize : Nat) :
    Numbered grid chunkDims elements.length (storedAt stored)
      (elementsToRecords elements grid chunkDims unfilteredSize) := by
  intro offset
  rw [addressesAt_elements, back]

variable {number : List Nat → Nat} {elements stored : List Element} (same : shape.length = chunkDims.length)
variable (back : storedAt elements = storedAt stored) (unfilteredSize : Nat)

include same back

theorem elements_right_of_placed
    (injective : ∀ first second, Inside (chunkGrid shape chunkDims) first →
      Inside (chunkGrid shape chunkDims) second → number first = number second → first = second)
    (placed : ∀ index a, storedAt stored index = some a → Placed (chunkGrid shape chunkDims) number index) :
    Right (chunkGrid shape chunkDims) chunkDims number (storedAt stored)
      (sortByOffset (elementsToRecords elements (chunkGrid shape chunkDims) chunkDims unfilteredSize)) := by
  have ends : ∀ index, elements.length ≤ index → storedAt stored index = none := fun index large =>
    back ▸ storedAt_none index large
  exact right_sort.mpr (right_of_placed same injective ends (numbered_elements back _ _ _) placed)

theorem elements_placed_of_right
    (distinct : ∀ i j a, storedAt stored i = some a → storedAt stored j = some a → i = j)
    (positive : 0 < (chunkGrid shape chunkDims).prod)
    (right : Right (chunkGrid shape chunkDims) chunkDims number (storedAt stored)
      (sortByOffset (elementsToRecords elements (chunkGrid shape chunkDims) chunkDims unfilteredSize))) :
    ∀ index a, storedAt stored index = some a → Placed (chunkGrid shape chunkDims) number index := by
  have ends : ∀ index, elements.length ≤ index → storedAt stored index = none := fun index large =>
    back ▸ storedAt_none index large
  exact placed_of_right same ends distinct (numbered_elements back _ _ _) positive (right_sort.mp right)

end Reading

section Maximum

/-- A chunk of a larger shape's grid covers all of a smaller shape's. -/
theorem inside_grown : ∀ {shape maxShape chunkDims cell : List Nat}, List.Forall₂ (· ≤ ·) shape maxShape →
    Inside (chunkGrid shape chunkDims) cell → Inside (chunkGrid maxShape chunkDims) cell
  | [], [], _, [], _, _ => trivial
  | _ :: _, _ :: _, [], [], _, _ => trivial
  | d :: shape, m :: maxShape, c :: chunkDims, i :: cell, .cons here later, inside => by
    rw [chunkGrid_cons] at inside ⊢
    refine ⟨lt_of_lt_of_le inside.1 ?_, inside_grown later inside.2⟩
    split
    · exact Nat.le_refl 0
    · exact Nat.div_le_div_right (by omega)

theorem chunkGrid_prod_le : ∀ {shape maxShape : List Nat} (chunkDims : List Nat),
    List.Forall₂ (· ≤ ·) shape maxShape → (chunkGrid shape chunkDims).prod ≤ (chunkGrid maxShape chunkDims).prod
  | [], [], _, _ => Nat.le_refl _
  | _ :: _, _ :: _, [], _ => Nat.le_refl _
  | d :: shape, m :: maxShape, c :: chunkDims, .cons here later => by
    rw [chunkGrid_cons, chunkGrid_cons, List.prod_cons, List.prod_cons]
    refine Nat.mul_le_mul ?_ (chunkGrid_prod_le chunkDims later)
    split
    · exact Nat.le_refl 0
    · exact Nat.div_le_div_right (by omega)

/-- An index whose numbers count the chunks of the maximum shape. -/
inductive StoredIndex where
  | implicit (address : Nat)
  | fixedArray (array : FixedArray)

namespace StoredIndex

def index : StoredIndex → ChunkIndex
  | implicit _ => .implicit
  | fixedArray array => .fixedArray array.pageBits

def address : StoredIndex → Nat
  | implicit address => address
  | fixedArray array => array.headerAddress

/-- The address of the chunk of a number: back to back, or stored. -/
def chunkAddress (chunkBytes : Nat) : StoredIndex → Nat → Option Nat
  | implicit address, number => some (address + number * chunkBytes)
  | fixedArray array, number => storedAt array.elements number

/-- The chunks of an implicit index have addresses; a fixed array is in the file,
with an element for each chunk of the maximum shape. -/
def WellFormed (view : View) (maxGrid : List Nat) (chunkBytes : Nat) : StoredIndex → Prop
  | implicit address => address + maxGrid.prod * chunkBytes < wordSize
  | fixedArray array => array.Fits view.sizes ∧ array.Held view ∧ array.elements.length = maxGrid.prod

/-- No address is stored for two chunks. -/
def Distinct : StoredIndex → Prop
  | implicit _ => True
  | fixedArray array => ∀ i j a, storedAt array.elements i = some a → storedAt array.elements j = some a → i = j

/-- When the numbers of the two grids agree: for every chunk of the current shape,
or for every chunk that is stored. An index that is refused gives no record. -/
def Aligned (view : View) (grid maxGrid : List Nat) (chunkBytes : Nat) : StoredIndex → Prop
  | implicit _ => view.size < grid.prod ∨ chunkBytes = 0 ∨
    ∀ cell, Inside grid cell → linear maxGrid cell = linear grid cell
  | fixedArray array => array.Paged ∨ grid.prod = 0 ∨
    ∀ number a, storedAt array.elements number = some a → Placed grid (linear maxGrid) number

end StoredIndex

variable (readBtree2Chunks : Nat → List Nat → Bool → Code (List ChunkRecord)) (build : Build) {view : View}
variable {shape maxShape chunkDims : List Nat} {elementSize : Nat} {filtered : Bool}

/-- The records that are returned give each chunk of the current shape its address. -/
def PositionsRight (view : View) (shape maxShape chunkDims : List Nat) (elementSize : Nat) (filtered : Bool)
    (stored : StoredIndex) : Prop :=
  ∀ records, read readBtree2Chunks build view stored.index (some stored.address) shape chunkDims elementSize
      filtered = .ok records →
    Right (chunkGrid shape chunkDims) chunkDims (linear (chunkGrid maxShape chunkDims))
      (stored.chunkAddress (chunkDims.prod * elementSize)) records

theorem addressesAt_implicit (grid : List Nat) (unfilteredSize storedSize address count : Nat)
    (offset : List Nat) :
    addressesAt ((List.range count).map
      (implicitRecord grid chunkDims unfilteredSize storedSize address)) offset =
      (List.range count).filterMap fun index => if chunkOffset index grid chunkDims = offset then
        some (saturatingAdd address (saturatingMul index unfilteredSize)) else none := by
  rw [addressesAt, List.filter_map, List.map_map, ← List.filterMap_eq_map, List.filterMap_filter]
  refine List.filterMap_congr fun index _ => ?_
  by_cases here : chunkOffset index grid chunkDims = offset <;> simp [here, implicitRecord]

/-- The chunk bytes are exact where the chunks have addresses. -/
theorem unfilteredSize_eq {chunkDims : List Nat} {elementSize : Nat}
    (small : chunkDims.prod * elementSize < wordSize) :
    saturatingMul (elementCount chunkDims) elementSize = chunkDims.prod * elementSize := by
  rcases Nat.eq_zero_or_pos elementSize with rfl | positive
  · rfl
  · have product : chunkDims.prod < wordSize := lt_of_le_of_lt (Nat.le_mul_of_pos_right _ positive) small
    rw [elementCount_of_lt product, saturatingMul, Nat.min_eq_left (Nat.le_sub_one_of_lt small)]

/-- Each chunk of the current shape gets the address of its own number. -/
theorem addressesAt_implicit_cell (same : shape.length = chunkDims.length) {address chunkBytes storedSize : Nat}
    (fits : address + (chunkGrid shape chunkDims).prod * chunkBytes < wordSize) {cell : List Nat}
    (inside : Inside (chunkGrid shape chunkDims) cell) :
    addressesAt ((List.range (chunkGrid shape chunkDims).prod).map
        (implicitRecord (chunkGrid shape chunkDims) chunkDims chunkBytes storedSize address))
      (offsetOf cell chunkDims) = [address + linear (chunkGrid shape chunkDims) cell * chunkBytes] := by
  have small := linear_lt inside
  have only : ∀ index < (chunkGrid shape chunkDims).prod,
      (if chunkOffset index (chunkGrid shape chunkDims) chunkDims = offsetOf cell chunkDims then
        some (saturatingAdd address (saturatingMul index chunkBytes)) else none).isSome →
      index = linear (chunkGrid shape chunkDims) cell := by
    intro index below found
    split at found
    · next here => rwa [chunkOffset_eq_iff same inside, Nat.mod_eq_of_lt below] at here
    · exact absurd found Bool.false_ne_true
  have bytes : linear (chunkGrid shape chunkDims) cell * chunkBytes ≤
    (chunkGrid shape chunkDims).prod * chunkBytes :=
    Nat.mul_le_mul_right _ small.le
  have exact_ : saturatingMul (linear (chunkGrid shape chunkDims) cell) chunkBytes =
      linear (chunkGrid shape chunkDims) cell * chunkBytes := Nat.min_eq_left (by omega)
  rw [addressesAt_implicit, filterMap_range only, if_pos small,
    if_pos ((chunkOffset_eq_iff same inside _).mpr (Nat.mod_eq_of_lt small)), exact_,
    saturatingAdd_of_lt (by omega)]
  rfl

/-- An implicit index is right for the chunks whose numbers agree. -/
theorem implicit_right_iff (same : shape.length = chunkDims.length)
    (grown : List.Forall₂ (· ≤ ·) shape maxShape)
    {address : Nat} (well : StoredIndex.WellFormed view (chunkGrid maxShape chunkDims)
      (chunkDims.prod * elementSize) (.implicit address)) :
    PositionsRight readBtree2Chunks build view shape maxShape chunkDims elementSize filtered
      (.implicit address) ↔
      StoredIndex.Aligned view (chunkGrid shape chunkDims) (chunkGrid maxShape chunkDims)
        (chunkDims.prod * elementSize) (.implicit address) := by
  unfold StoredIndex.WellFormed at well
  have fewer := chunkGrid_prod_le chunkDims grown
  rcases chunkCount_eq view (chunkGrid shape chunkDims) with ⟨e, large, refused⟩ | ⟨small, counted⟩
  · refine iff_of_true (fun records found => ?_) (.inl large)
    unfold read readAt StoredIndex.index at found
    dsimp only at found
    rw [refused, Outcome.error_bind, Outcome.error_bind] at found
    cases found
  -- Without cells there is no position to be wrong.
  rcases Nat.eq_zero_or_pos (chunkGrid shape chunkDims).prod with none_ | some_
  · have empty : ∀ cell, ¬ Inside (chunkGrid shape chunkDims) cell :=
      fun cell inside => absurd none_ inside.prod_pos.ne'
    exact iff_of_true (fun _ _ cell inside => absurd inside (empty cell))
      (.inr (.inr fun cell inside => absurd inside (empty cell)))
  have room : (chunkGrid shape chunkDims).prod * (chunkDims.prod * elementSize) ≤
      (chunkGrid maxShape chunkDims).prod * (chunkDims.prod * elementSize) := Nat.mul_le_mul_right _ fewer
  have one : chunkDims.prod * elementSize ≤ (chunkGrid shape chunkDims).prod * (chunkDims.prod * elementSize) :=
    Nat.le_mul_of_pos_left _ some_
  have exact_ := @unfilteredSize_eq chunkDims elementSize (by omega)
  have each := fun cell (inside : Inside (chunkGrid shape chunkDims) cell) =>
    @addressesAt_implicit_cell shape chunkDims same address (chunkDims.prod * elementSize)
      (min (chunkDims.prod * elementSize) (2 ^ 32 - 1)) (by omega) cell inside
  have found : read readBtree2Chunks build view (StoredIndex.implicit address).index
    (some address) shape chunkDims
      elementSize filtered = .ok (sortByOffset ((List.range (chunkGrid shape chunkDims).prod).map
        (implicitRecord (chunkGrid shape chunkDims) chunkDims (chunkDims.prod * elementSize)
          (min (chunkDims.prod * elementSize) (2 ^ 32 - 1)) address))) := by
    unfold read readAt StoredIndex.index
    dsimp only
    rw [counted, Outcome.ok_bind, Outcome.ok_bind, exact_]
  constructor
  · intro right
    refine .inr (or_iff_not_imp_left.mpr fun wide cell inside => ?_)
    have here := right_sort.mp (right _ found) cell inside
    rw [each cell inside] at here
    have addresses := Nat.add_left_cancel (List.cons.inj here).1
    exact (Nat.eq_of_mul_eq_mul_right (Nat.pos_of_ne_zero wide) addresses).symm
  · intro aligned records returned
    obtain rfl := Outcome.ok.inj (found.symm.trans returned)
    refine right_sort.mpr fun cell inside => ?_
    rw [each cell inside]
    rcases aligned with large | nothing | agree
    · exact absurd large (Nat.not_lt.mpr small)
    · simp [StoredIndex.chunkAddress, nothing]
    · rw [StoredIndex.chunkAddress, agree cell inside]
      rfl

section FixedArray

variable {array : FixedArray}

theorem read_fixedArray (fits : array.Fits view.sizes) (held : array.Held view) :
    read readBtree2Chunks build view (.fixedArray array.pageBits) (some array.headerAddress) shape chunkDims
        elementSize filtered = (do
      let _ ← chunkCount view (elementCount (chunkGrid shape chunkDims))
      if array.Paged then .error (.unsupported "paged fixed array data block")
      else .ok (sortByOffset (elementsToRecords array.readBack (chunkGrid shape chunkDims) chunkDims
        (saturatingMul (elementCount chunkDims) elementSize)))) := by
  unfold read readAt
  dsimp only
  cases chunkCount view (elementCount (chunkGrid shape chunkDims)) with
  | error e => rfl
  | panic p => rfl
  | ok expected =>
    simp only [Outcome.ok_bind]
    rw [FixedArray.readFixedArray_eq build fits held]
    split <;> rfl

theorem fixedArray_right_of_aligned (same : shape.length = chunkDims.length)
    (grown : List.Forall₂ (· ≤ ·) shape maxShape) (fits : array.Fits view.sizes) (held : array.Held view)
    (aligned : StoredIndex.Aligned view (chunkGrid shape chunkDims) (chunkGrid maxShape chunkDims)
      (chunkDims.prod * elementSize) (.fixedArray array)) :
    PositionsRight readBtree2Chunks build view shape maxShape chunkDims elementSize filtered
      (.fixedArray array) := by
  intro records found
  unfold StoredIndex.index StoredIndex.address at found
  dsimp only at found
  rw [read_fixedArray readBtree2Chunks build fits held] at found
  obtain ⟨expected, counted, found⟩ := Outcome.bind_eq_ok.mp found
  split at found
  · cases found
  next whole =>
  obtain rfl := Outcome.ok.inj found
  rcases aligned with paged | nothing | placed
  · exact absurd paged whole
  · exact fun cell inside => absurd nothing inside.prod_pos.ne'
  · have injective : ∀ first second, Inside (chunkGrid shape chunkDims) first →
        Inside (chunkGrid shape chunkDims) second → linear (chunkGrid maxShape chunkDims) first =
          linear (chunkGrid maxShape chunkDims) second → first = second := fun first second left right =>
      linear_injective (inside_grown grown left) (inside_grown grown right)
    exact elements_right_of_placed same (funext (FixedArray.storedAt_readBack fits)) _ injective placed

/-- The elements of a data block take up at least as many bytes. -/
theorem elements_le_size (fits : array.Fits view.sizes) {address : Nat} (block : view.Holds address
    (withChecksum (array.encodeBlockStart view.sizes ++ array.encodeElements view.sizes))) :
    array.elements.length ≤ view.size := by
  have length := block.length_le
  rw [withChecksum_length, FixedArray.block_length] at length
  have entries := Nat.le_mul_of_pos_right array.elements.length
    (@ExtensibleArray.entrySize_pos view.sizes array.sizeWidth fits.widths)
  omega

/-- Where the stored addresses differ, a fixed array is right only so. -/
theorem fixedArray_aligned_of_right (same : shape.length = chunkDims.length)
    (grown : List.Forall₂ (· ≤ ·) shape maxShape) (fits : array.Fits view.sizes) (held : array.Held view)
    (counted : array.elements.length = (chunkGrid maxShape chunkDims).prod)
    (distinct : (StoredIndex.fixedArray array).Distinct)
    (right : PositionsRight readBtree2Chunks build view shape maxShape chunkDims elementSize filtered
      (.fixedArray array)) :
    StoredIndex.Aligned view (chunkGrid shape chunkDims) (chunkGrid maxShape chunkDims)
      (chunkDims.prod * elementSize) (.fixedArray array) := by
  refine or_iff_not_imp_left.mpr fun whole => ?_
  refine or_iff_not_imp_left.mpr fun some_ number a written => ?_
  cases allocated : array.dataBlockAddress with
  | none =>
    rw [← FixedArray.storedAt_readBack fits, FixedArray.readBack, allocated] at written
    cases written
  | some address =>
    have enough := elements_le_size fits (held.block address allocated)
    have fewer := chunkGrid_prod_le chunkDims grown
    have found := @read_fixedArray readBtree2Chunks build view shape chunkDims elementSize filtered
      array fits held
    rcases chunkCount_eq view (chunkGrid shape chunkDims) with ⟨e, large, -⟩ | ⟨-, count⟩
    · omega
    rw [count, Outcome.ok_bind, if_neg whole] at found
    exact elements_placed_of_right same (funext (FixedArray.storedAt_readBack fits)) _ distinct
      (Nat.pos_of_ne_zero some_) (right _ found) number a written

end FixedArray

/-- An index numbered by the maximum shape is right where its numbers agree with
those of the current shape, and, if its addresses differ, only there. -/
theorem maximum_positions (same : shape.length = chunkDims.length) (grown : List.Forall₂ (· ≤ ·) shape maxShape)
    {stored : StoredIndex}
    (well : stored.WellFormed view (chunkGrid maxShape chunkDims) (chunkDims.prod * elementSize)) :
    (stored.Aligned view (chunkGrid shape chunkDims) (chunkGrid maxShape chunkDims)
      (chunkDims.prod * elementSize) →
      PositionsRight readBtree2Chunks build view shape maxShape chunkDims elementSize filtered stored) ∧
    (stored.Distinct →
      PositionsRight readBtree2Chunks build view shape maxShape chunkDims elementSize filtered stored →
        stored.Aligned view (chunkGrid shape chunkDims) (chunkGrid maxShape chunkDims)
          (chunkDims.prod * elementSize)) := by
  cases stored with
  | implicit address =>
    exact ⟨(implicit_right_iff readBtree2Chunks build same grown well).mpr,
      fun _ => (implicit_right_iff readBtree2Chunks build same grown well).mp⟩
  | fixedArray array =>
    obtain ⟨fits, held, counted⟩ := well
    exact ⟨fixedArray_right_of_aligned readBtree2Chunks build same grown fits held,
      fixedArray_aligned_of_right readBtree2Chunks build same grown fits held counted⟩

def fourBytes : View := ⟨⟨[0, 0, 0, 0], by decide⟩, 0, ⟨8, 8⟩⟩

/-- A dataset whose first axis may grow is read right: the numbers of its rows stay. -/
theorem maximum_positions_taller :
    PositionsRight (fun _ _ _ => .ok []) .debug fourBytes [2, 2] [5, 2] [1, 1] 1 false (.implicit 0) := by
  have same : [2, 2].length = [1, 1].length := rfl
  have grown : List.Forall₂ (· ≤ ·) [2, 2] [5, 2] := .cons (by decide) (.cons (Nat.le_refl 2) .nil)
  have well : StoredIndex.WellFormed fourBytes (chunkGrid [5, 2] [1, 1]) ([1, 1].prod * 1) (.implicit 0) := by
    change 0 + 10 * 1 < wordSize
    decide
  refine (maximum_positions (fun _ _ _ => .ok []) .debug same grown well).1 (.inr (.inr fun cell _ => ?_))
  cases cell <;> rfl

/-- Two columns of a maximum of three: the second row's chunks are read one place early. -/
theorem maximum_positions_partial :
    ¬ PositionsRight (fun _ _ _ => .ok []) .debug fourBytes [2, 2] [2, 3] [1, 1] 1 false (.implicit 0) := by
  have same : [2, 2].length = [1, 1].length := rfl
  have grown : List.Forall₂ (· ≤ ·) [2, 2] [2, 3] := .cons (Nat.le_refl 2) (.cons (by decide) .nil)
  have well : StoredIndex.WellFormed fourBytes (chunkGrid [2, 3] [1, 1]) ([1, 1].prod * 1) (.implicit 0) := by
    change 0 + 6 * 1 < wordSize
    decide
  rw [implicit_right_iff (fun _ _ _ => .ok []) .debug same grown well]
  rintro (large | nothing | agree)
  · exact absurd large (by decide)
  · exact absurd nothing (by decide)
  · exact absurd (agree [1, 0] (by decide)) (by decide)

end Maximum

end Oxcdf.ChunkIndex
