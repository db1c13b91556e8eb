import Oxcdf.ChunkIndex.Positions

/-! Where the chunk records of an extensible array lie. Its elements number the
chunks with the unlimited axis moved to the front; the reader leaves the axis
where it is. -/

set_option autoImplicit false

namespace Oxcdf.ChunkIndex

open Foundation Foundation.RowMajor

section MovedAxis

/-- One axis before all others. -/
def moveFront (axis : Nat) (axes : List Nat) : List Nat := axes.getD axis 0 :: axes.eraseIdx axis

theorem inside_moveFront : ∀ {grid cell : List Nat} {axis : Nat}, axis < grid.length → Inside grid cell →
    Inside (moveFront axis grid) (moveFront axis cell)
  | _ :: _, _ :: _, 0, _, inside => inside
  | n :: grid, i :: cell, axis + 1, small, inside => by
    have rest := inside_moveFront (Nat.lt_of_succ_lt_succ small) inside.2
    exact ⟨rest.1, inside.1, rest.2⟩

theorem moveFront_injective : ∀ {first second : List Nat} {axis : Nat}, axis < first.length →
    first.length = second.length → moveFront axis first = moveFront axis second → first = second
  | _ :: _, _ :: _, 0, _, _, same => same
  | i :: first, j :: second, axis + 1, small, lengths, same => by
    obtain ⟨front, rest⟩ := List.cons.inj same
    obtain ⟨heads, tails⟩ := List.cons.inj rest
    have moved : moveFront axis first = moveFront axis second := by
      rw [moveFront, moveFront, tails]
      exact congrArg (· :: _) front
    rw [heads, moveFront_injective (Nat.lt_of_succ_lt_succ small) (Nat.succ_inj.mp lengths) moved]

/-- Number of a chunk when one axis is the slowest and the others have their maximum extents. -/
def slowestNumber (axis : Nat) (maxGrid cell : List Nat) : Nat :=
  linear (moveFront axis maxGrid) (moveFront axis cell)

theorem slowestNumber_injective {axis : Nat} {maxGrid first second : List Nat} (small : axis < maxGrid.length)
    (left : Inside maxGrid first) (right : Inside maxGrid second)
    (same : slowestNumber axis maxGrid first = slowestNumber axis maxGrid second) : first = second := by
  have lengths : first.length = second.length := left.length_eq.trans right.length_eq.symm
  refine moveFront_injective (left.length_eq ▸ small) lengths ?_
  exact linear_injective (inside_moveFront small left) (inside_moveFront small right) same

end MovedAxis

section Extensible

variable (readBtree2Chunks : Nat → List Nat → Bool → Code (List ChunkRecord)) (build : Build) {view : View}
variable {shape maxShape chunkDims : List Nat} {axis elementSize : Nat} {filtered : Bool}
variable {array : ExtensibleArray}

namespace ExtensibleArray

def index (array : ExtensibleArray) : ChunkIndex :=
  .extensibleArray array.maxNelmtsBits array.inline.length array.minPointers array.minElements array.pageBits

/-- No address is stored for two chunks. -/
def Distinct (array : ExtensibleArray) : Prop :=
  ∀ i j a, storedAt array.elements i = some a → storedAt array.elements j = some a → i = j

/-- Every stored number is placed right. -/
def Aligned (array : ExtensibleArray) (axis : Nat) (grid maxGrid : List Nat) : Prop :=
  grid.prod = 0 ∨ ∀ number a, storedAt array.elements number = some a →
    Placed grid (slowestNumber axis maxGrid) number

end ExtensibleArray

/-- The index is read, and its records give each chunk of the current shape its address. -/
def SlowestRight (view : View) (shape maxShape chunkDims : List Nat) (axis elementSize : Nat) (filtered : Bool)
    (array : ExtensibleArray) : Prop :=
  ∃ records, read readBtree2Chunks build view array.index (some array.headerAddress) shape chunkDims elementSize
      filtered = .ok records ∧
    Right (chunkGrid shape chunkDims) chunkDims (slowestNumber axis (chunkGrid maxShape chunkDims))
      (storedAt array.elements) records

theorem read_extensibleArray (fits : array.Fits view.sizes) (held : array.Held view) :
    read readBtree2Chunks build view array.index
      (some array.headerAddress) shape chunkDims elementSize filtered =
      .ok (sortByOffset (elementsToRecords array.readBack (chunkGrid shape chunkDims) chunkDims
        (saturatingMul (elementCount chunkDims) elementSize))) := by
  unfold read readAt ExtensibleArray.index
  dsimp only
  rw [ExtensibleArray.readExtensibleArray_eq build fits held]
  rfl

/-- An extensible array is right where its numbers agree with the row-major ones of
the current shape, and, if its addresses differ, only there. -/
theorem slowest_positions (same : shape.length = chunkDims.length) (grown : List.Forall₂ (· ≤ ·) shape maxShape)
    (small : axis < shape.length) (fits : array.Fits view.sizes) (held : array.Held view) :
    (array.Aligned axis (chunkGrid shape chunkDims) (chunkGrid maxShape chunkDims) →
      SlowestRight readBtree2Chunks build view shape maxShape chunkDims axis elementSize filtered array) ∧
    (array.Distinct →
      SlowestRight readBtree2Chunks build view shape maxShape chunkDims axis elementSize filtered array →
        array.Aligned axis (chunkGrid shape chunkDims) (chunkGrid maxShape chunkDims)) := by
  have found := @read_extensibleArray readBtree2Chunks build view shape chunkDims elementSize filtered
    array fits held
  have back : storedAt array.readBack = storedAt array.elements := funext ExtensibleArray.storedAt_readBack
  have wide : axis < (chunkGrid maxShape chunkDims).length := by
    rw [chunkGrid_length (grown.length_eq.symm.trans same), ← same]
    exact small
  have injective : ∀ first second, Inside (chunkGrid shape chunkDims) first →
      Inside (chunkGrid shape chunkDims) second → slowestNumber axis (chunkGrid maxShape chunkDims) first =
        slowestNumber axis (chunkGrid maxShape chunkDims) second → first = second :=
          fun first second left right =>
    slowestNumber_injective wide (inside_grown grown left) (inside_grown grown right)
  constructor
  · rintro (nothing | placed)
    · exact ⟨_, found, fun cell inside => absurd nothing inside.prod_pos.ne'⟩
    · exact ⟨_, found, elements_right_of_placed same back _ injective placed⟩
  · rintro distinct ⟨records, returned, right⟩
    obtain rfl := Outcome.ok.inj (found.symm.trans returned)
    refine or_iff_not_imp_left.mpr fun some_ => ?_
    exact elements_placed_of_right same back _ distinct (Nat.pos_of_ne_zero some_) right

/-- An array with all its elements in the index block, which follows the header. -/
def inlineOnly (elements : List Element) : ExtensibleArray where
  sizeWidth := none
  maxNelmtsBits := 0
  inline := elements
  minElements := 1
  minPointers := 0
  pageBits := 0
  statistics := [0, 0, 0, 0]
  maxIndexSet := elements.length
  numElements := elements.length
  first := none
  second := none
  others := [none]
  headerAddress := 0
  indexBlockAddress := some 72

theorem inlineOnly_fits {elements : List Element} (few : elements.length < 256)
    (small : ∀ element ∈ elements, element.Fits ⟨8, 8⟩ none) : (inlineOnly elements).Fits ⟨8, 8⟩ where
  widths := ⟨by decide, by decide⟩
  sizeWidth := by
    intro width found
    cases found
  maxNelmtsBits := show 0 < 256 ^ 1 by decide
  inlineCount := few
  inline := small
  minElements := show 0 < 1 ∧ 1 < 256 ^ 1 by decide
  minBits := show Nat.log2 1 ≤ 0 by decide
  minPointers := show 0 < 256 ^ 1 by decide
  pageBits := show 0 < 256 ^ 1 by decide
  statistics := show [0, 0, 0, 0].length = 4 ∧ ∀ n ∈ [0, 0, 0, 0], n < 256 ^ 8 by decide
  maxIndexSet := few.trans (by decide)
  numElements := few.trans (by decide)
  direct := Nat.le_add_right _ _
  first := by
    intro block found
    cases found
  second := by
    intro block found
    cases found
  addresses := by
    intro address member
    simp only [ExtensibleArray.addresses, inlineOnly, Option.map_none, List.mem_cons, List.not_mem_nil,
      or_false, or_self] at member
    subst member
    intro a found
    cases found
  others := show 1 = 1 + (0 - Nat.log2 1) by decide
  indexBlockAddress := by
    rintro a ⟨⟩
    decide

/-- The header of such an array and its index block. -/
def inlineBytes (elements : List Element) : Bytes :=
  withChecksum ((inlineOnly elements).encodeHeader ⟨8, 8⟩) ++
    withChecksum ((inlineOnly elements).encodeIndexBlock ⟨8, 8⟩)

theorem inlineBytes_length {elements : List Element} (few : elements.length < 256)
    (small : ∀ element ∈ elements, element.Fits ⟨8, 8⟩ none) : (inlineBytes elements).length ≤ isizeMax := by
  have fits := inlineOnly_fits few small
  have bound : (256 : Nat) * 8 + 256 ≤ isizeMax := by decide
  rw [inlineBytes, List.length_append, withChecksum_length, withChecksum_length,
    ExtensibleArray.indexBlock_length fits, ExtensibleArray.header_length fits]
  change 4 + 1 + 1 + 1 + 1 + 1 + 1 + 1 + 1 + 8 * 6 + 8 + 4 +
    (4 + 1 + 1 + 8 + elements.length * 8 + (2 + (1 + (0 - Nat.log2 1))) * 8 + 4) ≤ isizeMax
  omega

def inlineView (elements : List Element) (short : (inlineBytes elements).length ≤ isizeMax) : View :=
  ⟨⟨inlineBytes elements, short⟩, 0, ⟨8, 8⟩⟩

theorem inlineView_held {elements : List Element} (few : elements.length < 256)
    (small : ∀ element ∈ elements, element.Fits ⟨8, 8⟩ none) :
    (inlineOnly elements).Held (inlineView elements (inlineBytes_length few small)) where
  header := by
    have bytes : inlineBytes elements = [] ++ withChecksum ((inlineOnly elements).encodeHeader ⟨8, 8⟩) ++
        withChecksum ((inlineOnly elements).encodeIndexBlock ⟨8, 8⟩) := by
      rw [List.nil_append, inlineBytes]
    exact @View.holds_between (inlineView elements (inlineBytes_length few small)) [] _ _ bytes rfl
  indexBlock := by
    intro address allocated
    have place : (withChecksum ((inlineOnly elements).encodeHeader ⟨8, 8⟩)).length = 72 := by
      rw [withChecksum_length, ExtensibleArray.header_length (inlineOnly_fits few small)]
      rfl
    obtain rfl := Option.some.inj allocated
    have bytes : inlineBytes elements = withChecksum ((inlineOnly elements).encodeHeader ⟨8, 8⟩) ++
        withChecksum ((inlineOnly elements).encodeIndexBlock ⟨8, 8⟩) ++ [] := by
      rw [List.append_nil, inlineBytes]
    have held := @View.holds_between (inlineView elements (inlineBytes_length few small)) _ _ _ bytes rfl
    rwa [place] at held
  dataBlocks := nofun

/-- Four chunks, one after another. -/
def fourChunks : List Element := [⟨some 100, 0, 0⟩, ⟨some 101, 0, 0⟩, ⟨some 102, 0, 0⟩, ⟨some 103, 0, 0⟩]

theorem fourChunks_fit : ∀ element ∈ fourChunks, element.Fits ⟨8, 8⟩ none := by
  have addresses : ∀ element ∈ fourChunks, ∃ a, element.address = some a ∧ a < undefinedForWidth 8 ∧
      element.filterMask < 256 ^ 4 := by
    simp [fourChunks, undefinedForWidth, wordSize]
  intro element member
  obtain ⟨a, stored, small, mask⟩ := addresses element member
  exact ⟨fun b same => Option.some.inj (stored.symm.trans same) ▸ small, nofun, mask⟩

def fourChunksView : View :=
  inlineView fourChunks (inlineBytes_length (by decide) fourChunks_fit)

theorem fourChunks_held : (inlineOnly fourChunks).Held fourChunksView :=
  inlineView_held (by decide) fourChunks_fit

/-- Two rows of two chunks that grow by rows are read right. -/
theorem slowest_positions_rows :
    SlowestRight (fun _ _ _ => .ok []) .debug fourChunksView [2, 2] [wordSize - 1, 2] [1, 1] 0 1 false
      (inlineOnly fourChunks) := by
  have same : [2, 2].length = [1, 1].length := rfl
  have grown : List.Forall₂ (· ≤ ·) [2, 2] [wordSize - 1, 2] := .cons (by decide) (.cons (Nat.le_refl 2) .nil)
  have each : ∀ number < 4, ∃ cell ∈ cells (chunkGrid [2, 2] [1, 1]),
      slowestNumber 0 (chunkGrid [wordSize - 1, 2] [1, 1]) cell = number ∧
        linear (chunkGrid [2, 2] [1, 1]) cell = number % (chunkGrid [2, 2] [1, 1]).prod := by
    decide +kernel
  refine (slowest_positions (fun _ _ _ => .ok []) .debug same grown (by decide)
    (inlineOnly_fits (by decide) fourChunks_fit) fourChunks_held).1 (.inr fun number a written => ?_)
  have small : number < 4 := by
    by_contra large
    have count : (inlineOnly fourChunks).elements.length = 4 := rfl
    rw [storedAt_none number (count.trans_le (Nat.not_lt.mp large))] at written
    cases written
  obtain ⟨cell, member, found⟩ := each number small
  exact ⟨cell, mem_cells.mp member, found⟩

/-- Two rows of two chunks that grow by columns: the chunks off the diagonal are exchanged. -/
theorem slowest_positions_columns :
    ¬ SlowestRight (fun _ _ _ => .ok []) .debug fourChunksView [2, 2] [2, wordSize - 1] [1, 1] 1 1 false
      (inlineOnly fourChunks) := by
  rintro ⟨records, returned, right⟩
  have fits := inlineOnly_fits (by decide) fourChunks_fit
  have found := @read_extensibleArray (fun _ _ _ => .ok []) .debug fourChunksView [2, 2] [1, 1] 1 false
    (inlineOnly fourChunks) fits fourChunks_held
  obtain rfl := Outcome.ok.inj (found.symm.trans returned)
  have here := right_sort.mp right [0, 1] (by decide)
  have back : storedAt (inlineOnly fourChunks).readBack = storedAt (inlineOnly fourChunks).elements :=
    funext ExtensibleArray.storedAt_readBack
  rw [numbered_elements back] at here
  exact absurd here (by decide +kernel)

end Extensible

end Oxcdf.ChunkIndex
