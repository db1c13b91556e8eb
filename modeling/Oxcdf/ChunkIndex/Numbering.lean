import Oxcdf.ChunkIndex
import Oxcdf.Foundation.RowMajor

/-! Which chunk a numbered record is taken for.

The reader numbers the chunks of the current shape in row-major order, and wraps
a number past the last of them. A format numbers the chunks in some way of its
own. The records are right where each stored number is, by its remainder, also
the reader's number of the chunk that the format means.
-/

set_option autoImplicit false

namespace Oxcdf.ChunkIndex

open Foundation Foundation.RowMajor

section Cells

/-- The element offset of a chunk, from its place in the grid. -/
def offsetOf (cell chunkDims : List Nat) : List Nat := List.zipWith (· * ·) cell chunkDims

theorem chunkGrid_cons (d c : Nat) (shape chunkDims : List Nat) :
    chunkGrid (d :: shape) (c :: chunkDims) =
      (if c = 0 then 0 else (d + c - 1) / c) :: chunkGrid shape chunkDims := rfl

/-- A chunk number becomes the chunk with the same remainder. -/
theorem takeAxes_eq : ∀ {grid chunkDims : List Nat}, grid.length = chunkDims.length → 0 < grid.prod →
    ∀ index, ∃ cell, Inside grid cell ∧ linear grid cell = index % grid.prod ∧
      takeAxes grid chunkDims index = (offsetOf cell chunkDims, index / grid.prod)
  | [], [], _, _, index => ⟨[], trivial, by simp [linear, Nat.mod_one], by simp [takeAxes, offsetOf]⟩
  | extent :: grid, c :: chunkDims, same, positive, index => by
    rw [List.prod_cons] at positive ⊢
    have some_ : 0 < extent := Nat.pos_of_mul_pos_right positive
    obtain ⟨cell, inside, number, taken⟩ :=
      takeAxes_eq (Nat.succ_inj.mp same) (Nat.pos_of_mul_pos_left positive) index
    refine ⟨index / grid.prod % extent :: cell, ⟨Nat.mod_lt _ some_, inside⟩, ?_, ?_⟩
    · rw [linear, number, Nat.mul_comm extent, Nat.mod_mul, Nat.mul_comm (grid.prod), Nat.add_comm]
    · rw [takeAxes, taken]
      dsimp only
      rw [Nat.max_eq_left some_, Nat.div_div_eq_div_mul, Nat.mul_comm extent]
      rfl

theorem chunkOffset_eq {grid chunkDims : List Nat} (same : grid.length = chunkDims.length)
    (positive : 0 < grid.prod) (index : Nat) : ∃ cell, Inside grid cell ∧
      linear grid cell = index % grid.prod ∧ chunkOffset index grid chunkDims = offsetOf cell chunkDims := by
  obtain ⟨cell, inside, number, taken⟩ := takeAxes_eq same positive index
  exact ⟨cell, inside, number, congrArg Prod.fst taken⟩

/-- Chunks of one grid that start at the same element are the same. -/
theorem offsetOf_injective : ∀ {shape chunkDims first second : List Nat},
    Inside (chunkGrid shape chunkDims) first → Inside (chunkGrid shape chunkDims) second →
      offsetOf first chunkDims = offsetOf second chunkDims → first = second
  | [], _, [], [], _, _, _ => rfl
  | _ :: _, [], [], [], _, _, _ => rfl
  | d :: shape, c :: chunkDims, i :: first, j :: second, left, right, same => by
    rw [chunkGrid_cons] at left right
    obtain ⟨heads, tails⟩ := List.cons.inj same
    have wide : 0 < c := by
      rcases Nat.eq_zero_or_pos c with rfl | wide
      · exact absurd left.1 (Nat.not_lt_zero i)
      · exact wide
    rw [Nat.eq_of_mul_eq_mul_right wide heads, offsetOf_injective left.2 right.2 tails]

theorem chunkGrid_length {shape chunkDims : List Nat} (same : shape.length = chunkDims.length) :
    (chunkGrid shape chunkDims).length = chunkDims.length := by
  rw [chunkGrid, List.length_zipWith, same, Nat.min_self]

/-- A number stands for the chunk with its remainder, and for no other. -/
theorem chunkOffset_eq_iff {shape chunkDims cell : List Nat} (same : shape.length = chunkDims.length)
    (inside : Inside (chunkGrid shape chunkDims) cell) (index : Nat) :
    chunkOffset index (chunkGrid shape chunkDims) chunkDims = offsetOf cell chunkDims ↔
      index % (chunkGrid shape chunkDims).prod = linear (chunkGrid shape chunkDims) cell := by
  obtain ⟨other, here, number, found⟩ := chunkOffset_eq (chunkGrid_length same) inside.prod_pos index
  rw [found, ← number]
  constructor
  · intro starts
    rw [offsetOf_injective here inside starts]
  · intro numbers
    rw [linear_injective here inside numbers]

/-- The start of a chunk lies on its axis, so it fits the word of the axis. -/
theorem offsetOf_lt : ∀ {shape chunkDims cell : List Nat}, Inside (chunkGrid shape chunkDims) cell →
    List.Forall₂ (· < ·) (offsetOf cell chunkDims) (shape.take chunkDims.length)
  | [], _, [], _ => by simp [offsetOf]
  | _ :: _, [], [], _ => by simp [offsetOf]
  | d :: shape, c :: chunkDims, i :: cell, inside => by
    rw [chunkGrid_cons] at inside
    obtain ⟨here, later⟩ := inside
    split at here
    · exact absurd here (Nat.not_lt_zero i)
    · next wide =>
      have before := (Nat.le_div_iff_mul_le (Nat.pos_of_ne_zero wide)).mp here
      rw [Nat.succ_mul] at before
      have starts : i * c < d := by omega
      exact .cons starts (offsetOf_lt later)

/-- The start of a chunk that an axis has is no larger than the extent of the axis. -/
theorem axisStart_le (rest d c : Nat) : rest % max (if c = 0 then 0 else (d + c - 1) / c) 1 * c ≤ d := by
  rcases Nat.eq_zero_or_pos c with rfl | positive
  · exact Nat.zero_le d
  · rw [if_neg (Nat.ne_of_gt positive)]
    have turn : rest % max ((d + c - 1) / c) 1 < max ((d + c - 1) / c) 1 :=
      Nat.mod_lt _ (lt_of_lt_of_le Nat.one_pos (Nat.le_max_right _ _))
    have whole : (d + c - 1) / c * c ≤ d + c - 1 := Nat.div_mul_le_self _ _
    have product : (rest % max ((d + c - 1) / c) 1 + 1) * c ≤ max ((d + c - 1) / c) 1 * c :=
      Nat.mul_le_mul_right c turn
    rw [Nat.add_mul, Nat.one_mul] at product
    rcases Nat.le_total 1 ((d + c - 1) / c) with some | none
    · rw [Nat.max_eq_left some] at product ⊢
      omega
    · rw [Nat.max_eq_right none] at product ⊢
      omega

end Cells

section Addresses

/-- The addresses that some records give for one offset. -/
def addressesAt (records : List ChunkRecord) (offset : List Nat) : List Nat :=
  (records.filter fun record => record.offset = offset).map ChunkRecord.address

theorem sortByOffset_perm (records : List ChunkRecord) : (sortByOffset records).Perm records :=
  List.mergeSort_perm records _

theorem sortByOffset_sorted (records : List ChunkRecord) :
    (sortByOffset records).Pairwise fun a b => a.offset ≤ b.offset := by
  have trans : ∀ a b c : ChunkRecord, decide (a.offset ≤ b.offset) → decide (b.offset ≤ c.offset) →
      decide (a.offset ≤ c.offset) := by
    simp only [decide_eq_true_eq]
    exact fun a b c one other => le_trans one other
  have total : ∀ a b : ChunkRecord, decide (a.offset ≤ b.offset) || decide (b.offset ≤ a.offset) := by
    simp only [Bool.or_eq_true, decide_eq_true_eq]
    exact fun a b => le_total a.offset b.offset
  have sorted := List.pairwise_mergeSort trans total records
  simp only [decide_eq_true_eq] at sorted
  exact sorted

theorem addressesAt_sort (records : List ChunkRecord) (offset : List Nat) (meant : Option Nat) :
    addressesAt (sortByOffset records) offset = meant.toList ↔ addressesAt records offset = meant.toList := by
  have moved : (addressesAt (sortByOffset records) offset).Perm (addressesAt records offset) :=
    ((sortByOffset_perm records).filter _).map _
  cases meant with
  | none =>
    rw [Option.toList_none, ← List.perm_nil, ← List.perm_nil]
    exact ⟨moved.symm.trans, moved.trans⟩
  | some a =>
    rw [Option.toList_some, ← List.perm_singleton, ← List.perm_singleton]
    exact ⟨moved.symm.trans, moved.trans⟩

/-- The address of an element, and none past the last. -/
def storedAt (elements : List Element) (index : Nat) : Option Nat := elements[index]?.bind Element.address

theorem storedAt_none {elements : List Element} (index : Nat) (large : elements.length ≤ index) :
    storedAt elements index = none := by
  rw [storedAt, List.getElem?_eq_none large, Option.bind_none]

/-- The addresses of an array's records come from its elements, in their order. -/
theorem addressesAt_elements (elements : List Element) (grid chunkDims : List Nat) (unfilteredSize : Nat)
    (offset : List Nat) :
    addressesAt (elementsToRecords elements grid chunkDims unfilteredSize) offset =
      (List.range elements.length).filterMap fun index =>
        if chunkOffset index grid chunkDims = offset then storedAt elements index else none := by
  have positions : List.range elements.length = elements.zipIdx.map Prod.snd := by
    rw [List.zipIdx_map_snd, List.range_eq_range']
  rw [addressesAt, elementsToRecords, List.filter_filterMap, List.map_filterMap, positions, List.filterMap_map]
  refine List.filterMap_congr fun entry member => ?_
  obtain ⟨element, index⟩ := entry
  rw [List.mem_zipIdx_iff_getElem?] at member
  simp only [Function.comp_apply, storedAt, member, Option.bind_some, Element.toRecord]
  cases element.address with
  | none => simp
  | some address =>
    by_cases here : chunkOffset index grid chunkDims = offset <;> simp [here]

/-- A list over a range to which one number adds at most. -/
theorem filterMap_range {α : Type} {f : Nat → Option α} {k : Nat} : ∀ {count : Nat},
    (∀ i < count, (f i).isSome → i = k) →
      (List.range count).filterMap f = if k < count then (f k).toList else []
  | 0, _ => rfl
  | count + 1, only => by
    rw [List.range_succ, List.filterMap_append, filterMap_range fun i small => only i (Nat.lt_succ_of_lt small)]
    by_cases last : k = count
    · subst last
      rw [if_neg (Nat.lt_irrefl k), if_pos (Nat.lt_succ_self k), List.nil_append]
      cases found : f k <;> simp [found]
    · have none_ : f count = none := by
        by_contra found
        exact last (only count (Nat.lt_succ_self count) (Option.isSome_iff_ne_none.mpr found)).symm
      have bounds : k < count ↔ k < count + 1 := by omega
      simp only [none_, List.filterMap_cons_none, List.filterMap_nil, List.append_nil, bounds]

end Addresses

section Placement

variable {shape chunkDims : List Nat} (same : shape.length = chunkDims.length)

/-- A number of the format is one the reader places right: it belongs to a chunk
of the current shape whose number in that shape is the remainder. -/
def Placed (grid : List Nat) (number : List Nat → Nat) (index : Nat) : Prop :=
  ∃ cell, Inside grid cell ∧ number cell = index ∧ linear grid cell = index % grid.prod

/-- The addresses of a numbered index, in the order of the numbers. -/
def Numbered (grid chunkDims : List Nat) (count : Nat) (stored : Nat → Option Nat)
    (records : List ChunkRecord) : Prop :=
  ∀ offset, addressesAt records offset = (List.range count).filterMap fun index =>
    if chunkOffset index grid chunkDims = offset then stored index else none

/-- Each chunk of the current shape has the address stored under its number, and no other. -/
def Right (grid chunkDims : List Nat) (number : List Nat → Nat) (stored : Nat → Option Nat)
    (records : List ChunkRecord) : Prop :=
  ∀ cell, Inside grid cell →
    addressesAt records (offsetOf cell chunkDims) = (stored (number cell)).toList

theorem right_sort {grid : List Nat} {number : List Nat → Nat} {stored : Nat → Option Nat}
    {records : List ChunkRecord} :
    Right grid chunkDims number stored (sortByOffset records) ↔ Right grid chunkDims number stored records :=
  forall₂_congr fun _ _ => addressesAt_sort records _ _

include same

theorem right_of_placed {number : List Nat → Nat}
    (injective : ∀ first second, Inside (chunkGrid shape chunkDims) first →
      Inside (chunkGrid shape chunkDims) second → number first = number second → first = second)
    {count : Nat} {stored : Nat → Option Nat} (ends : ∀ index, count ≤ index → stored index = none)
    {records : List ChunkRecord} (numbered : Numbered
      (chunkGrid shape chunkDims) chunkDims count stored records)
    (placed : ∀ index a, stored index = some a → Placed (chunkGrid shape chunkDims) number index) :
    Right (chunkGrid shape chunkDims) chunkDims number stored records := by
  intro cell inside
  have only : ∀ index < count, (if chunkOffset index (chunkGrid shape chunkDims) chunkDims =
      offsetOf cell chunkDims then stored index else none).isSome → index = number cell := by
    intro index _ found
    split at found
    · next here =>
      obtain ⟨a, written⟩ := Option.isSome_iff_exists.mp found
      obtain ⟨other, within, rfl, position⟩ := placed index a written
      rw [chunkOffset_eq_iff same inside, ← position] at here
      rw [linear_injective within inside here]
    · exact absurd found Bool.false_ne_true
  rw [numbered, filterMap_range only]
  split
  · cases written : stored (number cell) with
    | none => simp
    | some a =>
      obtain ⟨other, within, matches_, position⟩ := placed _ a written
      obtain rfl := injective other cell within inside matches_
      rw [if_pos ((chunkOffset_eq_iff same inside _).mpr position.symm)]
  · next outside =>
    rw [ends _ (Nat.not_lt.mp outside)]
    rfl

/-- Where no address is stored twice, records that are right have every stored number placed right. -/
theorem placed_of_right {number : List Nat → Nat} {count : Nat} {stored : Nat → Option Nat}
    (ends : ∀ index, count ≤ index → stored index = none)
    (distinct : ∀ i j a, stored i = some a → stored j = some a → i = j) {records : List ChunkRecord}
    (numbered : Numbered (chunkGrid shape chunkDims) chunkDims count stored records)
    (positive : 0 < (chunkGrid shape chunkDims).prod)
    (right : Right (chunkGrid shape chunkDims) chunkDims number stored records) :
    ∀ index a, stored index = some a → Placed (chunkGrid shape chunkDims) number index := by
  intro index a written
  obtain ⟨cell, inside, position, starts⟩ := chunkOffset_eq (chunkGrid_length same) positive index
  have small : index < count := by
    by_contra large
    rw [ends index (Nat.not_lt.mp large)] at written
    cases written
  have listed : a ∈ addressesAt records (offsetOf cell chunkDims) := by
    rw [numbered]
    exact List.mem_filterMap.mpr ⟨index, List.mem_range.mpr small, by rw [if_pos starts, written]⟩
  rw [right cell inside, Option.mem_toList] at listed
  exact ⟨cell, inside, distinct _ _ a listed written, position⟩

end Placement

end Oxcdf.ChunkIndex
