import Mathlib.Algebra.BigOperators.Group.List.Basic
import Mathlib.Data.List.Nodup
import Mathlib.Data.List.Range
import Mathlib.Tactic.Ring
import Mathlib.Tactic.Linarith

/-! Row-major boxes: coordinates, linear indices, strides and the odometer.

A box is the list of its axis lengths, slowest axis first. `cells` lists its
coordinates with the last axis fastest, `linear` numbers them, and `advance`
is the odometer step that loops over a box use: it moves from one coordinate
to the next and wraps to the origin after the last.
-/

set_option autoImplicit false

namespace Foundation.RowMajor

/-- A coordinate lies in a box when it has one smaller entry for each axis. -/
def Inside : List Nat → List Nat → Prop
  | [], [] => True
  | n :: box, i :: coord => i < n ∧ Inside box coord
  | _, _ => False

instance decidableInside : (box coord : List Nat) → Decidable (Inside box coord)
  | [], [] => .isTrue trivial
  | n :: box, i :: coord =>
    have := decidableInside box coord
    inferInstanceAs (Decidable (i < n ∧ Inside box coord))
  | [], _ :: _ => .isFalse id
  | _ :: _, [] => .isFalse id

/-- Every coordinate of a box, last axis fastest. -/
def cells : List Nat → List (List Nat)
  | [] => [[]]
  | n :: box => (List.range n).flatMap fun i => (cells box).map (i :: ·)

/-- The position of a coordinate in the row-major order of its box. -/
def linear : List Nat → List Nat → Nat
  | _ :: box, i :: coord => i * box.prod + linear box coord
  | _, _ => 0

/-- How far one step along each axis moves the linear index. -/
def strides : List Nat → List Nat
  | [] => []
  | _ :: box => box.prod :: strides box

/-- The sum of the products of two lists, position by position. -/
def dot : List Nat → List Nat → Nat
  | x :: xs, y :: ys => x * y + dot xs ys
  | _, _ => 0

/-- One odometer step; the flag tells that every axis wrapped. -/
def advance : List Nat → List Nat → List Nat × Bool
  | n :: box, i :: coord =>
    let (rest, carry) := advance box coord
    if carry then if i + 1 < n then ((i + 1) :: rest, false) else (0 :: rest, true)
    else (i :: rest, false)
  | _, coord => (coord, true)

/-- The first `steps` coordinates an odometer shows from a starting one. -/
def orbit (box : List Nat) : Nat → List Nat → List (List Nat)
  | 0, _ => []
  | steps + 1, coord => coord :: orbit box steps (advance box coord).1

def origin (box : List Nat) : List Nat := List.replicate box.length 0

@[simp] theorem inside_nil : Inside [] [] := trivial

@[simp] theorem inside_cons {n i : Nat} {box coord : List Nat} :
    Inside (n :: box) (i :: coord) ↔ i < n ∧ Inside box coord := Iff.rfl

@[simp] theorem strides_nil : strides [] = [] := rfl

@[simp] theorem strides_cons (n : Nat) (box : List Nat) :
    strides (n :: box) = box.prod :: strides box := rfl

@[simp] theorem strides_length (box : List Nat) : (strides box).length = box.length := by
  induction box with
  | nil => rfl
  | cons n box ih => simp [ih]

theorem Inside.length_eq : ∀ {box coord : List Nat}, Inside box coord → coord.length = box.length
  | [], [], _ => rfl
  | _ :: _, _ :: _, inside => congrArg (· + 1) (Inside.length_eq inside.2)

theorem Inside.prod_pos : ∀ {box coord : List Nat}, Inside box coord → 0 < box.prod
  | [], [], _ => by simp
  | n :: box, i :: coord, inside => by
    have rest := Inside.prod_pos inside.2
    rw [List.prod_cons]
    exact Nat.mul_pos (Nat.zero_lt_of_lt inside.1) rest

theorem linear_eq_dot : ∀ (box coord : List Nat), linear box coord = dot coord (strides box)
  | [], [] => rfl
  | [], _ :: _ => rfl
  | _ :: _, [] => rfl
  | _ :: box, i :: coord => by
    simp only [linear, strides_cons, dot, linear_eq_dot box coord]

theorem linear_lt : ∀ {box coord : List Nat}, Inside box coord → linear box coord < box.prod
  | [], [], _ => by simp [linear]
  | n :: box, i :: coord, inside => by
    have rest := linear_lt inside.2
    have room : (i + 1) * box.prod ≤ n * box.prod := Nat.mul_le_mul_right _ inside.1
    rw [linear, List.prod_cons]
    linarith [Nat.succ_mul i box.prod]

theorem linear_injective : ∀ {box first second : List Nat}, Inside box first → Inside box second →
    linear box first = linear box second → first = second
  | [], [], [], _, _, _ => rfl
  | n :: box, i :: first, j :: second, left, right, same => by
    have leftRest := linear_lt left.2
    have rightRest := linear_lt right.2
    simp only [linear] at same
    -- The quotient by the row size is the head, the remainder the tail's index.
    have heads : i = j := by
      have divided := congrArg (· / box.prod) same
      have positive := left.2.prod_pos
      simpa [Nat.mul_comm _ box.prod, Nat.mul_add_div positive, Nat.div_eq_of_lt leftRest,
        Nat.div_eq_of_lt rightRest] using divided
    subst heads
    rw [linear_injective left.2 right.2 (Nat.add_left_cancel same)]

@[simp] theorem linear_origin (box : List Nat) : linear box (origin box) = 0 := by
  induction box with
  | nil => rfl
  | cons n box ih =>
    change 0 * box.prod + linear box (origin box) = 0
    rw [ih, Nat.zero_mul]

theorem origin_inside : ∀ {box : List Nat}, 0 < box.prod → Inside box (origin box)
  | [], _ => trivial
  | n :: box, positive => by
    rw [List.prod_cons] at positive
    exact ⟨Nat.pos_of_mul_pos_right positive, origin_inside (Nat.pos_of_mul_pos_left positive)⟩

theorem mem_cells : ∀ {box coord : List Nat}, coord ∈ cells box ↔ Inside box coord
  | [], [] => by simp [cells]
  | [], _ :: _ => by simp [cells, Inside]
  | n :: box, [] => by simp [cells, Inside]
  | n :: box, i :: coord => by
    simp only [cells, List.mem_flatMap, List.mem_range, List.mem_map, List.cons.injEq,
      inside_cons]
    constructor
    · rintro ⟨j, bound, tail, member, rfl, rfl⟩
      exact ⟨bound, mem_cells.mp member⟩
    · rintro ⟨bound, inside⟩
      exact ⟨i, bound, coord, mem_cells.mpr inside, rfl, rfl⟩

@[simp] theorem cells_length (box : List Nat) : (cells box).length = box.prod := by
  induction box with
  | nil => rfl
  | cons n box ih => simp [cells, List.length_flatMap, ih]

/-- Row-major order is the order of the linear indices. -/
theorem map_linear_cells (box : List Nat) : (cells box).map (linear box) = List.range box.prod := by
  induction box with
  | nil => rfl
  | cons n box ih =>
    have row : ∀ i, (List.map (i :: ·) (cells box)).map (linear (n :: box)) =
        (List.range box.prod).map (i * box.prod + ·) := by
      intro i
      rw [← ih, List.map_map, List.map_map]
      rfl
    rw [cells, List.map_flatMap, List.prod_cons]
    simp only [row]
    induction n with
    | zero => simp
    | succ n inner =>
      have inner := inner (fun i => by rw [← ih, List.map_map, List.map_map]; rfl)
      rw [List.range_succ, List.flatMap_append, inner, Nat.succ_mul, List.range_add]
      simp

/-- After the last coordinate the odometer shows the origin; from any other one
it moves on by exactly one linear index. -/
theorem advance_spec : ∀ {box coord : List Nat}, Inside box coord →
    ((advance box coord).2 = true ∧ (advance box coord).1 = origin box ∧
      linear box coord + 1 = box.prod) ∨
    ((advance box coord).2 = false ∧ Inside box (advance box coord).1 ∧
      linear box (advance box coord).1 = linear box coord + 1)
  | [], [], _ => by simp [advance, origin, linear]
  | n :: box, i :: coord, inside => by
    rcases advance_spec inside.2 with ⟨carry, rest, full⟩ | ⟨carry, rest, next⟩
    · by_cases more : i + 1 < n
      · right
        have start := linear_origin box
        simp only [advance, carry, rest, more, if_true]
        refine ⟨trivial, ⟨more, origin_inside inside.2.prod_pos⟩, ?_⟩
        simp only [linear, start, Nat.succ_mul]
        omega
      · left
        have last : n = i + 1 := by have := inside.1; omega
        simp only [advance, carry, rest, more, if_true, if_false]
        refine ⟨trivial, rfl, ?_⟩
        rw [last, List.prod_cons, linear, Nat.succ_mul]
        omega
    · right
      simp only [advance, carry, Bool.false_eq_true, if_false]
      refine ⟨trivial, ⟨inside.1, rest⟩, ?_⟩
      simp only [linear, next]
      omega

theorem orbit_linear (box : List Nat) : ∀ (steps : Nat) {coord : List Nat}, Inside box coord →
    linear box coord + steps ≤ box.prod →
    (∀ cell ∈ orbit box steps coord, Inside box cell) ∧
      (orbit box steps coord).map (linear box) = List.range' (linear box coord) steps
  | 0, _, _, _ => by simp [orbit]
  | 1, coord, inside, _ => by simp [orbit, inside]
  | steps + 2, coord, inside, room => by
    -- Two more steps fit, so this coordinate is not the last one.
    rcases advance_spec inside with ⟨_, _, full⟩ | ⟨_, moved, next⟩
    · omega
    · obtain ⟨members, indices⟩ := orbit_linear box (steps + 1) moved (by omega)
      rw [orbit, List.range'_succ, List.map_cons, indices, next]
      exact ⟨by simpa [inside] using members, rfl⟩

theorem linear_getElem?_cells {box cell : List Nat} {k : Nat} (found : (cells box)[k]? = some cell) :
    linear box cell = k := by
  have mapped : ((cells box).map (linear box))[k]? = some (linear box cell) := by
    rw [List.getElem?_map, found]
    rfl
  rw [map_linear_cells] at mapped
  obtain ⟨bound, same⟩ := List.getElem?_eq_some_iff.mp mapped
  simpa using same.symm

theorem eq_of_map_linear {box : List Nat} : ∀ {first second : List (List Nat)},
    (∀ cell ∈ first, Inside box cell) → (∀ cell ∈ second, Inside box cell) →
    first.map (linear box) = second.map (linear box) → first = second
  | [], [], _, _, _ => rfl
  | [], _ :: _, _, _, same => by simp at same
  | _ :: _, [], _, _, same => by simp at same
  | x :: first, y :: second, left, right, same => by
    simp only [List.map_cons, List.cons.injEq] at same
    rw [linear_injective (left x (by simp)) (right y (by simp)) same.1,
      eq_of_map_linear (fun cell member => left cell (by simp [member]))
        (fun cell member => right cell (by simp [member])) same.2]

/-- As many odometer steps as the box has cells visit each of them, in order. -/
theorem orbit_origin (box : List Nat) : orbit box box.prod (origin box) = cells box := by
  rcases Nat.eq_zero_or_pos box.prod with empty | positive
  · have none : cells box = [] := List.eq_nil_of_length_eq_zero (by rw [cells_length, empty])
    rw [none, empty, orbit]
  · have inside := origin_inside positive
    have start := linear_origin box
    obtain ⟨members, indices⟩ := orbit_linear box box.prod inside (by omega)
    refine eq_of_map_linear members (fun cell member => mem_cells.mp member) ?_
    rw [indices, map_linear_cells, start, List.range_eq_range']

section Blocks

/-- A coordinate moved by a start on each axis. -/
def shift (start cell : List Nat) : List Nat := List.zipWith (· + ·) start cell

@[simp] theorem dot_nil_left (ys : List Nat) : dot [] ys = 0 := rfl

@[simp] theorem dot_nil_right (xs : List Nat) : dot xs [] = 0 := by cases xs <;> rfl

@[simp] theorem dot_cons (x y : Nat) (xs ys : List Nat) : dot (x :: xs) (y :: ys) = x * y + dot xs ys := rfl

@[simp] theorem shift_cons (s i : Nat) (start cell : List Nat) :
    shift (s :: start) (i :: cell) = (s + i) :: shift start cell := rfl

theorem shift_length (start cell : List Nat) : (shift start cell).length = min start.length cell.length :=
  List.length_zipWith

theorem dot_shift : ∀ {start cell : List Nat} (weights : List Nat), start.length = cell.length →
    dot (shift start cell) weights = dot start weights + dot cell weights
  | [], [], _, _ => by simp [shift]
  | s :: start, i :: cell, [], _ => by simp
  | s :: start, i :: cell, w :: weights, same => by
    rw [shift_cons, dot_cons, dot_cons, dot_cons, dot_shift weights (Nat.succ.inj same)]
    ring

/-- The linear index of a moved coordinate is the sum of the two indices. -/
theorem linear_shift (box : List Nat) {start cell : List Nat} (same : start.length = cell.length) :
    linear box (shift start cell) = linear box start + linear box cell := by
  rw [linear_eq_dot, linear_eq_dot, linear_eq_dot, dot_shift _ same]

theorem linear_append : ∀ {box cell : List Nat} (inner rest : List Nat), cell.length = box.length →
    linear (box ++ inner) (cell ++ rest) = linear box cell * inner.prod + linear inner rest
  | [], [], _, _, _ => by simp [linear]
  | n :: box, i :: cell, inner, rest, same => by
    rw [List.cons_append, List.cons_append, linear, linear, List.prod_append,
      linear_append inner rest (Nat.succ.inj same)]
    ring

/-- The axes after a block weigh nothing for a coordinate of the block. -/
theorem dot_strides_append : ∀ {box cell : List Nat} (inner : List Nat), cell.length = box.length →
    dot cell (strides (box ++ inner)) = linear box cell * inner.prod
  | [], [], _, _ => by simp [linear]
  | n :: box, i :: cell, inner, same => by
    rw [List.cons_append, strides_cons, dot_cons, linear, List.prod_append,
      dot_strides_append inner (Nat.succ.inj same)]
    ring

theorem dot_eq_zero : ∀ {xs : List Nat} (ys : List Nat), (∀ k, xs.getD k 0 = 0) → dot xs ys = 0
  | [], _, _ => rfl
  | _ :: _, [], _ => rfl
  | x :: xs, y :: ys, zero => by
    have head : x = 0 := zero 0
    rw [dot_cons, head, dot_eq_zero ys fun k => zero (k + 1), Nat.zero_mul]

/-- A start that is zero after one axis adds up from the axes before it, which a
shorter coordinate moves, and that axis. -/
theorem dot_shift_lead : ∀ {start index weights : List Nat}, index.length < start.length →
    start.length = weights.length → (∀ k, index.length < k → start.getD k 0 = 0) →
    dot (shift start index) weights + start.getD index.length 0 * weights.getD index.length 0 =
      dot start weights + dot index weights
  | s :: start, [], w :: weights, _, _, zero => by
    have rest := dot_eq_zero weights fun k => zero (k + 1) (Nat.succ_pos k)
    simp [shift, rest]
  | s :: start, i :: index, w :: weights, shorter, same, zero => by
    have rest := dot_shift_lead (Nat.lt_of_succ_lt_succ shorter) (Nat.succ.inj same)
      fun k beyond => zero (k + 1) (Nat.succ_lt_succ beyond)
    simp only [shift_cons, dot_cons, List.length_cons, List.getD_cons_succ]
    linarith [rest, Nat.add_mul s i w]

/-- The leading axes of a coordinate weigh their strides, the rest is linear in the
rest of the box. -/
theorem linear_append_dot : ∀ {box index : List Nat} (rest : List Nat), index.length ≤ box.length →
    linear box (index ++ rest) = dot index (strides box) + linear (box.drop index.length) rest
  | _, [], _, _ => by simp
  | n :: box, i :: index, rest, shorter => by
    rw [List.cons_append, linear, linear_append_dot rest (Nat.le_of_succ_le_succ shorter), strides_cons,
      dot_cons, List.length_cons, List.drop_succ_cons, Nat.add_assoc]

theorem Inside.append : ∀ {box cell inner rest : List Nat}, Inside box cell → Inside inner rest →
    Inside (box ++ inner) (cell ++ rest)
  | [], [], _, _, _, within => within
  | _ :: _, _ :: _, _, _, inside, within => ⟨inside.1, inside.2.append within⟩

theorem Inside.split : ∀ (lead : Nat) {box cell : List Nat}, Inside box cell →
    Inside (box.take lead) (cell.take lead) ∧ Inside (box.drop lead) (cell.drop lead)
  | 0, _, _, inside => ⟨trivial, inside⟩
  | _ + 1, [], [], _ => ⟨trivial, trivial⟩
  | lead + 1, _ :: _, _ :: _, inside =>
    ⟨⟨inside.1, (Inside.split lead inside.2).1⟩, (Inside.split lead inside.2).2⟩

theorem stride_le_prod {box : List Nat} (positive : 0 < box.prod) :
    ∀ stride ∈ strides box, stride ≤ box.prod := by
  induction box with
  | nil => simp
  | cons n box ih =>
    rw [List.prod_cons] at positive ⊢
    have head := Nat.pos_of_mul_pos_right positive
    intro stride member
    have bound : box.prod ≤ n * box.prod := Nat.le_mul_of_pos_left _ head
    rcases List.mem_cons.mp member with rfl | member
    · exact bound
    · exact (ih (Nat.pos_of_mul_pos_left positive) stride member).trans bound

/-- A coordinate seen from a start that lies before it on each axis. -/
def back (start coord : List Nat) : List Nat := List.zipWith (· - ·) coord start

@[simp] theorem back_cons (s x : Nat) (start coord : List Nat) :
    back (s :: start) (x :: coord) = (x - s) :: back start coord := rfl

/-- A coordinate lies in a box that starts at an offset. -/
def InBox : List Nat → List Nat → List Nat → Prop
  | [], [], [] => True
  | offset :: offsets, width :: widths, x :: coord =>
    (offset ≤ x ∧ x < offset + width) ∧ InBox offsets widths coord
  | _, _, _ => False

instance decidableInBox : (offset box coord : List Nat) → Decidable (InBox offset box coord)
  | [], [], [] => .isTrue trivial
  | offset :: offsets, width :: widths, x :: coord =>
    have := decidableInBox offsets widths coord
    inferInstanceAs (Decidable ((offset ≤ x ∧ x < offset + width) ∧ InBox offsets widths coord))
  | [], [], _ :: _ => .isFalse id
  | [], _ :: _, _ => .isFalse id
  | _ :: _, [], _ => .isFalse id
  | _ :: _, _ :: _, [] => .isFalse id

theorem InBox.lengths : ∀ {offset box coord : List Nat}, InBox offset box coord →
    offset.length = coord.length ∧ box.length = coord.length
  | [], [], [], _ => ⟨rfl, rfl⟩
  | _ :: _, _ :: _, _ :: _, inside =>
    ⟨congrArg (· + 1) inside.2.lengths.1, congrArg (· + 1) inside.2.lengths.2⟩

/-- Seen from its offset, a coordinate of a box lies in the box at the origin. -/
theorem InBox.inside_back : ∀ {offset box coord : List Nat}, InBox offset box coord →
    Inside box (back offset coord)
  | [], [], [], _ => trivial
  | offset :: _, width :: _, x :: _, inside => by
    obtain ⟨⟨lower, upper⟩, rest⟩ := inside
    exact ⟨(by omega : x - offset < width), rest.inside_back⟩

theorem InBox.shift_back : ∀ {offset box coord : List Nat}, InBox offset box coord →
    shift offset (back offset coord) = coord
  | [], [], [], _ => rfl
  | offset :: _, _ :: _, x :: _, inside => by
    rw [back_cons, shift_cons, inside.2.shift_back, Nat.add_sub_cancel' inside.1.1]

theorem Inside.inBox_shift : ∀ {offset box cell : List Nat}, offset.length = box.length →
    Inside box cell → InBox offset box (shift offset cell)
  | [], [], [], _, _ => trivial
  | _ :: _, _ :: _, _ :: _, same, inside =>
    ⟨⟨Nat.le_add_right _ _, Nat.add_lt_add_left inside.1 _⟩,
      inside.2.inBox_shift (Nat.succ.inj same)⟩

theorem back_shift : ∀ {offset cell : List Nat}, cell.length ≤ offset.length →
    back offset (shift offset cell) = cell
  | _, [], _ => by simp [shift, back]
  | s :: offset, i :: cell, shorter => by
    rw [shift_cons, back_cons, back_shift (Nat.le_of_succ_le_succ shorter), Nat.add_sub_cancel_left]

theorem back_getD_last {offset coord : List Nat} (same : offset.length = coord.length) :
    (back offset coord).getD (coord.length - 1) 0 = coord.getLastD 0 - offset.getLastD 0 := by
  rcases coord.eq_nil_or_concat with rfl | ⟨front, x, rfl⟩
  · simp [back]
  · rcases offset.eq_nil_or_concat with rfl | ⟨before, o, rfl⟩
    · simp at same
    · have long : before.length = front.length := by simpa using same
      simp [back, List.getD_eq_getElem?_getD, long]

/-- The cells of a box are the cells of its leading axes, each with all cells of
the other axes. -/
theorem cells_append (box inner : List Nat) :
    cells (box ++ inner) = (cells box).flatMap fun cell => (cells inner).map (cell ++ ·) := by
  induction box with
  | nil => simp [cells]
  | cons n box ih =>
    simp only [List.cons_append, cells, ih, List.map_flatMap, List.flatMap_assoc,
      List.flatMap_map, List.map_map]
    rfl

/-- A coordinate whose last entry is its start, from the weights of the others. -/
theorem linear_shift_last {box start index : List Nat} (same : start.length = box.length)
    (long : index.length + 1 = box.length) :
    linear box (shift start (index ++ [0])) = dot (shift start index) (strides box) + start.getLastD 0 := by
  rcases start.eq_nil_or_concat with rfl | ⟨front, s, rfl⟩
  · rw [← same] at long
    simp at long
  · rw [List.concat_eq_append] at same ⊢
    have lengths : front.length = index.length := by
      rw [List.length_append, List.length_singleton] at same
      omega
    have moved : shift (front ++ [s]) (index ++ [0]) = shift front index ++ [s] := by
      unfold shift
      rw [List.zipWith_append lengths]
      rfl
    have shorter : shift (front ++ [s]) index = shift front index := by
      have whole : shift (front ++ [s]) (index ++ []) = shift front index ++ shift [s] [] :=
        List.zipWith_append lengths
      rwa [List.append_nil, show shift [s] [] = [] from rfl, List.append_nil] at whole
    have size : (shift front index).length = index.length := by rw [shift_length, lengths, Nat.min_self]
    rw [moved, shorter, linear_append_dot [s] (by omega), size, List.getLastD_concat]
    congr 1
    have one : (box.drop index.length).length = 1 := by rw [List.length_drop]; omega
    obtain ⟨n, only⟩ := List.length_eq_one_iff.mp one
    rw [only]
    simp [linear]

theorem linear_row_cell {box start row inner cell : List Nat} (starts : start.length = box.length)
    (long : row.length + inner.length = box.length) (same : cell.length = inner.length) :
    linear box (shift start (row ++ cell)) =
      linear box (shift start (row ++ origin inner)) + linear (box.drop row.length) cell := by
  have axes : origin inner = origin (box.drop row.length) := by
    rw [origin, origin, List.length_drop, ← long, Nat.add_sub_cancel_left]
  rw [axes, linear_shift box (by simp; omega), linear_shift box (by simp [origin]; omega),
    linear_append_dot cell (by omega), linear_append_dot _ (by omega), linear_origin, Nat.add_zero,
    Nat.add_assoc]

/-- A single axis numbers its cells whatever its length. -/
theorem linear_of_single {box inner cell : List Nat} (same : box.length = inner.length)
    (single : inner.length ≤ 1) : linear box cell = linear inner cell := by
  match box, inner, same with
  | [], [], _ => rfl
  | [m], [n], _ => cases cell <;> rfl
  | _ :: _ :: _, _ :: _ :: _, _ => simp at single

end Blocks

end Foundation.RowMajor
