import Mathlib.Data.List.Range
import Mathlib.Tactic.Linarith
import Oxcdf.Foundation.Buffer

/-! Matrices in flat lists, and the turn of a matrix about its diagonal.

A matrix is stored row after row. `turn rows columns` says where an entry of the
transpose stands in the matrix, so that a permutation of entries or of single bits is
the same statement about positions.
-/

set_option autoImplicit false

namespace Foundation.Transpose

open Buffer

variable {α : Type}

/-- The position, in a matrix of some rows and columns, of an entry of its transpose. -/
def turn (rows columns i : Nat) : Nat := i % rows * columns + i / rows

/-- The matrix stored column after column. -/
def transpose (fill : α) (rows columns : Nat) (entries : List α) : List α :=
  (List.range columns).flatMap fun column =>
    (List.range rows).map fun row => entries.getD (row * columns + column) fill

theorem turn_entry {rows row : Nat} (columns column : Nat) (bound : row < rows) :
    turn rows columns (column * rows + row) = row * columns + column := by
  have positive : 0 < rows := Nat.zero_lt_of_lt bound
  rw [turn, Nat.mul_comm column, Nat.mul_add_mod, Nat.mod_eq_of_lt bound, Nat.mul_add_div positive,
    Nat.div_eq_of_lt bound, Nat.add_zero]

theorem exists_entry {rows columns i : Nat} (bound : i < rows * columns) :
    ∃ row column, row < rows ∧ column < columns ∧ i = column * rows + row := by
  have positive : 0 < rows := Nat.pos_of_mul_pos_right (Nat.zero_lt_of_lt bound)
  refine ⟨i % rows, i / rows, Nat.mod_lt i positive, ?_, ?_⟩
  · rw [Nat.div_lt_iff_lt_mul positive, Nat.mul_comm]
    exact bound
  · rw [Nat.mul_comm]
    exact (Nat.div_add_mod i rows).symm

theorem entry_lt {rows columns row column : Nat} (rowBound : row < rows) (columnBound : column < columns) :
    row * columns + column < rows * columns := by
  have room : (row + 1) * columns ≤ rows * columns := Nat.mul_le_mul_right _ rowBound
  rw [Nat.succ_mul] at room
  omega

theorem turn_lt {rows columns i : Nat} (bound : i < rows * columns) : turn rows columns i < rows * columns := by
  obtain ⟨row, column, rowBound, columnBound, rfl⟩ := exists_entry bound
  rw [turn_entry columns column rowBound]
  exact entry_lt rowBound columnBound

/-- Turned and turned back, a position is where it was. -/
theorem turn_turn {rows columns i : Nat} (bound : i < rows * columns) :
    turn columns rows (turn rows columns i) = i := by
  obtain ⟨row, column, rowBound, columnBound, rfl⟩ := exists_entry bound
  rw [turn_entry columns column rowBound, turn_entry rows row columnBound]

section Lists

variable (fill : α) {rows columns : Nat}

@[simp] theorem transpose_length (rows columns : Nat) (entries : List α) :
    (transpose fill rows columns entries).length = rows * columns := by
  unfold transpose
  rw [@length_flatMap_block _ _ _ rows _ (by simp), List.length_range, Nat.mul_comm]

theorem getElem?_transpose (entries : List α) {i : Nat} (bound : i < rows * columns) :
    (transpose fill rows columns entries)[i]? = some (entries.getD (turn rows columns i) fill) := by
  obtain ⟨row, column, rowBound, columnBound, rfl⟩ := exists_entry bound
  unfold transpose
  rw [turn_entry columns column rowBound, @getElem?_flatMap_block _ _ _ rows _ (by simp) _ _ rowBound,
    List.getElem?_range columnBound]
  simp [rowBound]

theorem transpose_transpose {entries : List α} (whole : entries.length = rows * columns) :
    transpose fill columns rows (transpose fill rows columns entries) = entries := by
  apply List.ext_getElem?
  intro i
  rcases Nat.lt_or_ge i entries.length with inside | beyond
  · have bound : i < columns * rows := by rwa [Nat.mul_comm, ← whole]
    have turned : turn columns rows i < rows * columns := by
      rw [Nat.mul_comm]
      exact turn_lt bound
    rw [getElem?_transpose fill _ bound, List.getD_eq_getElem?_getD, getElem?_transpose fill _ turned,
      Option.getD_some, turn_turn bound, List.getD_eq_getElem?_getD, List.getElem?_eq_getElem inside]
    rfl
  · rw [List.getElem?_eq_none beyond, List.getElem?_eq_none]
    rw [transpose_length, Nat.mul_comm, ← whole]
    exact beyond

/-- Only the entries of the matrix count. -/
theorem transpose_take (entries : List α) :
    transpose fill rows columns (entries.take (rows * columns)) = transpose fill rows columns entries := by
  apply List.ext_getElem?
  intro i
  rcases Nat.lt_or_ge i (rows * columns) with bound | beyond
  · have turned := turn_lt bound
    rw [getElem?_transpose fill _ bound, getElem?_transpose fill _ bound, List.getD_eq_getElem?_getD,
      List.getD_eq_getElem?_getD, List.getElem?_take, if_pos turned]
  · rw [List.getElem?_eq_none (by simpa using beyond), List.getElem?_eq_none (by simpa using beyond)]

/-- The matrix at the front of a list, transposed; what is behind it stays. -/
def transposeFront (fill : α) (rows columns : Nat) (entries : List α) : List α :=
  transpose fill rows columns entries ++ entries.drop (rows * columns)

theorem transposeFront_length {entries : List α} (whole : rows * columns ≤ entries.length) :
    (transposeFront fill rows columns entries).length = entries.length := by
  rw [transposeFront, List.length_append, transpose_length, List.length_drop, Nat.add_sub_cancel' whole]

theorem transposeFront_transposeFront {entries : List α} (whole : rows * columns ≤ entries.length) :
    transposeFront fill columns rows (transposeFront fill rows columns entries) = entries := by
  have size := transpose_length fill rows columns entries
  have front : (transposeFront fill rows columns entries).take (columns * rows) =
      transpose fill rows columns (entries.take (rows * columns)) := by
    rw [transposeFront, Nat.mul_comm, transpose_take, ← size, List.take_left]
  have back : (transposeFront fill rows columns entries).drop (columns * rows) =
      entries.drop (rows * columns) := by
    rw [transposeFront, Nat.mul_comm columns, ← size, List.drop_left, size]
  have matrix : (entries.take (rows * columns)).length = rows * columns := by
    rw [List.length_take, Nat.min_eq_left whole]
  rw [transposeFront, back, ← transpose_take fill, front, transpose_transpose fill matrix,
    List.take_append_drop]

end Lists

end Foundation.Transpose
