import Mathlib.Algebra.Order.Group.Nat
import Mathlib.Order.Monotone.Basic
import Mathlib.Tactic.Ring

/-! Tables whose rows double.

A table has a fixed number of places in a row. The places of the first two rows
have one size, and from there on each row's are twice as large as those before.
The places cover a linear space without gaps, row by row.
-/

set_option autoImplicit false

namespace Foundation.Doubling

variable (width start : Nat)

def rowSize (row : Nat) : Nat := start * 2 ^ (row - 1)

/-- What the first rows cover. -/
def span : Nat → Nat
  | 0 => 0
  | rows + 1 => span rows + width * rowSize start rows

def place (entry : Nat) : Nat :=
  span width start (entry / width) + entry % width * rowSize start (entry / width)

theorem span_succ (rows : Nat) : span width start (rows + 1) = width * start * 2 ^ rows := by
  induction rows with
  | zero =>
    unfold span rowSize
    simp [span]
  | succ rows ih =>
    rw [span, ih, rowSize, Nat.add_sub_cancel]
    ring

theorem span_of_pos {rows : Nat} (some : 0 < rows) :
    span width start rows = width * start * 2 ^ (rows - 1) := by
  obtain ⟨before, rfl⟩ := Nat.exists_eq_add_one_of_ne_zero (Nat.ne_of_gt some)
  exact span_succ width start before

variable {width}

/-- The next place starts where this one ends. -/
theorem place_succ (wide : 0 < width) (entry : Nat) :
    place width start (entry + 1) = place width start entry + rowSize start (entry / width) := by
  have split := Nat.div_add_mod entry width
  have bound := Nat.mod_lt entry wide
  unfold place
  by_cases last : entry % width + 1 = width
  · have next : entry + 1 = (entry / width + 1) * width := by
      rw [Nat.succ_mul, Nat.mul_comm]
      omega
    rw [next, Nat.mul_div_cancel _ wide, Nat.mul_mod_left, span, Nat.zero_mul, Nat.add_zero, Nat.add_assoc,
      ← Nat.succ_mul, Nat.succ_eq_add_one, last]
  · have next : entry + 1 = entry % width + 1 + width * (entry / width) := by omega
    have small : entry % width + 1 < width := by omega
    have row : (entry + 1) / width = entry / width := by
      rw [next, Nat.add_mul_div_left _ _ wide, Nat.div_eq_of_lt small, Nat.zero_add]
    have column : (entry + 1) % width = entry % width + 1 := by
      rw [next, Nat.add_mul_mod_self_left, Nat.mod_eq_of_lt small]
    rw [row, column, Nat.succ_mul, Nat.add_assoc]

theorem place_mono (wide : 0 < width) : Monotone (place width start) := by
  apply monotone_nat_of_le_succ
  intro entry
  rw [place_succ start wide]
  exact Nat.le_add_right _ _

theorem place_zero (width : Nat) : place width start 0 = 0 := by
  rw [place, Nat.zero_div, Nat.zero_mod, span, Nat.zero_mul]

theorem place_rows (wide : 0 < width) (rows : Nat) :
    place width start (rows * width) = span width start rows := by
  rw [place, Nat.mul_div_cancel _ wide, Nat.mul_mod_left, Nat.zero_mul, Nat.add_zero]

section Powers

variable {a s : Nat}

theorem rowSize_two (row : Nat) : rowSize (2 ^ s) row = 2 ^ (s + (row - 1)) := (Nat.pow_add _ _ _).symm

/-- Rows of `2 ^ a` places that fill a place of a later row: their number is `a` less
than the row's. -/
theorem span_eq_rowSize {rows row : Nat} (some : 0 < rows) (later : 0 < row) :
    span (2 ^ a) (2 ^ s) rows = rowSize (2 ^ s) row ↔ rows + a = row := by
  rw [span_of_pos _ _ some, rowSize_two, ← Nat.pow_add, ← Nat.pow_add, Nat.pow_right_inj (by decide)]
  omega

/-- The rows whose places are not larger than a bound come first. -/
theorem rowSize_le_iff {m row : Nat} : rowSize (2 ^ s) row ≤ 2 ^ m ↔ s + (row - 1) ≤ m := by
  rw [rowSize_two, Nat.pow_le_pow_iff_right (by decide)]

end Powers

end Foundation.Doubling
