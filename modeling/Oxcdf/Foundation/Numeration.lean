import Mathlib.Data.List.Lex
import Mathlib.Order.Monotone.Basic
import Mathlib.Order.Interval.Set.Defs
import Mathlib.Data.Set.Function
import Oxcdf.Foundation.RowMajor

/-! Row-major numbers as an order.

The numbers of the coordinates of a box grow with the coordinates, compared axis by
axis with the slowest first, and every number below the product is that of one
coordinate. So what is computed from the numbers is in the order of the coordinates
wherever it grows with them.
-/

set_option autoImplicit false

namespace Foundation.RowMajor

section Order

theorem linear_lt_iff : ∀ {box first second : List Nat}, Inside box first → Inside box second →
    (linear box first < linear box second ↔ first < second)
  | [], [], [], _, _ => by simp
  | n :: box, i :: first, j :: second, left, right => by
    have here := linear_lt left.2
    have there := linear_lt right.2
    rw [List.cons_lt_cons_iff, ← linear_lt_iff left.2 right.2, linear, linear]
    -- The row of a coordinate decides, and within one row the rest does.
    rcases Nat.lt_trichotomy i j with before | rfl | behind
    · have row := Nat.mul_le_mul_right box.prod (Nat.succ_le_of_lt before)
      rw [Nat.succ_mul] at row
      exact iff_of_true (by omega) (.inl before)
    · simp
    · have row := Nat.mul_le_mul_right box.prod (Nat.succ_le_of_lt behind)
      rw [Nat.succ_mul] at row
      exact iff_of_false (by omega) (by omega)

theorem exists_linear_eq {box : List Nat} {k : Nat} (small : k < box.prod) :
    ∃ cell, Inside box cell ∧ linear box cell = k := by
  have found := List.getElem?_eq_getElem (l := cells box) (by rwa [cells_length])
  exact ⟨_, mem_cells.mp (List.mem_of_getElem? found), linear_getElem?_cells found⟩

theorem zipWith_mul_lt : ∀ {first second weights : List Nat}, first.length = weights.length →
    second.length = weights.length → (∀ weight ∈ weights, 0 < weight) → first < second →
    List.zipWith (· * ·) first weights < List.zipWith (· * ·) second weights
  | [], [], _, _, _, _, before => absurd before (List.lt_irrefl [])
  | [], _ :: _, [], _, long, _, _ => nomatch long
  | _ :: _, _, [], long, _, _, _ => nomatch long
  | _ :: _, [], _ :: _, _, long, _, _ => nomatch long
  | i :: first, j :: second, weight :: weights, left, right, positive, before => by
    obtain ⟨here, later⟩ := List.forall_mem_cons.mp positive
    rw [List.zipWith_cons_cons, List.zipWith_cons_cons, List.cons_lt_cons_iff]
    rcases List.cons_lt_cons_iff.mp before with axis | ⟨rfl, rest⟩
    · exact .inl (Nat.mul_lt_mul_of_pos_right axis here)
    · exact .inr ⟨rfl, zipWith_mul_lt (Nat.succ.inj left) (Nat.succ.inj right) later rest⟩

end Order

section Numbers

variable {β : Type} [Preorder β] {box : List Nat} {number : Nat → β} {image : List Nat → β}

/-- What grows with the coordinates grows with their numbers. -/
theorem strictMonoOn_of_cells (numbers : ∀ cell, Inside box cell → number (linear box cell) = image cell)
    (increasing : ∀ first second, Inside box first → Inside box second → first < second →
      image first < image second) : StrictMonoOn number (Set.Iio box.prod) := by
  intro k small l smaller before
  obtain ⟨first, left, rfl⟩ := exists_linear_eq small
  obtain ⟨second, right, rfl⟩ := exists_linear_eq smaller
  rw [numbers first left, numbers second right]
  exact increasing first second left right ((linear_lt_iff left right).mp before)

/-- It then takes each of its values at one number. -/
theorem bijOn_of_cells (numbers : ∀ cell, Inside box cell → number (linear box cell) = image cell)
    (increasing : ∀ first second, Inside box first → Inside box second → first < second →
      image first < image second) :
    Set.BijOn number (Set.Iio box.prod) {value | ∃ cell, Inside box cell ∧ image cell = value} := by
  refine ⟨?_, (strictMonoOn_of_cells numbers increasing).injOn, ?_⟩
  · intro k small
    obtain ⟨cell, inside, rfl⟩ := exists_linear_eq small
    exact ⟨cell, inside, (numbers cell inside).symm⟩
  · rintro value ⟨cell, inside, rfl⟩
    exact ⟨linear box cell, linear_lt inside, numbers cell inside⟩

theorem pairwise_map_range {total count : Nat} (grows : StrictMonoOn number (Set.Iio total))
    (few : count ≤ total) : ((List.range count).map number).Pairwise (· < ·) := by
  rw [List.pairwise_map]
  refine List.pairwise_lt_range.imp_of_mem ?_
  intro k l first second before
  have bound := List.mem_range.mp second
  exact grows (show k < total by omega) (show l < total by omega) before

end Numbers

end Foundation.RowMajor
