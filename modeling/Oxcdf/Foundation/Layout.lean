import Oxcdf.Foundation.Buffer
import Oxcdf.Foundation.Numeration

/-! Arrays of any rank, laid out in row-major order.

An array is a function of the coordinate. Each of its elements takes the same number
of entries, and a box of it is the elements of the cells of the box, one after the other.
-/

set_option autoImplicit false

namespace Foundation.RowMajor

open Buffer

variable {α : Type} {element : List Nat → List α} {width : Nat} {box : List Nat}

/-- The elements of a box, in the order of its cells. -/
def layOut (element : List Nat → List α) (box : List Nat) : List α := (cells box).flatMap element

theorem layOut_length (uniform : ∀ cell, (element cell).length = width) :
    (layOut element box).length = box.prod * width := by
  have long : ((cells box).flatMap element).length = (cells box).length * width :=
    length_flatMap_block fun cell _ => uniform cell
  simpa [layOut] using long

theorem getElem?_layOut (uniform : ∀ cell, (element cell).length = width) {cell : List Nat}
    (inside : Inside box cell) {j : Nat} (bound : j < width) :
    (layOut element box)[linear box cell * width + j]? = (element cell)[j]? := by
  obtain ⟨k, found⟩ := List.mem_iff_getElem?.mp (mem_cells.mpr inside)
  rw [linear_getElem?_cells found, layOut, getElem?_flatMap_block (fun cell _ => uniform cell) bound, found]
  rfl

/-- Entries that are those of the elements, cell by cell, are the layout. -/
theorem eq_layOut (uniform : ∀ cell, (element cell).length = width) {entries : List α}
    (long : entries.length = box.prod * width)
    (same : ∀ cell, Inside box cell → ∀ j < width,
      entries[linear box cell * width + j]? = (element cell)[j]?) : entries = layOut element box := by
  have lengths := long.trans (layOut_length uniform).symm
  refine List.ext_getElem? fun i => ?_
  rcases Nat.lt_or_ge i entries.length with within | beyond
  · -- Every entry belongs to the element of one cell.
    have positive : 0 < width := by
      by_contra none
      rw [long, Nat.eq_zero_of_not_pos none] at within
      exact Nat.not_lt_zero i within
    have row : i / width < box.prod := (Nat.div_lt_iff_lt_mul positive).mpr (long ▸ within)
    obtain ⟨cell, inside, place⟩ := exists_linear_eq row
    have bound := Nat.mod_lt i positive
    have split : i = linear box cell * width + i % width := by rw [place, Nat.div_add_mod']
    rw [split, same cell inside _ bound, getElem?_layOut uniform inside bound]
  · rw [List.getElem?_eq_none beyond, List.getElem?_eq_none (lengths ▸ beyond)]

end Foundation.RowMajor
