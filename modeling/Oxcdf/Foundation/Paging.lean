import Mathlib.Data.List.Range
import Mathlib.Tactic.Ring
import Oxcdf.Foundation.Buffer

/-! A sequence cut into pages of one size, the last of them possibly short.

Page `i` holds the entries from `i * size` on. A range of the sequence is put
together from the pages it touches, and a run of consecutive pages is taken
apart into its pages again.
-/

set_option autoImplicit false

namespace Foundation.Paging

open Foundation.Buffer

variable {α : Type}

def page (entries : List α) (size index : Nat) : List α := slice entries (index * size) size

/-- The entries between two positions. -/
def between (entries : List α) (start stop : Nat) : List α := slice entries start (stop - start)

/-- The runs of consecutive indices in an increasing list, as first and last index. -/
def pushRun (runs : List (Nat × Nat)) (index : Nat) : List (Nat × Nat) :=
  match runs.getLast? with
  | some (first, last) =>
    if last + 1 = index then runs.dropLast ++ [(first, index)] else runs ++ [(index, index)]
  | none => runs ++ [(index, index)]

def runIndices (run : Nat × Nat) : List Nat := List.range' run.1 (run.2 + 1 - run.1)

theorem pushRun_indices {runs : List (Nat × Nat)} (ordered : ∀ run ∈ runs, run.1 ≤ run.2)
    (index : Nat) :
    (pushRun runs index).flatMap runIndices = runs.flatMap runIndices ++ [index] ∧
      ∀ run ∈ pushRun runs index, run.1 ≤ run.2 := by
  have alone : runIndices (index, index) = [index] := by simp [runIndices]
  unfold pushRun
  rcases List.eq_nil_or_concat runs with rfl | ⟨front, ⟨first, last⟩, rfl⟩
  · simp [alone]
  · have inside := ordered (first, last) (by simp)
    simp only [List.concat_eq_append, List.getLast?_append, List.getLast?_singleton, Option.some_or,
      List.dropLast_concat] at ordered ⊢
    split
    · next adjacent =>
      subst adjacent
      refine ⟨?_, fun run member => ?_⟩
      · have extended : runIndices (first, last + 1) = runIndices (first, last) ++ [last + 1] := by
          simp only [runIndices] at inside ⊢
          rw [show last + 1 + 1 - first = (last + 1 - first) + 1 by omega, List.range'_concat]
          congr 2
          omega
        simp [extended]
      · rcases List.mem_append.mp member with member | member
        · exact ordered run (List.mem_append_left _ member)
        · rw [List.mem_singleton.mp member]
          exact Nat.le_succ_of_le inside
    · refine ⟨by simp [alone], fun run member => ?_⟩
      rcases List.mem_append.mp member with member | member
      · exact ordered run member
      · rw [List.mem_singleton.mp member]

theorem slice_slice (entries : List α) {start len skip want : Nat} (inside : skip + want ≤ len) :
    slice (slice entries start len) skip want = slice entries (start + skip) want := by
  apply List.ext_getElem?
  intro i
  simp only [getElem?_slice]
  split
  · next bound => rw [if_pos (by omega), Nat.add_assoc]
  · rfl

/-- A slice never reaches past the end. -/
theorem slice_clamp (entries : List α) (start len : Nat) :
    slice entries start (min len (entries.length - start)) = slice entries start len := by
  apply List.ext_getElem?
  intro i
  simp only [getElem?_slice]
  split
  · next bound => rw [if_pos (by omega)]
  · next beyond =>
    split
    · rw [List.getElem?_eq_none (by omega)]
    · rfl

theorem slice_append (entries : List α) (start first second : Nat) :
    slice entries start first ++ slice entries (start + first) second =
      slice entries start (first + second) := by
  rw [slice, slice, slice, ← List.drop_drop, List.take_add]

theorem slice_blocks (entries : List α) (start size count : Nat) :
    slice entries start (count * size) =
      (List.range count).flatMap fun i => slice entries (start + i * size) size := by
  induction count with
  | zero => rw [Nat.zero_mul, slice_zero, List.range_zero, List.flatMap_nil]
  | succ count ih =>
    rw [List.range_succ, List.flatMap_append, List.flatMap_singleton, ← ih, slice_append, Nat.succ_mul]

theorem between_append (entries : List α) {start middle stop : Nat} (before : start ≤ middle)
    (after : middle ≤ stop) :
    between entries start middle ++ between entries middle stop = between entries start stop := by
  have joined := slice_append entries start (middle - start) (stop - middle)
  rw [show start + (middle - start) = middle by omega,
    show middle - start + (stop - middle) = stop - start by omega] at joined
  exact joined

theorem page_length (entries : List α) (size index : Nat) :
    (page entries size index).length = min size (entries.length - index * size) := by
  simp [page, slice, List.length_take, List.length_drop]

/-- Where the bytes of a run of pages end: at the last page's end, or the sequence's. -/
def runLength (length size first last : Nat) : Nat := min ((last + 1) * size) length - first * size

/-- Piece `step` of a run of pages is the page at that place in the sequence. -/
theorem page_of_run (entries : List α) {size first last step : Nat} (within : first + step ≤ last) :
    page (slice entries (first * size) (runLength entries.length size first last)) size step =
      page entries size (first + step) := by
  have room : (first + step + 1) * size ≤ (last + 1) * size := Nat.mul_le_mul_right _ (by omega)
  have place : (first + step + 1) * size = first * size + step * size + size := by ring
  unfold runLength
  apply List.ext_getElem?
  intro i
  simp only [page, getElem?_slice, Nat.add_mul first]
  split
  · next bound =>
    by_cases inside : step * size + i < min ((last + 1) * size) entries.length - first * size
    · rw [if_pos inside, Nat.add_assoc]
    · rw [if_neg inside, List.getElem?_eq_none (by omega)]
  · rfl

theorem length_of_run (entries : List α) {size first : Nat} (last : Nat)
    (inside : first * size ≤ entries.length) :
    (slice entries (first * size) (runLength entries.length size first last)).length =
      runLength entries.length size first last := by
  apply slice_length
  unfold runLength
  omega

/-- The part of a range that one page holds. -/
def portion (entries : List α) (size start len index : Nat) : List α :=
  between entries (max start (index * size)) (min (start + len) ((index + 1) * size))

theorem between_of_le (entries : List α) {start stop : Nat} (le : stop ≤ start) :
    between entries start stop = [] := by
  rw [between, Nat.sub_eq_zero_of_le le, slice, List.take_zero]

/-- What is taken of a page ends with the page or with the range. -/
theorem portion_take {start len base size total : Nat} (above : start < base + size)
    (reach : base < start + len) (held : start + len ≤ total) :
    min (len - (min (start + len) base - start)) (min size (total - base) - (max start base - base)) =
      min (start + len) (base + size) - max start base := by
  rw [Nat.min_eq_right reach.le]
  rcases Nat.le_total start base with before | behind
  · rw [Nat.max_eq_right before, Nat.sub_self]
    omega
  · rw [Nat.max_eq_left behind, Nat.sub_eq_zero_of_le behind]
    omega

/-- What a page holds of a range follows what the pages before it hold. -/
theorem between_portion (entries : List α) (size start len index : Nat) :
    between entries start (min (start + len) (index * size)) ++ portion entries size start len index =
      between entries start (min (start + len) ((index + 1) * size)) := by
  have grows : index * size ≤ (index + 1) * size := Nat.mul_le_mul_right _ (Nat.le_succ _)
  unfold portion
  rcases Nat.le_total (index * size) start with before | after
  · rw [Nat.max_eq_left before, between_of_le entries (by omega), List.nil_append]
  · rw [Nat.max_eq_right after]
    rcases Nat.le_total (start + len) (index * size) with done | more
    · rw [Nat.min_eq_left done, Nat.min_eq_left (done.trans grows), between_of_le entries done,
        List.append_nil]
    · rw [Nat.min_eq_right more]
      exact between_append entries after (le_min more grows)

theorem portion_eq_slice (entries : List α) (size start len index : Nat) :
    portion entries size start len index =
      slice (page entries size index) (max start (index * size) - index * size)
        (min (start + len) ((index + 1) * size) - max start (index * size)) := by
  have width : (index + 1) * size = index * size + size := Nat.succ_mul _ _
  unfold portion between page
  rcases Nat.le_total (min (start + len) ((index + 1) * size)) (max start (index * size)) with
    empty | positive
  · rw [Nat.sub_eq_zero_of_le empty]
    simp [slice]
  · rw [slice_slice _ (by omega)]
    congr 1
    omega

end Foundation.Paging
