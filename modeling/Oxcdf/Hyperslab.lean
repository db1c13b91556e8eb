import Oxcdf.Error
import Oxcdf.Foundation.Addressing

/-! A rectangular selection of a dataset, and how many elements a shape holds. -/

set_option autoImplicit false

namespace Oxcdf

open Foundation

/-- How many elements a shape holds, saturating rather than overflowing. -/
def elementCount (dims : List Nat) : Nat := dims.foldl saturatingMul 1

/-- Row-major strides of a shape, computed from the last axis on. -/
def stridesOf (build : Build) : List Nat → Code (List Nat)
  | [] => .ok []
  | [_] => .ok [1]
  | _ :: dim :: shape => do
    let rest ← stridesOf build (dim :: shape)
    let stride ← build.mul (rest.headD 1) dim
    .ok (stride :: rest)

/-- The element a run starts at in the data, and in the output, summed over the
axes that the odometer runs over. -/
def position (build : Build) : List Nat → List Nat → List Nat → List Nat → Nat × Nat →
    Code (Nat × Nat)
  | s :: start, i :: index, stride :: strides, dstStride :: dstStrides, (src, dst) => do
    let coord ← build.add s i
    let step ← build.mul coord stride
    let src ← build.add src step
    let dstStep ← build.mul i dstStride
    let dst ← build.add dst dstStep
    position build start index strides dstStrides (src, dst)
  | _, _, _, _, found => .ok found

structure Hyperslab where
  start : List Nat
  count : List Nat
  deriving DecidableEq, Repr

namespace Hyperslab

def all (shape : List Nat) : Hyperslab := { start := shape.map fun _ => 0, count := shape }

def elementCount (slab : Hyperslab) : Nat := Oxcdf.elementCount slab.count

/-- Check one axis after the other. -/
def validateAxes : Nat → List Nat → List Nat → List Nat → Code Unit
  | axis, s :: start, c :: count, dim :: shape =>
    match checkedAdd s c with
    | none => .error (.badRequest s!"selection on axis {axis} overflows")
    | some stop =>
      if stop > dim then
        .error (.badRequest
          s!"selection [{s}, {stop}) on axis {axis} runs past the dimension size {dim}")
      else validateAxes (axis + 1) start count shape
  | _, _, _, _ => .ok ()

/-- Check the selection lies inside `shape`. -/
def validate (slab : Hyperslab) (shape : List Nat) : Code Unit :=
  if slab.start.length ≠ shape.length ∨ slab.count.length ≠ shape.length then
    let starts := slab.start.length
    let counts := slab.count.length
    let rank := shape.length
    .error (.badRequest
      s!"selection has rank {starts}/{counts} but the dataset has rank {rank}")
  else validateAxes 0 slab.start slab.count shape

/-- On every axis the selection ends inside the shape. -/
def Within : List Nat → List Nat → List Nat → Prop
  | [], [], [] => True
  | s :: start, c :: count, dim :: shape => s + c ≤ dim ∧ Within start count shape
  | _, _, _ => False

end Hyperslab

section Counts

theorem foldl_saturatingMul (dims : List Nat) : ∀ total : Nat,
    dims.foldl saturatingMul (min total (wordSize - 1)) = min (total * dims.prod) (wordSize - 1) := by
  induction dims with
  | nil => simp
  | cons dim dims ih =>
    intro total
    have step : saturatingMul (min total (wordSize - 1)) dim = min (total * dim) (wordSize - 1) := by
      unfold saturatingMul
      rcases Nat.le_total total (wordSize - 1) with small | large
      · rw [Nat.min_eq_left small]
      · rw [Nat.min_eq_right large]
        rcases Nat.eq_zero_or_pos dim with rfl | positive
        · simp
        · rw [Nat.min_eq_right (Nat.le_mul_of_pos_right _ positive),
            Nat.min_eq_right (large.trans (Nat.le_mul_of_pos_right _ positive))]
    rw [List.foldl_cons, step, ih, List.prod_cons, Nat.mul_assoc]

/-- The count is the product, clamped to the largest word. -/
theorem elementCount_eq (dims : List Nat) : elementCount dims = min dims.prod (wordSize - 1) := by
  have found := foldl_saturatingMul dims 1
  rwa [Nat.min_eq_left (by decide), Nat.one_mul] at found

theorem elementCount_of_lt {dims : List Nat} (small : dims.prod < wordSize) :
    elementCount dims = dims.prod := by
  rw [elementCount_eq]
  exact Nat.min_eq_left (by omega)

end Counts

namespace Hyperslab

theorem Within.lengths : ∀ {start count shape : List Nat}, Within start count shape →
    start.length = shape.length ∧ count.length = shape.length
  | [], [], [], _ => ⟨rfl, rfl⟩
  | _ :: _, _ :: _, _ :: _, within =>
    ⟨congrArg (· + 1) within.2.lengths.1, congrArg (· + 1) within.2.lengths.2⟩

theorem validateAxes_eq_ok : ∀ {start count shape : List Nat} (axis : Nat),
    start.length = shape.length → count.length = shape.length → (∀ dim ∈ shape, dim < wordSize) →
    (validateAxes axis start count shape = .ok () ↔ Within start count shape)
  | [], [], [], _, _, _, _ => by simp [validateAxes, Within]
  | [], _ :: _, _, _, sameStart, sameCount, _ => by rw [← sameStart] at sameCount; cases sameCount
  | _ :: _, [], _, _, sameStart, sameCount, _ => by rw [← sameStart] at sameCount; cases sameCount
  | s :: start, c :: count, dim :: shape, axis, sameStart, sameCount, words => by
    have ih := validateAxes_eq_ok (axis + 1) (Nat.succ.inj sameStart) (Nat.succ.inj sameCount)
      fun d member => words d (by simp [member])
    have small := words dim (by simp)
    simp only [validateAxes, Within, ← ih, checkedAdd]
    by_cases fits : s + c ≤ dim
    · simp only [if_pos (show s + c < wordSize by omega), if_neg (Nat.not_lt.mpr fits), fits, true_and]
    · by_cases word : s + c < wordSize
      · simp [if_pos word, if_pos (Nat.lt_of_not_le fits), fits]
      · simp [if_neg word, fits]

/-- A cell of the leading axes of a selection ends before those axes do. -/
theorem shift_lt_of_inside : ∀ (lead : Nat) {start count index : List Nat},
    (∀ stop ∈ RowMajor.shift start count, stop < wordSize) → RowMajor.Inside (count.take lead) index →
    ∀ coord ∈ RowMajor.shift start index, coord < wordSize
  | 0, start, count, [], _, _ => by cases start <;> simp [RowMajor.shift]
  | _ + 1, [], _, _, _, _ => by simp [RowMajor.shift]
  | _ + 1, s :: start, [], [], _, _ => by simp [RowMajor.shift]
  | lead + 1, s :: start, c :: count, i :: index, stops, inside => by
    intro coord member
    have here := stops (s + c) (by simp)
    rcases List.mem_cons.mp member with rfl | member
    · exact lt_trans (Nat.add_lt_add_left inside.1 s) here
    · exact shift_lt_of_inside lead (fun stop later => stops stop (by simp [later])) inside.2 coord member

/-- What passes validation lies inside the shape, and no axis of it ends past the
largest word. -/
theorem within_of_validateAxes : ∀ {start count shape : List Nat} (axis : Nat),
    start.length = shape.length → count.length = shape.length →
    validateAxes axis start count shape = .ok () →
    Within start count shape ∧ ∀ stop ∈ RowMajor.shift start count, stop < wordSize
  | [], [], [], _, _, _, _ => ⟨trivial, by simp [RowMajor.shift]⟩
  | [], _ :: _, _, _, sameStart, sameCount, _ => by rw [← sameStart] at sameCount; cases sameCount
  | _ :: _, [], _, _, sameStart, sameCount, _ => by rw [← sameStart] at sameCount; cases sameCount
  | s :: start, c :: count, dim :: shape, axis, sameStart, sameCount, valid => by
    unfold validateAxes at valid
    split at valid
    · cases valid
    · next stop found =>
      split at valid
      · cases valid
      · next inside =>
        unfold checkedAdd at found
        split at found
        · next small =>
          obtain ⟨within, words⟩ := within_of_validateAxes (axis + 1) (Nat.succ.inj sameStart)
            (Nat.succ.inj sameCount) valid
          cases found
          refine ⟨⟨Nat.not_lt.mp inside, within⟩, fun stop member => ?_⟩
          rcases List.mem_cons.mp member with rfl | member
          · exact small
          · exact words stop member
        · cases found

theorem within_of_validate {slab : Hyperslab} {shape : List Nat} (valid : slab.validate shape = .ok ()) :
    Within slab.start slab.count shape ∧
      ∀ stop ∈ RowMajor.shift slab.start slab.count, stop < wordSize := by
  unfold validate at valid
  split at valid
  · cases valid
  · next ranks =>
    obtain ⟨sameStart, sameCount⟩ := not_or.mp ranks
    exact within_of_validateAxes 0 (not_not.mp sameStart) (not_not.mp sameCount) valid

end Hyperslab

end Oxcdf
