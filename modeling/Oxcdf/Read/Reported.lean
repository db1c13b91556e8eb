import Oxcdf.Read.Covered

/-! What a read starts from and what it ends in: the fill value, and the native
order of the bytes. -/

set_option autoImplicit false

namespace Oxcdf.Read

open Foundation Foundation.RowMajor Foundation.Buffer

variable {dataset : DatasetIndex} {slab : Hyperslab} {total : Nat}

section Native

/-- The byte of a stored element that comes to a position of it in native order. -/
def nativeByte (dataset : DatasetIndex) (j : Nat) : Nat :=
  if !dataset.datatype.class_.isVariableLength ∧ dataset.datatype.byteOrder = some .big then
    dataset.elementSize - 1 - j
  else j

theorem nativeByte_lt {j : Nat} (bound : j < dataset.elementSize) :
    nativeByte dataset j < dataset.elementSize := by
  unfold nativeByte
  split <;> omega

theorem nativeOrder_length (out : Bytes) :
    (nativeOrder dataset out dataset.elementSize).length = out.length := by
  unfold nativeOrder swapBytesInPlace
  split
  · split
    · rfl
    · exact reverseBlocks_length _ _
  · rfl

theorem getElem?_nativeOrder {out : Bytes} {k j : Nat} (whole : (k + 1) * dataset.elementSize ≤ out.length)
    (bound : j < dataset.elementSize) :
    (nativeOrder dataset out dataset.elementSize)[k * dataset.elementSize + j]? =
      out[k * dataset.elementSize + nativeByte dataset j]? := by
  unfold nativeOrder nativeByte
  split
  · unfold swapBytesInPlace
    split
    · have only : dataset.elementSize - 1 - j = j := by omega
      rw [only]
    · exact getElem?_reverseBlocks (by omega) bound whole
  · rfl

end Native

section Started

theorem startBuffer_length (chunks : Option (List ChunkRecord)) (elementSize : Nat) :
    (startBuffer dataset chunks slab (List.replicate total 0) elementSize).length = total := by
  unfold startBuffer
  split
  · rw [FillValue.fill_length, List.length_replicate]
  · exact List.length_replicate

theorem Sized.cell_le (sized : Sized dataset slab total) {cell : List Nat} (inside : Inside slab.count cell) :
    (linear slab.count cell + 1) * dataset.elementSize ≤ total := by
  rw [sized.total_eq]
  exact Nat.mul_le_mul_right _ (linear_lt inside)

/-- Where a buffer was filled, every selected element is the fill value. -/
theorem getElem?_filled (sized : Sized dataset slab total) {cell : List Nat} (inside : Inside slab.count cell)
    {j : Nat} (bound : j < dataset.elementSize) :
    (dataset.fillValue.fill (List.replicate total 0) dataset.elementSize)[linear slab.count cell *
      dataset.elementSize + j]? = (dataset.fillValue.element dataset.elementSize)[j]? := by
  have long : (List.replicate total (0 : UInt8)).length = total := List.length_replicate
  have below := sized.cell_le inside
  rw [Nat.succ_mul] at below
  have found := FillValue.getElem?_fill dataset.fillValue sized.element
    (show linear slab.count cell * dataset.elementSize + j < (List.replicate total (0 : UInt8)).length by omega)
  rwa [Nat.mul_add_mod_of_lt bound] at found

/-- A selection that fits in memory was counted without saturation. -/
theorem fits_of_allocated (allocated : slab.count.prod * dataset.elementSize ≤ isizeMax)
    (positive : 0 < slab.count.prod * dataset.elementSize) :
    checkedMul slab.elementCount dataset.elementSize = some (slab.count.prod * dataset.elementSize) := by
  have words := isizeMax_lt_wordSize
  have counted := Nat.le_mul_of_pos_right slab.count.prod (Nat.pos_of_mul_pos_left positive)
  rw [Hyperslab.elementCount, elementCount_of_lt (by omega), checkedMul, if_pos (by omega)]

end Started

section Passed

/-- What a valid read goes through before it reports anything. -/
theorem readHyperslab_eq_ok {build : Build} {ctx : Ctx} {codecs : Codecs} {caches : Caches}
    (valid : slab.validate dataset.shape = .ok ()) {chunks : Option (List ChunkRecord)}
    (resolved : resolvedIndex dataset = .ok chunks) {raw : RawData} {after : Caches} :
    readHyperslab build ctx codecs dataset slab caches = (.ok raw, after) ↔
      dataset.datatype.isDecodable = true ∧
      ∃ total last, checkedMul slab.elementCount dataset.elementSize = some total ∧ total ≤ isizeMax ∧
        readStored build ctx codecs dataset chunks slab dataset.elementSize
          (startBuffer dataset chunks slab (List.replicate total 0) dataset.elementSize) caches =
          (.ok last, after) ∧
        raw = ⟨nativeOrder dataset last dataset.elementSize, dataset.elementSize, slab.count⟩ := by
  unfold readHyperslab
  rw [valid, Session.bind_lift_ok, resolved]
  by_cases decodable : dataset.datatype.isDecodable = true
  · rw [decodable, Bool.not_true, if_neg Bool.false_ne_true]
    simp only [Session.bind_eq_ok, Session.lift_eq_ok, Outcome.ofOption_eq_ok, zeroed_eq_ok]
    constructor
    · rintro ⟨total, _, ⟨fits, rfl⟩, _, _, ⟨same, rfl⟩, _, _, ⟨⟨small, rfl⟩, rfl⟩, last, _, read, done⟩
      cases same
      cases done
      exact ⟨trivial, total, last, fits, small, read, rfl⟩
    · rintro ⟨-, total, last, fits, small, read, rfl⟩
      exact ⟨total, _, ⟨fits, rfl⟩, _, _, ⟨rfl, rfl⟩, _, _, ⟨⟨small, rfl⟩, rfl⟩, last, _, read, rfl⟩
  · rw [Bool.eq_false_iff.mpr decodable, Bool.not_false, if_pos rfl]
    constructor
    · nofun
    · rintro ⟨held, -⟩
      cases held

end Passed

end Oxcdf.Read
