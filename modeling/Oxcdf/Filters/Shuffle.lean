import Oxcdf.Filters
import Oxcdf.Foundation.Transpose

/-! The byte shuffle and the bit shuffle, and that undoing them undoes them.

The byte shuffle transposes a matrix of bytes, the bit shuffle one of bits. Each has an
element in a row, and its transpose has a significance in a row.
-/

set_option autoImplicit false

namespace Oxcdf.Filters

open Foundation Foundation.Buffer Foundation.Transpose

def shuffle (data : Bytes) (elementSize : Nat) : Bytes :=
  if elementSize ≤ 1 ∨ data.length ≤ elementSize then data
  else
    let count := data.length / elementSize
    (List.range elementSize).flatMap (fun byteIndex =>
      (List.range count).map fun element => data.getD (element * elementSize + byteIndex) 0) ++
      data.drop (count * elementSize)

/-- Apply Blosc's bit shuffle. -/
def bitshuffle (data : Bytes) (typesize : Nat) : Bytes :=
  if typesize = 0 ∨ data.length % typesize ≠ 0 then data
  else
    let elements := data.length / typesize
    let bitRows := typesize * 8
    (List.range data.length).map fun byte => byteOfBits fun i =>
      let dst := byte * 8 + i
      bitAt data (dst % elements * bitRows + dst / elements)

section Bytes

variable {data : Bytes} {elementSize : Nat}

/-- The whole elements of a byte string that is shuffled. -/
def Shuffles (data : Bytes) (elementSize : Nat) : Prop := ¬ (elementSize ≤ 1 ∨ data.length ≤ elementSize)

theorem shuffle_eq (shuffles : Shuffles data elementSize) :
    shuffle data elementSize = transposeFront 0 (data.length / elementSize) elementSize data :=
  if_neg shuffles

theorem unshuffle_eq (shuffles : Shuffles data elementSize) :
    unshuffle data elementSize = transposeFront 0 elementSize (data.length / elementSize) data := by
  rw [transposeFront, Nat.mul_comm elementSize]
  exact if_neg shuffles

theorem shuffle_length (data : Bytes) (elementSize : Nat) :
    (shuffle data elementSize).length = data.length := by
  by_cases shuffles : Shuffles data elementSize
  · rw [shuffle_eq shuffles, transposeFront_length 0 (Nat.div_mul_le_self _ _)]
  · rw [shuffle, if_pos (not_not.mp shuffles)]

theorem unshuffle_length (data : Bytes) (elementSize : Nat) :
    (unshuffle data elementSize).length = data.length := by
  by_cases shuffles : Shuffles data elementSize
  · rw [unshuffle_eq shuffles, transposeFront_length 0]
    rw [Nat.mul_comm]
    exact Nat.div_mul_le_self _ _
  · rw [unshuffle, if_pos (not_not.mp shuffles)]

theorem unshuffle_shuffle (data : Bytes) (elementSize : Nat) :
    unshuffle (shuffle data elementSize) elementSize = data := by
  have long := shuffle_length data elementSize
  by_cases shuffles : Shuffles data elementSize
  · have later : Shuffles (shuffle data elementSize) elementSize := by
      rw [Shuffles, long]
      exact shuffles
    rw [unshuffle_eq later, long, shuffle_eq shuffles,
      transposeFront_transposeFront 0 (Nat.div_mul_le_self _ _)]
  · have same : shuffle data elementSize = data := if_pos (not_not.mp shuffles)
    rw [same, unshuffle, if_pos (not_not.mp shuffles)]

theorem shuffle_unshuffle (data : Bytes) (elementSize : Nat) :
    shuffle (unshuffle data elementSize) elementSize = data := by
  have long := unshuffle_length data elementSize
  by_cases shuffles : Shuffles data elementSize
  · have later : Shuffles (unshuffle data elementSize) elementSize := by
      rw [Shuffles, long]
      exact shuffles
    rw [shuffle_eq later, long, unshuffle_eq shuffles, transposeFront_transposeFront 0]
    rw [Nat.mul_comm]
    exact Nat.div_mul_le_self _ _
  · have same : unshuffle data elementSize = data := if_pos (not_not.mp shuffles)
    rw [same, shuffle, if_pos (not_not.mp shuffles)]

end Bytes

section Bits

/-- The byte string of some bits. -/
def ofBits (length : Nat) (bit : Nat → Bool) : Bytes :=
  (List.range length).map fun byte => byteOfBits fun i => bit (byte * 8 + i)

@[simp] theorem ofBits_length (length : Nat) (bit : Nat → Bool) : (ofBits length bit).length = length := by
  simp [ofBits]

theorem sum_of_bits (bit : Nat → Bool) (count : Nat) :
    let total := (List.range count).foldl (fun total i => total + if bit i then 2 ^ i else 0) 0
    total < 2 ^ count ∧ ∀ i < count, total.testBit i = bit i := by
  induction count with
  | zero => simp
  | succ count ih =>
    obtain ⟨small, bits⟩ := ih
    rw [List.range_succ, List.foldl_append]
    generalize (List.range count).foldl (fun total i => total + if bit i then 2 ^ i else 0) 0 = total at *
    rw [List.foldl_cons, List.foldl_nil]
    cases set : bit count with
    | false =>
      simp only [Bool.false_eq_true, if_false, Nat.add_zero]
      refine ⟨by rw [Nat.pow_succ]; omega, fun i bound => ?_⟩
      rcases Nat.lt_succ_iff_lt_or_eq.mp bound with before | rfl
      · exact bits i before
      · rw [set, Nat.testBit_lt_two_pow small]
    | true =>
      simp only [if_true]
      refine ⟨by rw [Nat.pow_succ]; omega, fun i bound => ?_⟩
      rw [Nat.add_comm]
      rcases Nat.lt_succ_iff_lt_or_eq.mp bound with before | rfl
      · rw [Nat.testBit_two_pow_add_gt before, bits i before]
      · rw [Nat.testBit_two_pow_add_eq, Nat.testBit_lt_two_pow small, set]
        rfl

theorem testBit_byteOfBits (bit : Nat → Bool) {i : Nat} (bound : i < 8) :
    (byteOfBits bit).toNat.testBit i = bit i := by
  obtain ⟨small, bits⟩ := sum_of_bits bit 8
  rw [byteOfBits, UInt8.toNat_ofNat_of_lt' small]
  exact bits i bound

theorem byteOfBits_testBit (byte : UInt8) : (byteOfBits fun i => byte.toNat.testBit i) = byte := by
  apply UInt8.toNat_inj.mp
  apply Nat.eq_of_testBit_eq
  intro i
  rcases Nat.lt_or_ge i 8 with bound | beyond
  · rw [testBit_byteOfBits _ bound]
  · have large : 2 ^ 8 ≤ 2 ^ i := Nat.pow_le_pow_right (by decide) beyond
    rw [Nat.testBit_lt_two_pow (Nat.lt_of_lt_of_le (UInt8.toNat_lt _) large),
      Nat.testBit_lt_two_pow (Nat.lt_of_lt_of_le (UInt8.toNat_lt _) large)]

theorem bitAt_ofBits {length i : Nat} (bit : Nat → Bool) (bound : i < length * 8) :
    bitAt (ofBits length bit) i = bit i := by
  have byte : i / 8 < length := by omega
  have parts : i / 8 * 8 + i % 8 = i := by omega
  rw [bitAt, List.getD_eq_getElem?_getD, ofBits, List.getElem?_map, List.getElem?_range byte]
  change (byteOfBits fun k => bit (i / 8 * 8 + k)).toNat.testBit (i % 8) = bit i
  rw [testBit_byteOfBits _ (Nat.mod_lt i (by decide)), parts]

theorem byteOfBits_congr {first second : Nat → Bool} (same : ∀ i < 8, first i = second i) :
    byteOfBits first = byteOfBits second := by
  have fewer (bit : Nat → Bool) : byteOfBits bit = byteOfBits fun i => bit (i % 8) := rfl
  have equal : (fun i => first (i % 8)) = fun i => second (i % 8) := by
    funext i
    exact same (i % 8) (Nat.mod_lt i (by decide))
  rw [fewer first, fewer second, equal]

theorem ofBits_bitAt (data : Bytes) : ofBits data.length (bitAt data) = data := by
  apply List.ext_getElem
  · simp
  · intro byte bound inside
    simp only [ofBits, List.getElem_map, List.getElem_range]
    apply Eq.trans _ (byteOfBits_testBit data[byte])
    apply byteOfBits_congr
    intro i small
    have quotient : (byte * 8 + i) / 8 = byte := by omega
    have remainder : (byte * 8 + i) % 8 = i := by omega
    rw [bitAt, quotient, remainder, List.getD_eq_getElem?_getD, List.getElem?_eq_getElem inside]
    rfl

theorem ofBits_congr {length : Nat} {first second : Nat → Bool}
    (same : ∀ i < length * 8, first i = second i) : ofBits length first = ofBits length second := by
  apply List.map_congr_left
  intro byte member
  have bound := List.mem_range.mp member
  apply byteOfBits_congr
  intro i small
  exact same (byte * 8 + i) (by omega)

variable {data : Bytes} {typesize : Nat}

/-- A byte string of whole elements has its bits shuffled. -/
def Bitshuffles (data : Bytes) (typesize : Nat) : Prop := ¬ (typesize = 0 ∨ data.length % typesize ≠ 0)

theorem bitshuffle_eq (shuffles : Bitshuffles data typesize) :
    bitshuffle data typesize =
      ofBits data.length fun i => bitAt data (turn (data.length / typesize) (typesize * 8) i) :=
  if_neg shuffles

theorem unbitshuffle_eq (shuffles : Bitshuffles data typesize) :
    unbitshuffle data typesize =
      ofBits data.length fun i => bitAt data (turn (typesize * 8) (data.length / typesize) i) := by
  rw [unbitshuffle, if_neg shuffles]
  by_cases none : data.length / typesize = 0
  · -- Less than one element, and whole elements: nothing at all.
    have empty : data.length = 0 := by
      have whole := not_or.mp shuffles
      have parts := Nat.div_add_mod data.length typesize
      rw [none, not_not.mp whole.2] at parts
      simpa using parts.symm
    have nothing := List.eq_nil_of_length_eq_zero empty
    subst nothing
    simp [ofBits]
  · simp only [if_neg none]
    rfl

theorem bits_eq (shuffles : Bitshuffles data typesize) :
    data.length / typesize * (typesize * 8) = data.length * 8 := by
  have whole := Nat.div_mul_cancel (Nat.dvd_of_mod_eq_zero (not_not.mp (not_or.mp shuffles).2))
  rw [← Nat.mul_assoc, whole]

theorem bitshuffle_length (data : Bytes) (typesize : Nat) :
    (bitshuffle data typesize).length = data.length := by
  by_cases shuffles : Bitshuffles data typesize
  · rw [bitshuffle_eq shuffles, ofBits_length]
  · rw [bitshuffle, if_pos (not_not.mp shuffles)]

theorem unbitshuffle_length (data : Bytes) (typesize : Nat) :
    (unbitshuffle data typesize).length = data.length := by
  by_cases shuffles : Bitshuffles data typesize
  · rw [unbitshuffle_eq shuffles, ofBits_length]
  · rw [unbitshuffle, if_pos (not_not.mp shuffles)]

theorem ofBits_turned {rows columns : Nat} (whole : rows * columns = data.length * 8) :
    (ofBits data.length fun i =>
      bitAt (ofBits data.length fun i => bitAt data (turn rows columns i)) (turn columns rows i)) = data := by
  apply Eq.trans _ (ofBits_bitAt data)
  apply ofBits_congr
  intro i bound
  have there : i < columns * rows := by rwa [Nat.mul_comm, whole]
  have turned : turn columns rows i < data.length * 8 := by
    rw [← whole, Nat.mul_comm]
    exact turn_lt there
  rw [bitAt_ofBits _ turned, turn_turn there]

theorem unbitshuffle_bitshuffle (data : Bytes) (typesize : Nat) :
    unbitshuffle (bitshuffle data typesize) typesize = data := by
  have long := bitshuffle_length data typesize
  by_cases shuffles : Bitshuffles data typesize
  · have later : Bitshuffles (bitshuffle data typesize) typesize := by
      rw [Bitshuffles, long]
      exact shuffles
    rw [unbitshuffle_eq later, long, bitshuffle_eq shuffles, ofBits_turned (bits_eq shuffles)]
  · have same : bitshuffle data typesize = data := if_pos (not_not.mp shuffles)
    rw [same, unbitshuffle, if_pos (not_not.mp shuffles)]

theorem bitshuffle_unbitshuffle (data : Bytes) (typesize : Nat) :
    bitshuffle (unbitshuffle data typesize) typesize = data := by
  have long := unbitshuffle_length data typesize
  by_cases shuffles : Bitshuffles data typesize
  · have later : Bitshuffles (unbitshuffle data typesize) typesize := by
      rw [Bitshuffles, long]
      exact shuffles
    rw [bitshuffle_eq later, long, unbitshuffle_eq shuffles, ofBits_turned]
    rw [Nat.mul_comm]
    exact bits_eq shuffles
  · have same : unbitshuffle data typesize = data := if_pos (not_not.mp shuffles)
    rw [same, bitshuffle, if_pos (not_not.mp shuffles)]

end Bits

end Oxcdf.Filters
