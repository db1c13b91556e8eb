import Oxcdf.Filters.Checked

/-! The loops of both shuffles as they run, each undoing the other.

A byte or a bit is moved at a time into a buffer of zeros. The byte shuffle gathers elements of the
usual widths by a loop whose width is known beforehand. Positions of bits are words, which an element
or a buffer may have too many bits for.
-/

set_option autoImplicit false

namespace Oxcdf.Filters

open Foundation Foundation.Buffer Foundation.Transpose

section Bytes

/-- `out[i] = byte`. -/
def putByte (out : Bytes) (i : Nat) (byte : UInt8) : Code Bytes :=
  if i < out.length then .ok (out.set i byte) else .panic .index

/-- Gather the elements of a shuffled block whose width is known here. -/
def gather (width : Nat) (data out : Bytes) (count : Nat) : Code Bytes := do
  let slots ← (List.range (out.length / width)).mapM fun element =>
    (List.range width).mapM fun byteIndex => byteAt data (byteIndex * count + element)
  pure (slots.flatten ++ out.drop (out.length / width * width))

/-- Gather the elements of any other width. -/
def gatherEach (data out : Bytes) (elementSize count : Nat) : Code Bytes := do
  let slots ← (List.range (out.length / elementSize)).mapM fun element =>
    (List.range elementSize).mapM fun byteIndex => byteAt data (byteIndex * count + element)
  pure (slots.flatten ++ out.drop (out.length / elementSize * elementSize))

/-- The widths netCDF stores have a loop of their own. -/
def gatherByWidth (data out : Bytes) (elementSize count : Nat) : Code Bytes :=
  match elementSize with
  | 2 => gather 2 data out count
  | 4 => gather 4 data out count
  | 8 => gather 8 data out count
  | 16 => gather 16 data out count
  | _ => gatherEach data out elementSize count

/-- What stands behind the whole elements was never shuffled. -/
def copyRest (data out : Bytes) (shuffledLen : Nat) : Code Bytes :=
  if shuffledLen < data.length then copyInto out shuffledLen data.length (data.drop shuffledLen) else .ok out

/-- `unshuffle`, by the width of an element. -/
def unshuffleByWidth (data : Bytes) (elementSize : Nat) : Code Bytes :=
  if elementSize ≤ 1 ∨ data.length ≤ elementSize then .ok data
  else do
    let count := data.length / elementSize
    let shuffledLen := count * elementSize
    let out := List.replicate data.length 0
    let target ← gatherByWidth data (out.take shuffledLen) elementSize count
    copyRest data (target ++ out.drop shuffledLen) shuffledLen

/-- One turn of the inner loop of `shuffle`. -/
def shuffleByte (data : Bytes) (elementSize count byteIndex : Nat) (out : Bytes) (element : Nat) :
    Code Bytes := do
  let byte ← byteAt data (element * elementSize + byteIndex)
  putByte out (byteIndex * count + element) byte

/-- `shuffle` as it runs, byte by byte. -/
def shuffleChecked (data : Bytes) (elementSize : Nat) : Code Bytes :=
  if elementSize ≤ 1 ∨ data.length ≤ elementSize then .ok data
  else do
    let count := data.length / elementSize
    let turns out byteIndex := (List.range count).foldlM (shuffleByte data elementSize count byteIndex) out
    let out ← (List.range elementSize).foldlM turns (List.replicate data.length 0)
    copyRest data out (count * elementSize)

variable {data out target : Bytes} {elementSize count : Nat}

theorem gather_eq (width : Nat) (data out : Bytes) (count : Nat) :
    gather width data out count = gatherEach data out width count := rfl

theorem gatherByWidth_eq (data out : Bytes) (elementSize count : Nat) :
    gatherByWidth data out elementSize count = gatherEach data out elementSize count := by
  unfold gatherByWidth
  split <;> simp [gather_eq]

theorem gatherEach_eq (whole : count * elementSize ≤ data.length) (long : out.length = count * elementSize)
    (positive : 0 < elementSize) :
    gatherEach data out elementSize count = .ok (transpose 0 elementSize count data) := by
  have slots : out.length / elementSize = count := by rw [long, Nat.mul_div_cancel _ positive]
  have bytes : (List.range count).mapM (fun element =>
      (List.range elementSize).mapM fun byteIndex => byteAt data (byteIndex * count + element)) =
        .ok ((List.range count).map fun element =>
          (List.range elementSize).map fun byteIndex => data.getD (byteIndex * count + element) 0) := by
    apply Outcome.mapM_of_ok
    intro element member
    apply Outcome.mapM_of_ok
    intro byteIndex inner
    apply byteAt_of_lt
    have within := entry_lt (List.mem_range.mp inner) (List.mem_range.mp member)
    rw [Nat.mul_comm] at whole
    exact lt_of_lt_of_le within whole
  rw [gatherEach, slots, bytes, ← long, List.drop_length]
  simp [transpose, List.flatMap_def]

theorem copyRest_eq (whole : count * elementSize ≤ data.length) (long : target.length = count * elementSize)
    (room : (target ++ out).length = data.length) :
    copyRest data (target ++ out) (count * elementSize) = .ok (target ++ data.drop (count * elementSize)) := by
  unfold copyRest
  split
  · next more =>
    have fits : (data.drop (count * elementSize)).length = data.length - count * elementSize := List.length_drop
    have stop : count * elementSize + (data.drop (count * elementSize)).length = (target ++ out).length := by
      rw [fits, room]
      exact Nat.add_sub_cancel' whole
    rw [copyInto, if_pos ⟨Nat.le_of_lt more, room.ge, fits⟩, splice, stop, ← long, List.take_left,
      List.drop_length, List.append_nil]
  · next all =>
    have none : out = [] := by
      apply List.eq_nil_of_length_eq_zero
      rw [List.length_append] at room
      omega
    rw [none, List.drop_of_length_le (Nat.not_lt.mp all)]

/-- Whatever the width, the loops gather what the shuffle spread. -/
theorem unshuffleByWidth_eq (data : Bytes) (elementSize : Nat) :
    unshuffleByWidth data elementSize = .ok (unshuffle data elementSize) := by
  unfold unshuffleByWidth
  by_cases shuffles : Shuffles data elementSize
  · have positive : 0 < elementSize := by
      unfold Shuffles at shuffles
      omega
    have whole : data.length / elementSize * elementSize ≤ data.length := Nat.div_mul_le_self _ _
    have zeros : ((List.replicate data.length (0 : UInt8)).take
      (data.length / elementSize * elementSize)).length =
        data.length / elementSize * elementSize := by
      rw [List.length_take, List.length_replicate, Nat.min_eq_left whole]
    have long : (transpose 0 elementSize (data.length / elementSize) data).length =
        data.length / elementSize * elementSize := by
      rw [transpose_length, Nat.mul_comm]
    have room : (transpose 0 elementSize (data.length / elementSize) data ++
        (List.replicate data.length (0 : UInt8)).drop (data.length / elementSize * elementSize)).length =
          data.length := by
      rw [List.length_append, long, List.length_drop, List.length_replicate]
      exact Nat.add_sub_cancel' whole
    rw [if_neg shuffles]
    dsimp only
    rw [gatherByWidth_eq, gatherEach_eq whole zeros positive, Outcome.ok_bind, copyRest_eq whole long room,
      unshuffle_eq shuffles, transposeFront, Nat.mul_comm elementSize]
  · rw [if_pos (not_not.mp shuffles), unshuffle, if_pos (not_not.mp shuffles)]

/-- The front of a buffer is written. -/
structure Filled (target : Bytes) (length done : Nat) (out : Bytes) : Prop where
  length : out.length = length
  front : ∀ i < done, out[i]? = target[i]?

theorem putByte_filled {length done : Nat} {byte : UInt8} (filled : Filled target length done out)
    (room : done < length) (next : target[done]? = some byte) :
    ∃ after, putByte out done byte = .ok after ∧ Filled target length (done + 1) after := by
  have inside : done < out.length := filled.length.symm ▸ room
  refine ⟨out.set done byte, if_pos inside, ?_, ?_⟩
  · rw [List.length_set, filled.length]
  · intro i bound
    by_cases here : i = done
    · subst here
      simp [inside, next]
    · rw [List.getElem?_set_ne (Ne.symm here)]
      exact filled.front i (by omega)

/-- The bytes are put one behind the other, from where they stand in the data. -/
theorem shuffleByte_filled {element byteIndex length : Nat} (whole : count * elementSize ≤ data.length)
    (room : count * elementSize ≤ length) (bound : element < count) (byteBound : byteIndex < elementSize)
    (filled : Filled (transpose 0 count elementSize data) length (byteIndex * count + element) out) :
    ∃ after, shuffleByte data elementSize count byteIndex out element = .ok after ∧
      Filled (transpose 0 count elementSize data) length (byteIndex * count + (element + 1)) after := by
  have source := entry_lt bound byteBound
  have place := entry_lt byteBound bound
  rw [Nat.mul_comm elementSize] at place
  have next := getElem?_transpose 0 data place
  rw [turn_entry elementSize byteIndex bound] at next
  obtain ⟨after, put, kept⟩ := putByte_filled filled (lt_of_lt_of_le place room) next
  refine ⟨after, ?_, kept⟩
  rw [shuffleByte, byteAt_of_lt (lt_of_lt_of_le source whole), Outcome.ok_bind, put]

theorem shuffleChecked_eq (data : Bytes) (elementSize : Nat) :
    shuffleChecked data elementSize = .ok (shuffle data elementSize) := by
  unfold shuffleChecked
  by_cases shuffles : Shuffles data elementSize
  · have whole : data.length / elementSize * elementSize ≤ data.length := Nat.div_mul_le_self _ _
    have start : Filled (transpose 0 (data.length / elementSize) elementSize data) data.length
        (0 * (data.length / elementSize)) (List.replicate data.length 0) :=
      ⟨List.length_replicate, fun i bound => by simp at bound⟩
    -- Byte by byte of an element, and for each of them element by element.
    obtain ⟨out, done, filled⟩ := Outcome.foldlM_range (fun byteIndex => Filled _ data.length
        (byteIndex * (data.length / elementSize))) start fun byteIndex byteBound out held => by
      obtain ⟨next, turned, kept⟩ := Outcome.foldlM_range (fun element => Filled _ data.length
          (byteIndex * (data.length / elementSize) + element)) held fun element bound out held =>
        shuffleByte_filled whole whole bound byteBound held
      exact ⟨next, turned, by rwa [Nat.succ_mul]⟩
    rw [if_neg shuffles]
    dsimp only
    rw [done, Outcome.ok_bind, shuffle_eq shuffles, transposeFront]
    have long := transpose_length 0 (data.length / elementSize) elementSize data
    have front : out.take (data.length / elementSize * elementSize) =
        transpose 0 (data.length / elementSize) elementSize data := by
      apply List.ext_getElem?
      intro i
      rw [List.getElem?_take]
      split
      · next inside => exact filled.front i (by rwa [Nat.mul_comm])
      · next beyond =>
        rw [List.getElem?_eq_none]
        rw [long]
        exact Nat.not_lt.mp beyond
    have split := List.take_append_drop (data.length / elementSize * elementSize) out
    rw [front] at split
    rw [← split, copyRest_eq whole long (by rw [split, filled.length])]
  · rw [if_pos (not_not.mp shuffles), shuffle, if_pos (not_not.mp shuffles)]

/-- Either shuffle undoes the other, for any data and any width of an element, and a loop for one width
gathers what the general one does. -/
theorem shuffle_bijective (data : Bytes) (elementSize : Nat) :
    (shuffleChecked data elementSize >>= fun shuffled => unshuffleByWidth shuffled elementSize) = .ok data ∧
      (unshuffleByWidth data elementSize >>= fun plain => shuffleChecked plain elementSize) = .ok data ∧
      ∀ out count, gatherByWidth data out elementSize count = gatherEach data out elementSize count := by
  refine ⟨?_, ?_, fun out count => gatherByWidth_eq data out elementSize count⟩
  · rw [shuffleChecked_eq, Outcome.ok_bind, unshuffleByWidth_eq, unshuffle_shuffle]
  · rw [unshuffleByWidth_eq, Outcome.ok_bind, shuffleChecked_eq, shuffle_unshuffle]

end Bytes

section Bits

/-- One turn of the inner loop of `bitshuffle`. -/
def bitshuffleBit (build : Build) (data : Bytes) (elements bitRows element : Nat) (out : Bytes) (row : Nat) :
    Code Bytes := do
  let first ← build.mul element bitRows
  let srcBit ← build.add first row
  let byte ← byteAt data (srcBit / 8)
  if byte.toNat.testBit (srcBit % 8) then do
    let start ← build.mul row elements
    let dstBit ← build.add start element
    setBit out dstBit
  else pure out

/-- `bitshuffle` as it runs, bit by bit. -/
def bitshuffleChecked (build : Build) (data : Bytes) (typesize : Nat) : Code Bytes :=
  if typesize = 0 ∨ data.length % typesize ≠ 0 then .ok data
  else do
    let elements := data.length / typesize
    let bitRows ← build.mul typesize 8
    let turns out element := (List.range bitRows).foldlM (bitshuffleBit build data elements bitRows element) out
    (List.range elements).foldlM turns (List.replicate data.length 0)

variable {build : Build} {data : Bytes} {typesize elements bitRows element row : Nat}

/-- Inside the data, both shuffles move a bit alike; rows and columns change places. -/
theorem bitshuffleBit_eq (whole : elements * bitRows = data.length * 8) (fits : data.length * 8 ≤ wordSize)
    (bound : element < elements) (rowBound : row < bitRows) (out : Bytes) :
    bitshuffleBit build data elements bitRows element out row =
      unbitshuffleBit build data bitRows elements element out row := by
  have source := entry_lt bound rowBound
  rw [whole] at source
  have inside : (element * bitRows + row) / 8 < data.length := by omega
  have first : (build.word (element * bitRows) : Code Nat) = .ok (element * bitRows) :=
    Build.word_of_lt _ (by omega)
  have second : (build.word (element * bitRows + row) : Code Nat) = .ok (element * bitRows + row) :=
    Build.word_of_lt _ (by omega)
  simp only [bitshuffleBit, unbitshuffleBit, Build.mul, Build.add, first, second, Outcome.ok_bind,
    byteAt_of_lt inside, if_neg (Nat.not_le.mpr inside)]
  rfl

theorem bitshuffleChecked_eq (rowsFit : typesize * 8 < wordSize) (fits : data.length * 8 ≤ wordSize) :
    bitshuffleChecked build data typesize = .ok (bitshuffle data typesize) := by
  unfold bitshuffleChecked
  by_cases shuffles : Bitshuffles data typesize
  · have whole := bits_eq shuffles
    rw [if_neg shuffles]
    dsimp only
    rw [Build.mul, Build.word_of_lt _ rowsFit, Outcome.ok_bind, bitshuffle_eq shuffles,
      ← turnBits_eq whole fits]
    apply Outcome.foldlM_range_congr
    intro out element bound
    apply Outcome.foldlM_range_congr
    intro out row rowBound
    exact bitshuffleBit_eq whole fits bound rowBound out
  · rw [if_pos (not_not.mp shuffles), bitshuffle, if_pos (not_not.mp shuffles)]

/-- Whatever the bytes of this length, either shuffle undoes the other. -/
def RoundTrips (build : Build) (length typesize : Nat) : Prop :=
  ∀ data : Bytes, data.length = length →
    (bitshuffleChecked build data typesize >>= fun shuffled => unbitshuffleChecked build shuffled typesize) =
        .ok data ∧
      (unbitshuffleChecked build data typesize >>= fun plain =>
        bitshuffleChecked build plain typesize) = .ok data

/-- Nothing is shuffled, or the number of bits of an element and the position of each bit are words; an
unchecked build does no harm where there is nothing. -/
def BitsAreWords (build : Build) (length typesize : Nat) : Prop :=
  typesize = 0 ∨ length % typesize ≠ 0 ∨ (typesize * 8 < wordSize ∧ length * 8 ≤ wordSize) ∨
    build = .release ∧ length = 0

theorem roundTrips_of_words {length : Nat} (words : BitsAreWords build length typesize) :
    RoundTrips build length typesize := by
  rintro data rfl
  by_cases shuffles : Bitshuffles data typesize
  · obtain ⟨some_, whole⟩ := not_or.mp shuffles
    rcases words with none | partial_ | ⟨rowsFit, fits⟩ | ⟨rfl, empty⟩
    · exact absurd none some_
    · exact absurd partial_ whole
    · have there := bitshuffle_length data typesize
      have back := unbitshuffle_length data typesize
      constructor
      · rw [bitshuffleChecked_eq rowsFit fits, Outcome.ok_bind, unbitshuffleChecked_eq rowsFit (by rwa [there]),
          unbitshuffle_bitshuffle]
      · rw [unbitshuffleChecked_eq rowsFit fits, Outcome.ok_bind, bitshuffleChecked_eq rowsFit (by rwa [back]),
          bitshuffle_unbitshuffle]
    · obtain rfl : data = [] := List.eq_nil_of_length_eq_zero empty
      have there : bitshuffleChecked .release [] typesize = .ok [] := by
        rw [bitshuffleChecked, if_neg shuffles]
        simp [Build.mul, Build.word_release, Pure.pure]
      have back : unbitshuffleChecked .release [] typesize = .ok [] := by
        rw [unbitshuffleChecked, if_neg shuffles]
        simp [Build.mul, Build.word_release]
      rw [there, Outcome.ok_bind, back, Outcome.ok_bind, there]
      exact ⟨rfl, rfl⟩
  · have there : bitshuffleChecked build data typesize = .ok data := if_pos (not_not.mp shuffles)
    have back : unbitshuffleChecked build data typesize = .ok data := if_pos (not_not.mp shuffles)
    rw [there, Outcome.ok_bind, back, Outcome.ok_bind, there]
    exact ⟨rfl, rfl⟩

/-- Bytes that differ in the last one only. -/
def endingIn (last : UInt8) (length : Nat) : Bytes := List.replicate (length - 1) 0 ++ [last]

theorem endingIn_length {length : Nat} (positive : 0 < length) (last : UInt8) :
    (endingIn last length).length = length := by
  simp [endingIn]
  omega

/-- An unchecked build does not see the last byte of data whose bits have positions that are no words. -/
theorem unbitshuffleBit_blind {length : Nat} (large : wordSize < length * 8) (first second : UInt8) :
    unbitshuffleBit .release (endingIn first length) elements bitRows row =
      unbitshuffleBit .release (endingIn second length) elements bitRows row := by
  have positive : 0 < length := by omega
  funext out element
  have before (last : UInt8) {i : Nat} (word : i < wordSize) : bitAt (endingIn last length) i = false := by
    have early : i / 8 < length - 1 := by
      unfold wordSize at *
      omega
    rw [bitAt, List.getD_eq_getElem?_getD, endingIn, List.getElem?_append_left (by simpa using early),
      List.getElem?_replicate, if_pos early]
    simp
  simp only [unbitshuffleBit, Build.mul, Build.add, Build.word_release, Outcome.ok_bind,
    endingIn_length positive, before _ (Nat.mod_lt _ wordSize_pos)]

theorem unbitshuffleChecked_blind {length : Nat} (some_ : typesize ≠ 0) (whole : length % typesize = 0)
    (large : ¬ (typesize * 8 < wordSize ∧ length * 8 ≤ wordSize)) (positive : 0 < length)
    (first second : UInt8) :
    unbitshuffleChecked .release (endingIn first length) typesize =
      unbitshuffleChecked .release (endingIn second length) typesize := by
  have elements : length / typesize ≠ 0 := by
    intro none
    have parts := Nat.div_add_mod length typesize
    rw [none, whole] at parts
    omega
  have shuffles : ¬ (typesize = 0 ∨ length % typesize ≠ 0) := by simp [some_, whole]
  simp only [unbitshuffleChecked, endingIn_length positive, if_neg shuffles, Build.mul, Build.word_release,
    Outcome.ok_bind, if_neg elements]
  by_cases long : wordSize < length * 8
  · simp only [unbitshuffleBit_blind long first second]
  · -- Then the data is one element, whose number of bits is kept as zero.
    have one : typesize * 8 = wordSize := by
      have le := Nat.le_of_dvd positive (Nat.dvd_of_mod_eq_zero whole)
      omega
    rw [one, Nat.mod_self]
    rfl

theorem words_of_roundTrips {length : Nat} (round : RoundTrips build length typesize) :
    BitsAreWords build length typesize := by
  by_contra beyond
  unfold BitsAreWords at beyond
  push Not at beyond
  obtain ⟨some_, whole, large, release⟩ := beyond
  have large : ¬ (typesize * 8 < wordSize ∧ length * 8 ≤ wordSize) := fun ⟨rows, fits⟩ =>
    absurd (large rows) (Nat.not_lt.mpr fits)
  cases build with
  | debug =>
    have zeros : (List.replicate length (0 : UInt8)).length = length := List.length_replicate
    have shuffles : Bitshuffles (List.replicate length 0) typesize := by
      rw [Bitshuffles, zeros]
      simp [some_, whole]
    obtain ⟨why, panics⟩ := unbitshuffleChecked_overflow shuffles (by rwa [zeros])
    have back := (round _ zeros).2
    rw [panics] at back
    cases back
  | release =>
    have positive : 0 < length := Nat.pos_of_ne_zero (release rfl)
    have same := unbitshuffleChecked_blind some_ whole large positive 0 1
    have first := (round _ (endingIn_length positive 0)).2
    have second := (round _ (endingIn_length positive 1)).2
    rw [same, second] at first
    have last := List.append_cancel_left (Outcome.ok.inj first)
    cases last

/-- The bit shuffles undo each other for all data of a length, exactly if no position of a bit that
they work out leaves a word. -/
theorem bitshuffle_bijective_iff (build : Build) (length typesize : Nat) :
    RoundTrips build length typesize ↔ BitsAreWords build length typesize :=
  ⟨words_of_roundTrips, roundTrips_of_words⟩

/-- Neither shuffle checks for empty data before it multiplies. -/
theorem bitshuffle_bijective_overflow : ¬ RoundTrips .debug 0 (2 ^ 61) := by
  intro round
  have shuffled : bitshuffleChecked .debug [] (2 ^ 61) = .panic .overflow := by rfl
  have there := (round [] rfl).1
  rw [shuffled] at there
  cases there

end Bits

end Oxcdf.Filters
