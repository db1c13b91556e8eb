import Oxcdf.Filters.Shuffle

/-! The loops of the filters with every index checked and every sum in a word, as they run.

The filters are modelled as functions that read nothing beyond a byte string. Here is
that the loops never would, and when their arithmetic leaves a word.
-/

set_option autoImplicit false

namespace Oxcdf.Filters

open Foundation Foundation.Buffer Foundation.Transpose

/-- `data[i]`. -/
def byteAt (data : Bytes) (i : Nat) : Code UInt8 :=
  match data[i]? with
  | some byte => .ok byte
  | none => .panic .index

theorem byteAt_of_lt {data : Bytes} {i : Nat} (inside : i < data.length) :
    byteAt data i = .ok (data.getD i 0) := by
  rw [byteAt, List.getD_eq_getElem?_getD, List.getElem?_eq_getElem inside]
  rfl

section Shuffled

/-- `unshuffle`, gathering the elements byte by byte. -/
def unshuffleChecked (data : Bytes) (elementSize : Nat) : Code Bytes :=
  if elementSize ≤ 1 ∨ data.length ≤ elementSize then .ok data
  else do
    let count := data.length / elementSize
    let elements ← (List.range count).mapM fun element =>
      (List.range elementSize).mapM fun byteIndex => byteAt data (byteIndex * count + element)
    pure (elements.flatten ++ data.drop (count * elementSize))

theorem unshuffleChecked_eq (data : Bytes) (elementSize : Nat) :
    unshuffleChecked data elementSize = .ok (unshuffle data elementSize) := by
  unfold unshuffleChecked unshuffle
  split
  · rfl
  · dsimp only
    rw [Outcome.mapM_of_ok fun element => (List.range elementSize).map fun byteIndex =>
      data.getD (byteIndex * (data.length / elementSize) + element) 0]
    · rfl
    · intro element member
      apply Outcome.mapM_of_ok
      intro byteIndex inner
      apply byteAt_of_lt
      have within := entry_lt (List.mem_range.mp inner) (List.mem_range.mp member)
      exact lt_of_lt_of_le within (Nat.mul_div_le _ _)

end Shuffled

section Matched

/-- `copyMatch`, reading each byte back from the output. -/
def copyMatchChecked (start : Nat) : Nat → Nat → Bytes → Code Bytes
  | 0, _, out => .ok out
  | length + 1, i, out => do
    let byte ← byteAt out (start + i)
    copyMatchChecked start length (i + 1) (out ++ [byte])

/-- A match that starts in the output stays in it: each byte read has one written behind it. -/
theorem copyMatchChecked_eq {start : Nat} (length i : Nat) {out : Bytes} (inside : start + i < out.length) :
    copyMatchChecked start length i out = .ok (copyMatch start length i out) := by
  induction length generalizing i out with
  | zero => rfl
  | succ length ih =>
    rw [copyMatchChecked, byteAt_of_lt inside, Outcome.ok_bind, copyMatch, ih]
    rw [List.length_append, List.length_singleton]
    omega

end Matched

section Bits

/-- `out[i / 8] |= 1 << (i % 8)`. -/
def setBit (out : Bytes) (i : Nat) : Code Bytes := do
  let byte ← byteAt out (i / 8)
  pure (out.set (i / 8) (byte ||| UInt8.ofNat (2 ^ (i % 8))))

/-- One turn of the inner loop of `unbitshuffle`. -/
def unbitshuffleBit (build : Build) (data : Bytes) (elements bitRows row : Nat) (out : Bytes)
    (element : Nat) : Code Bytes := do
  let start ← build.mul row elements
  let srcBit ← build.add start element
  if data.length ≤ srcBit / 8 then pure out
  else if bitAt data srcBit then do
    let first ← build.mul element bitRows
    let dstBit ← build.add first row
    setBit out dstBit
  else pure out

/-- `unbitshuffle` as it runs, bit by bit. -/
def unbitshuffleChecked (build : Build) (data : Bytes) (typesize : Nat) : Code Bytes :=
  if typesize = 0 ∨ data.length % typesize ≠ 0 then .ok data
  else do
    let elements := data.length / typesize
    let bitRows ← build.mul typesize 8
    let turns out row := (List.range elements).foldlM (unbitshuffleBit build data elements bitRows row) out
    if elements = 0 then pure data
    else (List.range bitRows).foldlM turns (List.replicate data.length 0)

theorem setBit_of_lt {out : Bytes} {i : Nat} (inside : i < out.length * 8) :
    ∃ after, setBit out i = .ok after ∧ after.length = out.length ∧
      ∀ k, bitAt after k = (bitAt out k || decide (k = i)) := by
  have byte : i / 8 < out.length := by omega
  refine ⟨_, by rw [setBit, byteAt_of_lt byte]; rfl, List.length_set, ?_⟩
  intro k
  rw [bitAt, bitAt, List.getD_eq_getElem?_getD, List.getD_eq_getElem?_getD, List.getElem?_set]
  by_cases same : i / 8 = k / 8
  · have small : 2 ^ (i % 8) < 2 ^ 8 := Nat.pow_lt_pow_right (by decide) (Nat.mod_lt i (by decide))
    rw [if_pos same, if_pos byte, Option.getD_some, UInt8.toNat_or, Nat.testBit_or,
      UInt8.toNat_ofNat_of_lt' small, Nat.testBit_two_pow, List.getD_eq_getElem?_getD, same]
    congr 1
    apply decide_eq_decide.mpr
    omega
  · rw [if_neg same, decide_eq_false (by rintro rfl; exact same rfl), Bool.or_false,
      List.getD_eq_getElem?_getD]

variable {build : Build} {data out : Bytes} {typesize elements bitRows row element : Nat}

/-- The bits of the output that come from the first bits of the data have been set. -/
structure Gathered (data : Bytes) (elements bitRows done : Nat) (out : Bytes) : Prop where
  length : out.length = data.length
  bits : ∀ k < data.length * 8,
    bitAt out k = (decide (turn bitRows elements k < done) && bitAt data (turn bitRows elements k))

theorem unbitshuffleBit_gathered (whole : bitRows * elements = data.length * 8)
    (fits : data.length * 8 ≤ wordSize) (rowBound : row < bitRows) (bound : element < elements)
    (gathered : Gathered data elements bitRows (row * elements + element) out) :
    ∃ next, unbitshuffleBit build data elements bitRows row out element = .ok next ∧
      Gathered data elements bitRows (row * elements + (element + 1)) next := by
  have source := entry_lt rowBound bound
  have target : element * bitRows + row < data.length * 8 := by
    rw [← whole, Nat.mul_comm bitRows]
    exact entry_lt bound rowBound
  rw [whole] at source
  -- The one bit of the output that comes from here.
  have here (k : Nat) (inside : k < data.length * 8) :
      turn bitRows elements k = row * elements + element ↔ k = element * bitRows + row := by
    constructor
    · intro same
      have back := @turn_turn bitRows elements k (by rwa [whole])
      rw [same, turn_entry bitRows row bound] at back
      exact back.symm
    · rintro rfl
      exact turn_entry elements element rowBound
  have before (k : Nat) (inside : k < data.length * 8) :
      (decide (turn bitRows elements k < row * elements + (element + 1)) &&
          bitAt data (turn bitRows elements k)) =
        ((decide (turn bitRows elements k < row * elements + element) &&
            bitAt data (turn bitRows elements k)) ||
          (decide (k = element * bitRows + row) && bitAt data (row * elements + element))) := by
    by_cases same : k = element * bitRows + row
    · rw [(here k inside).mpr same]
      simp [same]
    · have other := mt (here k inside).mp same
      have split : turn bitRows elements k < row * elements + (element + 1) ↔
          turn bitRows elements k < row * elements + element := by omega
      simp [same, split]
  unfold unbitshuffleBit Build.mul Build.add
  rw [Build.word_of_lt _ (by omega), Outcome.ok_bind, Build.word_of_lt _ (by omega), Outcome.ok_bind,
    if_neg (by omega)]
  split
  · next set =>
    rw [← gathered.length] at target
    obtain ⟨next, done, long, bits⟩ := setBit_of_lt target
    rw [gathered.length] at target
    rw [Build.word_of_lt _ (by omega), Outcome.ok_bind, Build.word_of_lt _ (by omega), Outcome.ok_bind, done]
    refine ⟨next, rfl, long.trans gathered.length, fun k inside => ?_⟩
    rw [before k inside, bits k, gathered.bits k inside, set, Bool.and_true]
  · next clear =>
    refine ⟨out, rfl, gathered.length, fun k inside => ?_⟩
    rw [before k inside, gathered.bits k inside, Bool.eq_false_of_not_eq_true clear,
      Bool.and_false, Bool.or_false]

theorem turnBits_eq (whole : bitRows * elements = data.length * 8) (fits : data.length * 8 ≤ wordSize) :
    (List.range bitRows).foldlM
        (fun out row => (List.range elements).foldlM (unbitshuffleBit build data elements bitRows row) out)
        (List.replicate data.length 0) =
      .ok (ofBits data.length fun i => bitAt data (turn bitRows elements i)) := by
  have start : Gathered data elements bitRows (0 * elements) (List.replicate data.length 0) := by
    refine ⟨List.length_replicate, fun k inside => ?_⟩
    have byte : k / 8 < data.length := by omega
    simp [bitAt, byte]
  obtain ⟨out, done, gathered⟩ :=
    Outcome.foldlM_range (fun row => Gathered data elements bitRows (row * elements))
      start fun row rowBound out held => by
    obtain ⟨next, turned, kept⟩ := Outcome.foldlM_range (fun element => Gathered data elements bitRows
        (row * elements + element)) held fun element bound out held =>
      @unbitshuffleBit_gathered build data out _ _ row element whole fits rowBound bound held
    exact ⟨next, turned, by rwa [Nat.succ_mul]⟩
  rw [done, ← ofBits_bitAt out, gathered.length]
  congr 1
  apply ofBits_congr
  intro k inside
  rw [gathered.bits k inside, whole, decide_eq_true, Bool.true_and]
  rw [← whole]
  apply turn_lt
  rwa [whole]

/-- With room in a word for the position of each bit, the loop turns the bits back. -/
theorem unbitshuffleChecked_eq (rowsFit : typesize * 8 < wordSize) (fits : data.length * 8 ≤ wordSize) :
    unbitshuffleChecked build data typesize = .ok (unbitshuffle data typesize) := by
  unfold unbitshuffleChecked
  by_cases shuffles : Bitshuffles data typesize
  · rw [if_neg shuffles]
    dsimp only
    rw [Build.mul, Build.word_of_lt _ rowsFit, Outcome.ok_bind]
    split
    · next none =>
      rw [unbitshuffle, if_neg shuffles]
      simp [none]
    · have whole : typesize * 8 * (data.length / typesize) = data.length * 8 := by
        rw [Nat.mul_comm]
        exact bits_eq shuffles
      rw [turnBits_eq whole fits, unbitshuffle_eq shuffles]
  · rw [if_pos (not_not.mp shuffles), unbitshuffle, if_pos (not_not.mp shuffles)]

/-- An unchecked build drops what leaves a word, and finds every byte it then names. -/
theorem unbitshuffleBit_release (large : wordSize ≤ data.length * 8) (long : out.length = data.length) :
    ∃ next, unbitshuffleBit .release data elements bitRows row out element = .ok next ∧
      next.length = data.length := by
  unfold unbitshuffleBit Build.mul Build.add
  simp only [Build.word_release, Outcome.ok_bind]
  split
  · exact ⟨out, rfl, long⟩
  · split
    · have inside := Nat.mod_lt (element * bitRows % wordSize + row) wordSize_pos
      rw [← long] at large
      obtain ⟨next, done, kept, -⟩ := setBit_of_lt (lt_of_lt_of_le inside large)
      exact ⟨next, done, kept.trans long⟩
    · exact ⟨out, rfl, long⟩

theorem unbitshuffleBit_unfailing (out : Bytes) (element : Nat) :
    (unbitshuffleBit build data elements bitRows row out element).Unfailing := by
  have byte (bytes : Bytes) (i : Nat) : (byteAt bytes i).Unfailing := by
    unfold byteAt
    split <;> exact nofun
  unfold unbitshuffleBit
  apply (Build.word_unfailing build _).bind
  intro start
  apply (Build.word_unfailing build _).bind
  intro srcBit
  split
  · exact .ok out
  · split
    · apply (Build.word_unfailing build _).bind
      intro first
      apply (Build.word_unfailing build _).bind
      intro dstBit
      exact (byte out _).bind fun _ => .ok _
    · exact .ok out

theorem unbitshuffleBit_overflow (large : wordSize ≤ row * elements + element) (out : Bytes) :
    (unbitshuffleBit .debug data elements bitRows row out element).Panics := by
  have beyond : ((Build.debug.word (row * elements) : Code Nat) >>= fun start =>
      Build.debug.word (start + element)) = .panic .overflow := by
    rw [Build.word_bind_add, Build.word_debug_of_le large]
  unfold unbitshuffleBit Build.mul Build.add
  rw [← bind_assoc, beyond]
  exact Outcome.panics_panic _

/-- An unchecked build keeps to the output, whatever it drops. -/
theorem unbitshuffleChecked_release (large : ¬ (typesize * 8 < wordSize ∧ data.length * 8 ≤ wordSize)) :
    ¬ (unbitshuffleChecked .release data typesize).Panics := by
  unfold unbitshuffleChecked
  split
  · exact Outcome.not_panics_ok data
  · next shuffles =>
    dsimp only
    rw [Build.mul, Build.word_release, Outcome.ok_bind]
    split
    · exact Outcome.not_panics_ok data
    · next some_ =>
      have long : wordSize ≤ data.length * 8 := by
        have whole := bits_eq shuffles
        have wide : typesize * 8 ≤ data.length / typesize * (typesize * 8) :=
          Nat.le_mul_of_pos_left _ (Nat.pos_of_ne_zero some_)
        rw [whole] at wide
        omega
      obtain ⟨last, done, -⟩ := Outcome.foldlM_range (fun _ (out : Bytes) => out.length = data.length)
        List.length_replicate fun row _ out kept =>
          Outcome.foldlM_range (fun _ (out : Bytes) => out.length = data.length) kept fun element _ out kept =>
            @unbitshuffleBit_release data out (data.length / typesize) (typesize * 8 % wordSize) row element
              long kept
      rw [done]
      exact Outcome.not_panics_ok last

/-- A checked build panics for the last bit at the latest. -/
theorem unbitshuffleChecked_overflow (shuffles : Bitshuffles data typesize)
    (large : ¬ (typesize * 8 < wordSize ∧ data.length * 8 ≤ wordSize)) :
    (unbitshuffleChecked .debug data typesize).Panics := by
  have whole := bits_eq shuffles
  unfold unbitshuffleChecked
  rw [if_neg shuffles]
  dsimp only
  by_cases rows : typesize * 8 < wordSize
  · have long : wordSize < data.length * 8 := Nat.lt_of_not_le fun le => large ⟨rows, le⟩
    rw [Build.mul, Build.word_of_lt _ rows, Outcome.ok_bind]
    obtain ⟨elements, someElements⟩ : ∃ elements, data.length / typesize = elements + 1 := by
      apply Nat.exists_eq_succ_of_ne_zero
      rintro none
      rw [none] at whole
      omega
    obtain ⟨bitRows, someRows⟩ : ∃ bitRows, typesize * 8 = bitRows + 1 := by
      apply Nat.exists_eq_succ_of_ne_zero
      rintro none
      rw [none] at whole
      omega
    rw [someElements, someRows] at whole ⊢
    rw [if_neg (Nat.succ_ne_zero _)]
    have unfailing (row : Nat) := fun out element => @unbitshuffleBit_unfailing .debug data
      (elements + 1) (bitRows + 1) row out element
    apply Outcome.foldlM_range_panics fun out row => Outcome.Unfailing.foldlM (unfailing row) _ out
    intro out
    apply Outcome.foldlM_range_panics (unfailing bitRows)
    intro out
    apply unbitshuffleBit_overflow
    have grown : (elements + 1) * (bitRows + 1) = bitRows * (elements + 1) + elements + 1 := by ring
    rw [grown] at whole
    omega
  · rw [Build.mul, Build.word_debug_of_le (Nat.not_lt.mp rows)]
    exact Outcome.panics_panic _

/-- Undoing the bit shuffle panics exactly in a checked build when the number of bits of an
element or the position of the last bit is no word. -/
theorem unbitshuffleChecked_panics : (unbitshuffleChecked build data typesize).Panics ↔
    build = .debug ∧ Bitshuffles data typesize ∧
      ¬ (typesize * 8 < wordSize ∧ data.length * 8 ≤ wordSize) := by
  by_cases fits : typesize * 8 < wordSize ∧ data.length * 8 ≤ wordSize
  · rw [unbitshuffleChecked_eq fits.1 fits.2]
    simp [fits]
  by_cases shuffles : Bitshuffles data typesize
  · cases build with
    | debug => simp [unbitshuffleChecked_overflow shuffles fits, shuffles, fits]
    | release => simp [unbitshuffleChecked_release fits]
  · unfold unbitshuffleChecked
    rw [if_pos (not_not.mp shuffles)]
    simp [shuffles]

end Bits

end Oxcdf.Filters
