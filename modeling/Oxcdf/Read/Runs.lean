import Oxcdf.Read

/-! The runs of a dense read, exactly.

Whatever the build, the source of a run is its exact element index put into one
word, and the places of the runs in the output follow each other without a gap.
-/

set_option autoImplicit false

namespace Oxcdf.Read

open Foundation Foundation.RowMajor

variable (build : Build)

section Cut

/-- A range with a checked end that is cut out of a buffer lies in it. -/
theorem cut_eq {data cut : Bytes} {start len stop : Nat} (end_ : (build.word (start + len) : Code Nat) = .ok stop)
    (startWord : start < wordSize) (lenWord : len < wordSize)
    (done : (Buffer.range data start stop : Code Bytes) = .ok cut) :
    start + len ≤ data.length ∧ cut = Buffer.slice data start len := by
  obtain ⟨le, inside, rfl⟩ := Buffer.range_eq_ok.mp done
  have exact_ := Build.stop_eq_of_le end_ startWord lenWord le
  rw [exact_] at inside ⊢
  exact ⟨inside, by rw [Nat.add_sub_cancel_left]⟩

end Cut

section Strides

theorem stridesOf_eq : ∀ shape : List Nat, stridesOf build shape = build.words (RowMajor.strides shape)
  | [] => rfl
  | [n] => by
    change Outcome.ok [1] = build.words [1]
    rw [Build.words_of_lt build (by simp [wordSize])]
  | n :: dim :: shape => by
    rw [stridesOf, stridesOf_eq (dim :: shape), strides_cons n, Build.words_cons, List.prod_cons]
    cases found : (build.words (RowMajor.strides (dim :: shape)) : Code (List Nat)) with
    | error e => exact absurd found (Build.words_ne_error build _ e)
    | panic why =>
      obtain ⟨rfl, rfl⟩ := Build.words_eq_panic found
      cases head : (Build.debug.word (dim * shape.prod) : Code Nat) with
      | ok stride => rfl
      | error e => exact absurd head (Build.word_ne_error _ _ _)
      | panic why =>
        obtain ⟨_, _, rfl⟩ := Build.word_eq_panic.mp head
        rfl
    | ok rest =>
      have scaled : (build.mul (rest.headD 1) dim : Code Nat) = build.word (dim * shape.prod) := by
        rw [strides_cons, Build.words_cons] at found
        obtain ⟨stride, fits, found⟩ := Outcome.bind_eq_ok.mp found
        obtain ⟨others, _, rfl⟩ := Outcome.map_eq_ok.mp found
        rw [List.headD_cons, Build.mul, Nat.mul_comm dim]
        cases build with
        | debug =>
          by_cases small : shape.prod < wordSize
          · rw [Build.word_of_lt _ small] at fits
            cases fits
            rfl
          · rw [Build.word_debug_of_le (Nat.not_lt.mp small)] at fits
            cases fits
        | release =>
          rw [Build.word_release] at fits
          cases fits
          rw [Build.word_release, Build.word_release, Nat.mod_mul_mod]
      rw [Outcome.ok_bind, scaled]
      rfl

/-- The strides of a selection of at least one element that fits a word are exact. -/
theorem strides_eq_ok {shape : List Nat} (positive : 0 < shape.prod) (small : shape.prod < wordSize) :
    strides build shape = .ok (RowMajor.strides shape) := by
  unfold strides
  rw [stridesOf_eq]
  exact Build.words_of_lt build fun stride member =>
    lt_of_le_of_lt (stride_le_prod positive stride member) small

/-- The odometer's position is the exact weighted sum, put into a word. -/
theorem position_eq : ∀ {start index strides dstStrides : List Nat} {src dst : Nat},
    index.length ≤ start.length → index.length ≤ strides.length → index.length ≤ dstStrides.length →
    (∀ coord ∈ shift start index, coord < wordSize) → src < wordSize → dst < wordSize →
    position build start index strides dstStrides (src, dst) =
      build.word (src + dot (shift start index) strides) >>= fun src =>
        build.word (dst + dot index dstStrides) >>= fun dst => .ok (src, dst)
  | start, [], strides, dstStrides, src, dst, _, _, _, _, srcWord, dstWord => by
    have none : shift start [] = [] := by cases start <;> rfl
    rw [none, dot_nil_left, dot_nil_left, Nat.add_zero, Nat.add_zero, Build.word_of_lt _ srcWord,
      Outcome.ok_bind, Build.word_of_lt _ dstWord, Outcome.ok_bind]
    cases start <;> rfl
  | s :: start, i :: index, stride :: strides, dstStride :: dstStrides, src, dst, starts, weights,
      dstWeights, coords, srcWord, dstWord => by
    have coord : s + i < wordSize := coords (s + i) (by simp)
    simp only [position, Build.add, Build.word_of_lt _ coord, Outcome.ok_bind]
    exact Build.addAxis_eq build (fun src dst srcWord dstWord =>
      position_eq (Nat.le_of_succ_le_succ starts) (Nat.le_of_succ_le_succ weights)
        (Nat.le_of_succ_le_succ dstWeights) (fun c member => coords c (by simp [member])) srcWord dstWord)
      srcWord dstWord (s + i) stride i dstStride

end Strides

section Runs

def leadAxis (slab : Hyperslab) (shape : List Nat) : Nat := growRun slab shape (shape.length - 1)

/-- The axes that the odometer runs over. -/
def outerBox (slab : Hyperslab) (shape : List Nat) : List Nat := slab.count.take (leadAxis slab shape)

/-- How many elements one run has. -/
def runLength (slab : Hyperslab) (shape : List Nat) : Nat := (slab.count.drop (leadAxis slab shape)).prod

/-- The linear index of the first element of a run. -/
def runSource (slab : Hyperslab) (shape index : List Nat) : Nat :=
  linear shape slab.start + dot index (RowMajor.strides shape)

theorem growRun_spec (slab : Hyperslab) (shape : List Nat) : ∀ axis,
    growRun slab shape axis ≤ axis ∧ ∀ k, growRun slab shape axis < k → k ≤ axis →
      slab.start.getD k 0 = 0 ∧ slab.count.getD k 0 = shape.getD k 0
  | 0 => ⟨Nat.le_refl 0, fun k above below => absurd below (Nat.not_le.mpr above)⟩
  | axis + 1 => by
    obtain ⟨bound, full⟩ := growRun_spec slab shape axis
    rw [growRun]
    split
    · next whole =>
      refine ⟨bound.trans (Nat.le_succ axis), fun k above below => ?_⟩
      rcases Nat.lt_or_ge axis k with last | before
      · have same : k = axis + 1 := by omega
        rw [same]
        exact whole
      · exact full k above before
    · exact ⟨Nat.le_refl _, fun k above below => absurd below (Nat.not_le.mpr above)⟩

variable {slab : Hyperslab} {shape : List Nat}

theorem outerBox_mul_runLength (slab : Hyperslab) (shape : List Nat) :
    (outerBox slab shape).prod * runLength slab shape = slab.count.prod := by
  unfold outerBox runLength
  rw [← List.prod_append, List.take_append_drop]

theorem leadAxis_lt (ranked : 0 < shape.length) : leadAxis slab shape < shape.length :=
  lt_of_le_of_lt (growRun_spec slab shape (shape.length - 1)).1 (Nat.sub_lt ranked Nat.one_pos)

/-- After the leading axis the selection starts at zero and is as long as the shape. -/
theorem full_after_lead (within : Hyperslab.Within slab.start slab.count shape) {k : Nat}
    (beyond : leadAxis slab shape < k) :
    slab.start.getD k 0 = 0 ∧ slab.count.getD k 0 = shape.getD k 0 := by
  obtain ⟨sameStart, sameCount⟩ := within.lengths
  rcases Nat.lt_or_ge k shape.length with inside | outside
  · exact (growRun_spec slab shape (shape.length - 1)).2 k beyond (by omega)
  · simp [List.getD_eq_getElem?_getD, sameStart, sameCount, outside]

/-- The runs of a selection: each source is an exact index put into one word, and
the runs lie in the output one after the other. -/
theorem forEachRun_eq (ranked : 0 < shape.length) (positive : 0 < slab.count.prod)
    (small : slab.count.prod < wordSize) (within : Hyperslab.Within slab.start slab.count shape)
    (stops : ∀ stop ∈ shift slab.start slab.count, stop < wordSize) :
    forEachRun build shape slab = build.words (RowMajor.strides shape) >>= fun _ =>
      .ok ((cells (outerBox slab shape)).map fun index =>
        build.word (runSource slab shape index) >>= fun src => .ok {
          src, dst := linear (outerBox slab shape) index * runLength slab shape
          run := runLength slab shape }) := by
  have product := outerBox_mul_runLength slab shape
  have outerPos : 0 < (outerBox slab shape).prod := Nat.pos_of_mul_pos_right (product ▸ positive)
  have runPos : 0 < runLength slab shape := Nat.pos_of_mul_pos_left (product ▸ positive)
  have outerSmall : (outerBox slab shape).prod < wordSize :=
    lt_of_le_of_lt (Nat.le_of_dvd positive (Dvd.intro _ product)) small
  have runSmall : runLength slab shape < wordSize :=
    lt_of_le_of_lt (Nat.le_of_dvd positive (Dvd.intro_left _ product)) small
  obtain ⟨sameStart, sameCount⟩ := within.lengths
  have lead : leadAxis slab shape < shape.length := leadAxis_lt ranked
  unfold forEachRun
  rw [if_neg (by omega), Hyperslab.elementCount, elementCount_of_lt small, if_neg (by omega)]
  simp only [strides_eq_ok build positive small, Outcome.ok_bind]
  unfold strides
  rw [stridesOf_eq]
  apply Outcome.bind_congr
  intro srcStrides found
  have weights := Build.words_length found
  change (if elementCount (slab.count.drop (leadAxis slab shape)) = 0 then _ else _) = _
  rw [elementCount_of_lt (show (slab.count.drop (leadAxis slab shape)).prod < wordSize from runSmall),
    if_neg (show ¬ (slab.count.drop (leadAxis slab shape)).prod = 0 by
      change ¬ runLength slab shape = 0
      omega)]
  change Outcome.ok ((orbit (outerBox slab shape) (elementCount (outerBox slab shape))
    (origin (outerBox slab shape))).map _) = _
  rw [elementCount_of_lt outerSmall, orbit_origin]
  congr 1
  apply List.map_congr_left
  intro index member
  have inside := mem_cells.mp member
  have long : index.length = leadAxis slab shape := by
    rw [inside.length_eq, outerBox, List.length_take]
    omega
  have places : dot index (RowMajor.strides slab.count) =
      linear (outerBox slab shape) index * runLength slab shape := by
    have split := dot_strides_append (slab.count.drop (leadAxis slab shape)) inside.length_eq
    rwa [outerBox, List.take_append_drop] at split
  have placeSmall : dot index (RowMajor.strides slab.count) < wordSize := by
    rw [places]
    have bound := Nat.mul_le_mul_right (runLength slab shape) (linear_lt inside).le
    exact lt_of_le_of_lt bound (by rwa [product])
  -- Behind the leading axis the selection starts at zero, so nothing is added there.
  have srcLead : dot (shift slab.start index) srcStrides +
      slab.start.getD index.length 0 * srcStrides.getD index.length 0 =
        dot slab.start srcStrides + dot index srcStrides :=
    dot_shift_lead (by omega) (by rw [weights, strides_length, sameStart])
      fun k beyond => (full_after_lead within (long ▸ beyond)).1
  rw [position_eq build (by omega) (by rw [weights, strides_length]; omega)
    (by rw [strides_length]; omega) (Hyperslab.shift_lt_of_inside _ stops inside) wordSize_pos wordSize_pos,
    Nat.zero_add, Nat.zero_add, Build.word_of_lt _ placeSmall]
  simp only [Outcome.ok_bind, bind_assoc, Build.mul, Build.add]
  have source : (build.word (dot slab.start srcStrides + dot index srcStrides) : Code Nat) =
      build.word (runSource slab shape index) := by
    rw [Build.word_dot_words found, Nat.add_comm, Build.word_dot_words found, Nat.add_comm, runSource,
      linear_eq_dot]
  rw [← places, ← source, ← srcLead, long, ← Build.word_bind_word_add]
  simp only [bind_assoc]
  rw [elementCount_of_lt (show (slab.count.drop (growRun slab shape (shape.length - 1))).prod < wordSize
    from runSmall)]
  rfl

end Runs

end Oxcdf.Read
