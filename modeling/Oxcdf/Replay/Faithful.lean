import Oxcdf.Replay

/-! The replay driver returns what the walk returns over the whole file.

The pages a driver holds are the file's throughout. A round over them either
sees no difference to the whole file, or some read of it was answered with
`Incomplete` and recorded a page that was not held; the next fetch brings every
recorded page, so no round asks for what the one before it asked for.
-/

set_option autoImplicit false

namespace Oxcdf

open Foundation Foundation.Buffer

/-- The pages held are the file's. -/
def TruePages (file : FileImage) (pageSize : Nat) (pages : Nat → Option Bytes) : Prop :=
  ∀ index bytes, pages index = some bytes → bytes = Paging.page file.bytes pageSize index

/-- A zero-length range that starts past the end of the file. -/
def StrayRange (file : FileImage) (range : Nat × Nat) : Prop := range.2 = 0 ∧ file.size < range.1

/-- A read of a zero-length range past the end, which the page store answers and
the file refuses. -/
def Stray (file : FileImage) : SourceCall → Prop
  | .size => False
  | .readExactAt offset len => StrayRange file (offset, len)
  | .readVec offset len => StrayRange file (offset, len)
  | .readRanges ranges => ∃ range ∈ ranges, StrayRange file range

instance (file : FileImage) (range : Nat × Nat) : Decidable (StrayRange file range) :=
  inferInstanceAs (Decidable (_ ∧ _))

instance (file : FileImage) : (call : SourceCall) → Decidable (Stray file call)
  | .size => .isFalse id
  | .readExactAt offset len => inferInstanceAs (Decidable (StrayRange file (offset, len)))
  | .readVec offset len => inferInstanceAs (Decidable (StrayRange file (offset, len)))
  | .readRanges ranges => inferInstanceAs (Decidable (∃ range ∈ ranges, StrayRange file range))

/-- Once a read was answered with `Incomplete`, the walk ends in `Incomplete` or
in some value. -/
def Walk.Disciplined {α : Type} (walk : Walk α) : Prop :=
  ∀ (source : ByteSource) (call : SourceCall), call ∈ walk.asked source.answer →
    source.answer call = .error .incomplete →
    walk.against source = .error .incomplete ∨ ∃ value, walk.against source = .ok value

namespace ReplaySource

/-- A replay source that shows a file: its size and some of its pages. -/
structure Shows (source : ReplaySource) (file : FileImage) : Prop where
  size : source.size = file.size
  positive : 0 < source.pageSize
  pages : TruePages file source.pageSize source.pages

/-- The file as a page store that holds all of it shows it: zero-length reads
succeed anywhere. -/
def lenient (file : FileImage) : ByteSource where
  size := file.size
  readExactAt := readExactAt
  readVec := ByteSource.defaultReadVec readExactAt
  readRanges := ByteSource.defaultReadRanges (ByteSource.defaultReadVec readExactAt)
where
  readExactAt (offset len : Nat) : Code Bytes :=
    if len = 0 then .ok [] else (fileSource file).readExactAt offset len

/-- A step answers as the whole file does, or records missing pages and is
incomplete. What it answers and records does not depend on what is recorded. -/
def Answers {β : Type} (source : ReplaySource) (file : FileImage)
    (step : Session Wanted Error β) (whole : Code β) : Prop :=
  ∃ (missing : List Nat) (answer : Code β),
    (∀ wanted, step wanted = (answer, wanted.insertAll missing)) ∧
    (∀ index ∈ missing, index * source.pageSize < file.size ∧ source.pages index = none) ∧
    (answer = whole ∨ answer = .error .incomplete ∧ missing ≠ [] ∧ ∃ value, whole = .ok value)

variable {source : ReplaySource} {file : FileImage}

theorem fill_spec (shows_ : source.Shows file) {offset len : Nat} (held : file.Holds offset len)
    (some_ : 0 < len) : ∀ (count index : Nat), offset < (index + 1) * source.pageSize →
      (∀ i, index ≤ i → i < index + count →
        source.pages i ≠ none ∧ i * source.pageSize < offset + len) →
      offset + len ≤ (index + count) * source.pageSize →
      source.fill offset len (List.range' index count)
          (Paging.between file.bytes offset (min (offset + len) (index * source.pageSize))) =
        .ok (file.part offset len)
  | 0, index, _, _, ends => by
    have whole : Paging.between file.bytes offset (offset + len) = file.part offset len := by
      rw [Paging.between, Nat.add_sub_cancel_left]
      rfl
    have long := file.part_length held
    rw [Nat.add_zero] at ends
    rw [Nat.min_eq_left ends, whole, List.range'_zero, fill, if_neg (not_not_intro long)]
  | count + 1, index, above, present, ends => by
    have width : (index + 1) * source.pageSize = index * source.pageSize + source.pageSize :=
      Nat.succ_mul _ _
    obtain ⟨there, reach⟩ := present index (le_refl _) (by omega)
    obtain ⟨page, found⟩ := Option.ne_none_iff_exists'.mp there
    have true_ := shows_.pages index page found
    have long : page.length = min source.pageSize (file.size - index * source.pageSize) := by
      rw [true_]
      exact Paging.page_length _ _ _
    have room : file.Holds offset len := held
    unfold FileImage.Holds at room
    have doneLength : (Paging.between file.bytes offset
        (min (offset + len) (index * source.pageSize))).length =
          min (offset + len) (index * source.pageSize) - offset := by
      rw [Paging.between]
      apply slice_length
      unfold FileImage.size at room
      omega
    have positive := shows_.positive
    have inside : ¬ max offset (index * source.pageSize) - index * source.pageSize ≥ page.length := by
      omega
    have take : min (len - (min (offset + len) (index * source.pageSize) - offset))
        (page.length - (max offset (index * source.pageSize) - index * source.pageSize)) =
          min (offset + len) ((index + 1) * source.pageSize) - max offset (index * source.pageSize) := by
      rw [long, width]
      exact Paging.portion_take (width ▸ above) reach held
    have next := Paging.between_portion file.bytes source.pageSize offset len index
    rw [Paging.portion_eq_slice, ← true_] at next
    rw [List.range'_succ, fill, found]
    simp only [doneLength]
    rw [if_neg inside, take, next]
    refine fill_spec shows_ held some_ count (index + 1) ?_
      (fun i low high => present i (by omega) (by omega)) ?_
    · exact above.trans_le (Nat.mul_le_mul_right _ (Nat.le_succ _))
    · rwa [Nat.add_right_comm, Nat.add_assoc]

/-- The pages of a read that are not held. -/
def lacking (source : ReplaySource) (offset len : Nat) : List Nat :=
  (source.indices offset len).filter fun index => (source.pages index).isNone

theorem mem_indices {offset len index : Nat} : index ∈ source.indices offset len ↔
    offset / source.pageSize ≤ index ∧ index ≤ (offset + len - 1) / source.pageSize := by
  simp only [indices, span, List.mem_range'_1]
  constructor <;> intro bounds
  · omega
  · have : offset / source.pageSize ≤ (offset + len - 1) / source.pageSize := bounds.1.trans bounds.2
    omega

/-- The pages of a read in the file begin in the file. -/
theorem indices_inside (shows_ : source.Shows file) {offset len : Nat} (some_ : 0 < len) :
    ∀ index ∈ source.indices offset len, index * source.pageSize < offset + len := by
  intro index member
  have := (Nat.le_div_iff_mul_le shows_.positive).mp (mem_indices.mp member).2
  omega

/-- A read in the file is answered when no page of it is lacking, and records the
lacking ones otherwise. -/
theorem readExactAt_of_holds (shows_ : source.Shows file) {offset len : Nat}
    (held : file.Holds offset len) (some_ : 0 < len) (wanted : Wanted) :
    source.readExactAt offset len wanted =
      if source.lacking offset len = [] then (.ok (file.part offset len), wanted)
      else (.error .incomplete, wanted.insertAll (source.lacking offset len)) := by
  have within : ¬ saturatingAdd offset len > source.size := by
    rw [shows_.size, saturatingAdd_gt_size]
    exact not_not_intro held
  have begins : offset / source.pageSize * source.pageSize ≤ offset := Nat.div_mul_le_self _ _
  have order : offset / source.pageSize ≤ (offset + len - 1) / source.pageSize :=
    Nat.div_le_div_right (by omega)
  rw [readExactAt, if_neg (Nat.pos_iff_ne_zero.mp some_), if_neg within]
  change (if source.lacking offset len ≠ [] then _ else _) = _
  by_cases lacks : source.lacking offset len = []
  · rw [if_neg (not_not_intro lacks), if_pos lacks]
    have present : ∀ index ∈ source.indices offset len, source.pages index ≠ none := by
      have none_ := List.filter_eq_nil_iff.mp lacks
      intro index member absent
      exact none_ index member (by rw [absent]; rfl)
    have filled := fill_spec shows_ held some_
      ((offset + len - 1) / source.pageSize + 1 - offset / source.pageSize)
      (offset / source.pageSize) ?_ (fun i low high => ⟨present i ?_, ?_⟩) ?_
    · rw [Paging.between_of_le _ (by omega)] at filled
      exact congrArg (fun outcome => (outcome, wanted)) filled
    · rw [Nat.mul_comm]
      exact Nat.lt_mul_div_succ offset shows_.positive
    · exact mem_indices.mpr ⟨low, by omega⟩
    · exact indices_inside shows_ some_ i (mem_indices.mpr ⟨low, by omega⟩)
    · have := Nat.lt_mul_div_succ (offset + len - 1) shows_.positive
      rw [Nat.mul_comm] at this
      rw [show offset / source.pageSize + ((offset + len - 1) / source.pageSize + 1 -
        offset / source.pageSize) = (offset + len - 1) / source.pageSize + 1 by omega]
      omega
  · rw [if_pos lacks, if_neg lacks]
    rfl

theorem readExactAt_answers (shows_ : source.Shows file) (offset len : Nat) :
    source.Answers file (source.readExactAt offset len) ((lenient file).readExactAt offset len) := by
  change Answers _ _ _ (lenient.readExactAt file offset len)
  by_cases empty : len = 0
  · refine ⟨[], .ok [], fun wanted => ?_, by simp, .inl ?_⟩
    · rw [readExactAt, if_pos empty]
      rfl
    · rw [lenient.readExactAt, if_pos empty]
  have whole := fileSource_readExactAt file offset len
  by_cases held : file.Holds offset len
  · have some_ := Nat.pos_of_ne_zero empty
    have read := readExactAt_of_holds shows_ held some_
    rw [if_pos held] at whole
    by_cases lacks : source.lacking offset len = []
    · refine ⟨[], .ok (file.part offset len), fun wanted => ?_, by simp, .inl ?_⟩
      · rw [read, if_pos lacks, SortedSet.insertAll_nil]
      · rw [lenient.readExactAt, if_neg empty, whole]
    · refine ⟨source.lacking offset len, .error .incomplete, fun wanted => ?_, fun index member => ?_,
        .inr ⟨rfl, lacks, file.part offset len, ?_⟩⟩
      · rw [read, if_neg lacks]
      · obtain ⟨inside, absent⟩ := List.mem_filter.mp member
        exact ⟨(indices_inside shows_ some_ index inside).trans_le held,
          Option.isNone_iff_eq_none.mp absent⟩
      · rw [lenient.readExactAt, if_neg empty, whole]
  · refine ⟨[], .error (.outOfBounds "file" offset len (file.size - offset)), fun wanted => ?_, by simp,
      .inl ?_⟩
    · rw [readExactAt, if_neg empty, if_pos (by rw [shows_.size, saturatingAdd_gt_size]; exact held),
        shows_.size]
      rfl
    · rw [lenient.readExactAt, if_neg empty, whole, if_neg held]

theorem readVec_answers (shows_ : source.Shows file) (offset len : Nat) :
    source.Answers file (source.readVec offset len) ((lenient file).readVec offset len) := by
  change Answers _ _ _ (zeroed len >>= fun _ => (lenient file).readExactAt offset len)
  unfold readVec
  cases allocated : zeroed len with
  | ok buf => exact readExactAt_answers shows_ offset len
  | error e => exact ⟨[], .error e, fun _ => rfl, by simp, .inl rfl⟩
  | panic p => exact ⟨[], .panic p, fun _ => rfl, by simp, .inl rfl⟩

theorem readEach_cons (offset len : Nat) (ranges : List (Nat × Nat)) (out : List Bytes) (missed : Bool)
    (wanted : Wanted) :
    source.readEach ((offset, len) :: ranges) out missed wanted =
      match source.readVec offset len wanted with
      | (.ok bytes, wanted) =>
        source.readEach ranges (if missed then out else out ++ [bytes]) missed wanted
      | (.error .incomplete, wanted) => source.readEach ranges out true wanted
      | (.error other, wanted) => (.error other, wanted)
      | (.panic p, wanted) => (.panic p, wanted) := rfl

theorem lenient_readRanges_cons (offset len : Nat) (ranges : List (Nat × Nat)) :
    (lenient file).readRanges ((offset, len) :: ranges) =
      (lenient file).readVec offset len >>= fun bytes =>
        (lenient file).readRanges ranges >>= fun rest => .ok (bytes :: rest) :=
  ByteSource.defaultReadRanges_cons _ _ _

/-- A file answers no read with `Incomplete`. -/
theorem lenient_readVec_ne_incomplete (offset len : Nat) :
    (lenient file).readVec offset len ≠ .error .incomplete := by
  change (zeroed len >>= fun _ => lenient.readExactAt file offset len) ≠ _
  unfold zeroed lenient.readExactAt
  rw [fileSource_readExactAt]
  split
  · rw [Outcome.ok_bind]
    split
    · simp
    · split <;> simp
  · simp

/-- One range of a batch: it is served, is missing, or ends the batch. -/
theorem readEach_step (shows_ : source.Shows file) (offset len : Nat) :
    ∃ missing : List Nat,
      (∀ index ∈ missing, index * source.pageSize < file.size ∧ source.pages index = none) ∧
      ((∃ bytes, (lenient file).readVec offset len = .ok bytes ∧ ∀ ranges out missed wanted,
          source.readEach ((offset, len) :: ranges) out missed wanted =
            source.readEach ranges (if missed then out else out ++ [bytes]) missed
              (wanted.insertAll missing)) ∨
        (missing ≠ [] ∧ ∃ bytes, (lenient file).readVec offset len = .ok bytes ∧
          ∀ ranges out missed wanted,
            source.readEach ((offset, len) :: ranges) out missed wanted =
              source.readEach ranges out true (wanted.insertAll missing)) ∨
        ((∀ bytes, (lenient file).readVec offset len ≠ .ok bytes) ∧
          ∀ ranges out missed wanted (f : List Bytes → List Bytes),
            source.readEach ((offset, len) :: ranges) out missed wanted =
              (f <$> (lenient file).readRanges ((offset, len) :: ranges),
                wanted.insertAll missing))) := by
  obtain ⟨missing, answer, step, inside, agrees⟩ := readVec_answers shows_ offset len
  refine ⟨missing, inside, ?_⟩
  rcases agrees with rfl | ⟨rfl, lacks, bytes, served⟩
  · cases served : (lenient file).readVec offset len with
    | ok bytes =>
      rw [served] at step
      exact .inl ⟨bytes, rfl, fun ranges out missed wanted => by rw [readEach_cons, step]⟩
    | panic p =>
      rw [served] at step
      refine .inr (.inr ⟨fun bytes => by simp, fun ranges out missed wanted f => ?_⟩)
      rw [readEach_cons, step, lenient_readRanges_cons, served]
      rfl
    | error e =>
      rw [served] at step
      refine .inr (.inr ⟨fun bytes => by simp, fun ranges out missed wanted f => ?_⟩)
      have real : e ≠ .incomplete := fun same =>
        lenient_readVec_ne_incomplete offset len (same ▸ served)
      rw [readEach_cons, step, lenient_readRanges_cons, served]
      cases e <;> first | rfl | exact absurd rfl real
  · exact .inr (.inl ⟨lacks, bytes, served, fun ranges out missed wanted => by rw [readEach_cons, step]⟩)

/-- After a missing range, a batch is incomplete unless a later range fails for good. -/
theorem readEach_missed (shows_ : source.Shows file) : ∀ (ranges : List (Nat × Nat)),
    ∃ (missing : List Nat) (answer : Code (List Bytes)),
      (∀ out wanted, source.readEach ranges out true wanted = (answer, wanted.insertAll missing)) ∧
      (∀ index ∈ missing, index * source.pageSize < file.size ∧ source.pages index = none) ∧
      ((answer = .error .incomplete ∧ ∃ rest, (lenient file).readRanges ranges = .ok rest) ∨
        (answer = (lenient file).readRanges ranges ∧ ∀ rest, answer ≠ .ok rest))
  | [] => ⟨[], .error .incomplete, fun _ _ => rfl, by simp, .inl ⟨rfl, [], rfl⟩⟩
  | (offset, len) :: ranges => by
    obtain ⟨first, inside, found⟩ := readEach_step shows_ offset len
    obtain ⟨later, answer, step, insideLater, agrees⟩ := readEach_missed shows_ ranges
    have joined : ∀ index ∈ first ++ later,
        index * source.pageSize < file.size ∧ source.pages index = none := by
      intro index member
      exact (List.mem_append.mp member).elim (inside index) (insideLater index)
    have served : ∀ bytes, (lenient file).readVec offset len = .ok bytes →
        (answer = .error .incomplete ∧
            ∃ rest, (lenient file).readRanges ((offset, len) :: ranges) = .ok rest) ∨
          (answer = (lenient file).readRanges ((offset, len) :: ranges) ∧ ∀ rest, answer ≠ .ok rest) := by
      intro bytes here
      rw [lenient_readRanges_cons, here, Outcome.ok_bind]
      rcases agrees with ⟨incomplete, rest, whole⟩ | ⟨same, failed⟩
      · exact .inl ⟨incomplete, bytes :: rest, by rw [whole]; rfl⟩
      · refine .inr ⟨?_, failed⟩
        rw [← same]
        cases answer with
        | ok rest => exact absurd rfl (failed rest)
        | error e => rfl
        | panic p => rfl
    rcases found with ⟨bytes, here, next⟩ | ⟨_, bytes, here, next⟩ | ⟨failed, next⟩
    · refine ⟨first ++ later, answer, fun out wanted => ?_, joined, served bytes here⟩
      rw [next, step, SortedSet.insertAll_append]
    · refine ⟨first ++ later, answer, fun out wanted => ?_, joined, served bytes here⟩
      rw [next, step, SortedSet.insertAll_append]
    · refine ⟨first, (lenient file).readRanges ((offset, len) :: ranges), fun out wanted => ?_, inside,
        .inr ⟨rfl, fun rest whole => ?_⟩⟩
      · have := next ranges out true wanted id
        rwa [id_map] at this
      · rw [lenient_readRanges_cons] at whole
        obtain ⟨bytes, here, _⟩ := Outcome.bind_eq_ok.mp whole
        exact failed bytes here

theorem readEach_answers (shows_ : source.Shows file) : ∀ (ranges : List (Nat × Nat)) (out : List Bytes),
    source.Answers file (source.readEach ranges out false)
      ((out ++ ·) <$> (lenient file).readRanges ranges)
  | [], out => ⟨[], .ok out, fun _ => rfl, by simp, .inl (congrArg _ (List.append_nil out).symm)⟩
  | (offset, len) :: ranges, out => by
    obtain ⟨first, inside, found⟩ := readEach_step shows_ offset len
    rcases found with ⟨bytes, here, next⟩ | ⟨lacks, bytes, here, next⟩ | ⟨failed, next⟩
    · obtain ⟨later, answer, step, insideLater, agrees⟩ := readEach_answers shows_ ranges (out ++ [bytes])
      refine ⟨first ++ later, answer, fun wanted => ?_, fun index member => ?_, ?_⟩
      · rw [next, if_neg Bool.false_ne_true, step, SortedSet.insertAll_append]
      · exact (List.mem_append.mp member).elim (inside index) (insideLater index)
      · have whole : (out ++ ·) <$> (lenient file).readRanges ((offset, len) :: ranges) =
            (out ++ [bytes] ++ ·) <$> (lenient file).readRanges ranges := by
          rw [lenient_readRanges_cons, here, Outcome.ok_bind]
          cases (lenient file).readRanges ranges <;> simp
        rw [whole]
        refine agrees.imp_right fun ⟨incomplete, lacks, value⟩ => ⟨incomplete, ?_, value⟩
        exact List.append_ne_nil_of_right_ne_nil _ lacks
    · obtain ⟨later, answer, step, insideLater, agrees⟩ := readEach_missed shows_ ranges
      refine ⟨first ++ later, answer, fun wanted => ?_, fun index member => ?_, ?_⟩
      · rw [next, step, SortedSet.insertAll_append]
      · exact (List.mem_append.mp member).elim (inside index) (insideLater index)
      · rw [lenient_readRanges_cons, here, Outcome.ok_bind]
        rcases agrees with ⟨incomplete, rest, whole⟩ | ⟨same, failed⟩
        · refine .inr ⟨incomplete, List.append_ne_nil_of_left_ne_nil lacks _, out ++ bytes :: rest, ?_⟩
          rw [whole]
          rfl
        · left
          rw [← same]
          cases answer with
          | ok rest => exact absurd rfl (failed rest)
          | error e => rfl
          | panic p => rfl
    · exact ⟨first, _, fun wanted => next ranges out false wanted (out ++ ·), inside, .inl rfl⟩

theorem handler_answers (shows_ : source.Shows file) (call : SourceCall) :
    source.Answers file (source.handler call) ((lenient file).answer call) := by
  cases call with
  | size => exact ⟨[], .ok source.size, fun _ => rfl, by simp, .inl (congrArg _ shows_.size)⟩
  | readExactAt offset len => exact readExactAt_answers shows_ offset len
  | readVec offset len => exact readVec_answers shows_ offset len
  | readRanges ranges =>
    have found := readEach_answers shows_ ranges []
    rwa [show (([] : List Bytes) ++ ·) = id from rfl, id_map] at found

/-- Apart from zero-length reads past the end, the file answers the same. -/
theorem lenient_answer {call : SourceCall} (ordinary : ¬ Stray file call) :
    (lenient file).answer call = (fileSource file).answer call := by
  have exact_ : ∀ offset len, ¬ StrayRange file (offset, len) →
      (lenient file).readExactAt offset len = (fileSource file).readExactAt offset len := by
    intro offset len ordinary
    change lenient.readExactAt file offset len = _
    unfold lenient.readExactAt
    split
    · next empty =>
      have inside : file.Holds offset len := by
        unfold StrayRange at ordinary
        unfold FileImage.Holds
        simp only at ordinary
        omega
      rw [fileSource_readExactAt, if_pos inside, empty]
      rfl
    · rfl
  have vec : ∀ offset len, ¬ StrayRange file (offset, len) →
      (lenient file).readVec offset len = (fileSource file).readVec offset len := fun offset len ordinary =>
    congrArg (fun next => zeroed len >>= fun _ => next) (exact_ offset len ordinary)
  cases call with
  | size => rfl
  | readExactAt offset len => exact exact_ offset len ordinary
  | readVec offset len => exact vec offset len ordinary
  | readRanges ranges =>
    change (lenient file).readRanges ranges = (fileSource file).readRanges ranges
    induction ranges with
    | nil => rfl
    | cons range ranges ih =>
      have head := vec range.1 range.2 fun stray => ordinary ⟨range, by simp, stray⟩
      have tail := ih fun ⟨later, member, stray⟩ => ordinary ⟨later, by simp [member], stray⟩
      change ByteSource.defaultReadRanges (lenient file).readVec ranges =
        ByteSource.defaultReadRanges (fileSource file).readVec ranges at tail
      change ByteSource.defaultReadRanges (lenient file).readVec (range :: ranges) =
        ByteSource.defaultReadRanges (fileSource file).readVec (range :: ranges)
      rw [ByteSource.defaultReadRanges_cons, ByteSource.defaultReadRanges_cons, head, tail]

/-- What the page store answers, apart from what it records. -/
def view (source : ReplaySource) : ByteSource where
  size := source.size
  readExactAt offset len := (source.readExactAt offset len SortedSet.empty).1
  readVec offset len := (source.readVec offset len SortedSet.empty).1
  readRanges ranges := (source.readRanges ranges SortedSet.empty).1

theorem view_answer (call : SourceCall) :
    source.view.answer call = (source.handler call SortedSet.empty).1 := by
  cases call <;> rfl

theorem handler_eq_view (shows_ : source.Shows file) (call : SourceCall) (wanted : Wanted) :
    source.handler call wanted =
      (source.view.answer call, wanted.insertAll (source.handler call SortedSet.empty).2.elements) := by
  obtain ⟨missing, answer, step, -, -⟩ := handler_answers shows_ call
  rw [view_answer, step, step]
  congr 1
  refine SortedSet.ext_mem fun index => ?_
  simp [SortedSet.mem_insertAll]

/-- One round: what it records is in the file and not held, and its result is the
one over the whole file unless a page is missing. -/
theorem round_spec {α : Type} (shows_ : source.Shows file) {build : Walk α}
    (disciplined : build.Disciplined)
    (ordinary : ∀ call ∈ build.asked (fileSource file).answer, ¬ Stray file call) :
    let round := build.runWith source.handler SortedSet.empty
    (∀ index ∈ round.2, index * source.pageSize < file.size ∧ source.pages index = none) ∧
      (round.1 = build.against (fileSource file) ∨
        round.2 ≠ SortedSet.empty ∧ (round.1 = .error .incomplete ∨ ∃ value, round.1 = .ok value)) := by
  intro round
  have whole : round = _ := Dialogue.runWith_eq_run (handler_eq_view shows_) build SortedSet.empty
  have recorded : ∀ (calls : List SourceCall) (wanted : Wanted) (index : Nat),
      index ∈ calls.foldl (fun s call => s.insertAll (source.handler call SortedSet.empty).2.elements)
        wanted ↔
      index ∈ wanted ∨ ∃ call ∈ calls, index ∈ (source.handler call SortedSet.empty).2 := by
    intro calls
    induction calls with
    | nil => simp
    | cons call calls ih =>
      intro wanted index
      rw [List.foldl_cons, ih, SortedSet.mem_insertAll]
      simp only [List.mem_cons, exists_eq_or_imp, SortedSet.mem_elements]
      tauto
  rw [whole]
  refine ⟨fun index member => ?_, ?_⟩
  · rcases (recorded _ _ _).mp member with member | ⟨call, _, member⟩
    · exact absurd member SortedSet.mem_empty
    · obtain ⟨missing, answer, step, inside, -⟩ := handler_answers shows_ call
      rw [step] at member
      rcases SortedSet.mem_insertAll.mp member with member | member
      · exact inside index member
      · exact absurd member SortedSet.mem_empty
  -- The walk goes as over the whole file up to the first answer that differs, and there a page lacks.
  · rcases Dialogue.run_eq_or_differs source.view.answer (fileSource file).answer build with
      ⟨same, _⟩ | ⟨call, asked, askedWhole, differ⟩
    · exact .inl same
    · right
      obtain ⟨missing, answer, step, -, agrees⟩ := handler_answers shows_ call
      have here : source.view.answer call = answer := by rw [view_answer, step]
      rcases agrees with same | ⟨incomplete, lacks, -⟩
      · exact absurd (here.trans (same.trans (lenient_answer (ordinary call askedWhole)))) differ
      · refine ⟨fun none_ => ?_, disciplined source.view call asked (here.trans incomplete)⟩
        obtain ⟨index, member⟩ := List.exists_mem_of_ne_nil missing lacks
        have present := (recorded (build.asked source.view.answer) SortedSet.empty index).mpr
          (.inr ⟨call, asked, by rw [step]; exact SortedSet.mem_insertAll.mpr (.inl member)⟩)
        exact SortedSet.mem_empty (Eq.mp (congrArg (fun set => index ∈ set) none_) present)

end ReplaySource

namespace Replay

variable {file : FileImage} {pageSize : Nat}

/-- What a driver holds is the file's. -/
structure Good (file : FileImage) (pageSize : Nat) (held : Held) : Prop where
  pages : TruePages file pageSize held.pages
  ioCache : ∀ cache, held.ioCache = some cache → cache.Sound file

def Has (held : Held) (index : Nat) : Prop := (held.pages index).isSome

theorem Good.insert {held : Held} (good : Good file pageSize held) {index : Nat} {bytes : Bytes}
    (true_ : bytes = Paging.page file.bytes pageSize index) {ioCache : Option IoCache}
    (sound : ∀ cache, ioCache = some cache → cache.Sound file) :
    Good file pageSize { pages := insertPage held.pages index bytes, ioCache } := by
  refine ⟨fun other found here => ?_, sound⟩
  by_cases same : other = index
  · subst same
    simp only [insertPage, Function.update_self, Option.some.injEq] at here
    exact here ▸ true_
  · simp only [insertPage, Function.update_of_ne same] at here
    exact good.pages other found here

theorem has_insert {held : Held} {index other : Nat} {bytes : Bytes} {ioCache : Option IoCache} :
    Has { pages := insertPage held.pages index bytes, ioCache } other ↔ other = index ∨ Has held other := by
  by_cases same : other = index
  · simp [Has, insertPage, same]
  · simp [Has, insertPage, same]

theorem sharedPage_spec (pageSize : Nat) {ioCache : Option IoCache}
    (sound : ∀ cache, ioCache = some cache → cache.Sound file) (index : Nat) :
    (∀ bytes, (sharedPage pageSize ioCache index).1 = some bytes →
      bytes = Paging.page file.bytes pageSize index) ∧
    ∀ cache, (sharedPage pageSize ioCache index).2 = some cache → cache.Sound file := by
  cases ioCache with
  | none => simp [sharedPage]
  | some cache =>
    by_cases same : cache.pageSize = pageSize
    · simp only [sharedPage, if_pos same]
      refine ⟨fun bytes found => same ▸ IoCache.page_fst_true (sound cache rfl) found, ?_⟩
      rintro later ⟨⟩
      exact IoCache.page_snd_sound (sound cache rfl) index
    · simp only [sharedPage, if_neg same]
      exact ⟨fun bytes found => (nomatch found), sound⟩

theorem shareWith_sound {ioCache : Option IoCache}
    (sound : ∀ cache, ioCache = some cache → cache.Sound file) {index : Nat} {bytes : Bytes}
    (true_ : bytes = Paging.page file.bytes pageSize index) :
    ∀ cache, shareWith pageSize ioCache index bytes = some cache → cache.Sound file := by
  cases ioCache with
  | none => simp [shareWith]
  | some cache =>
    rintro later ⟨⟩
    dsimp only
    split
    · next same => exact IoCache.putPage_sound (sound cache rfl) (same ▸ true_)
    · exact sound cache rfl

/-- Gathering keeps what is held true; every wanted page is held afterwards or in
a run, and the runs hold wanted pages only. -/
theorem gatherRuns_spec : ∀ (wanted : List Nat) (runs : List (Nat × Nat)) (held : Held),
    Good file pageSize held → (∀ run ∈ runs, run.1 ≤ run.2) →
    let gathered := gatherRuns pageSize wanted runs held
    Good file pageSize gathered.2 ∧ (∀ index, Has held index → Has gathered.2 index) ∧
      (∀ run ∈ gathered.1, run.1 ≤ run.2) ∧
      (∀ index ∈ gathered.1.flatMap Paging.runIndices,
        index ∈ runs.flatMap Paging.runIndices ∨ index ∈ wanted) ∧
      (∀ index ∈ runs.flatMap Paging.runIndices, index ∈ gathered.1.flatMap Paging.runIndices) ∧
      (∀ index ∈ wanted, Has gathered.2 index ∨ index ∈ gathered.1.flatMap Paging.runIndices) ∧
      (∀ index, Has gathered.2 index → Has held index ∨ index ∈ wanted)
  | [], runs, held, good, ordered =>
    ⟨good, fun _ has => has, ordered, fun _ member => .inl member, fun _ member => member, by simp,
      fun _ has => .inl has⟩
  | index :: wanted, runs, held, good, ordered => by
    intro gathered
    by_cases has : (held.pages index).isSome
    -- The page is held already.
    · have step : gathered = gatherRuns pageSize wanted runs held := if_pos has
      obtain ⟨goodLater, keeps, order, origin, old, found, only⟩ :=
        gatherRuns_spec wanted runs held good ordered
      rw [step]
      refine ⟨goodLater, keeps, order, fun i member => ?_, old, fun i member => ?_,
        fun i later => (only i later).imp_right (List.mem_cons_of_mem _)⟩
      · exact (origin i member).imp_right (List.mem_cons_of_mem _)
      · rcases List.mem_cons.mp member with rfl | member
        · exact .inl (keeps i has)
        · exact found i member
    · obtain ⟨shared, sound⟩ := sharedPage_spec pageSize good.ioCache index
      rcases lookup : sharedPage pageSize held.ioCache index with ⟨cached | cached, ioCache⟩
      · -- Nobody holds the page: it joins the runs to fetch.
        rw [lookup] at sound
        have step : gathered =
            gatherRuns pageSize wanted (Paging.pushRun runs index) { held with ioCache } := by
          change (if _ then _ else _) = _
          rw [if_neg has, lookup]
        obtain ⟨pushed, orderPushed⟩ := Paging.pushRun_indices ordered index
        obtain ⟨goodLater, keeps, order, origin, old, found, only⟩ :=
          gatherRuns_spec wanted (Paging.pushRun runs index) { held with ioCache }
            ⟨good.pages, sound⟩ orderPushed
        rw [step]
        rw [pushed] at origin old
        refine ⟨goodLater, keeps, order, fun i member => ?_, fun i member => ?_, fun i member => ?_,
          fun i later => (only i later).imp_right (List.mem_cons_of_mem _)⟩
        · rcases origin i member with member | member
          · rcases List.mem_append.mp member with member | member
            · exact .inl member
            · exact .inr (by simp [List.mem_singleton.mp member])
          · exact .inr (List.mem_cons_of_mem _ member)
        · exact old i (List.mem_append_left _ member)
        · rcases List.mem_cons.mp member with rfl | member
          · exact .inr (old i (by simp))
          · exact found i member
      -- The shared cache has the page, and it is held from now on.
      · rw [lookup] at shared sound
        have step : gathered = gatherRuns pageSize wanted runs
            { pages := insertPage held.pages index cached, ioCache } := by
          change (if _ then _ else _) = _
          rw [if_neg has, lookup]
        obtain ⟨goodLater, keeps, order, origin, old, found, only⟩ :=
          gatherRuns_spec wanted runs { pages := insertPage held.pages index cached, ioCache }
            (good.insert (shared cached rfl) sound) ordered
        rw [step]
        refine ⟨goodLater, fun i hasOld => keeps i (has_insert.mpr (.inr hasOld)), order,
          fun i member => ?_, old, fun i member => ?_, fun i later => ?_⟩
        · exact (origin i member).imp_right (List.mem_cons_of_mem _)
        · rcases List.mem_cons.mp member with rfl | member
          · exact .inl (keeps i (has_insert.mpr (.inl rfl)))
          · exact found i member
        · rcases only i later with has | member
          · rcases has_insert.mp has with rfl | has
            · exact .inr List.mem_cons_self
            · exact .inl has
          · exact .inr (List.mem_cons_of_mem _ member)

/-- Cutting a run's bytes into pages records the file's page at each of its indices. -/
theorem storePages_spec {first last : Nat} : ∀ (steps : List Nat) (held : Held),
    Good file pageSize held → (∀ step ∈ steps, first + step ≤ last) →
    let bytes := file.part (first * pageSize) (Paging.runLength file.size pageSize first last)
    let stored := storePages pageSize first bytes steps held
    Good file pageSize stored ∧
      ∀ index, Has stored index ↔ Has held index ∨ ∃ step ∈ steps, index = first + step
  | [], held, good, _ => ⟨good, by simp [storePages]⟩
  | step :: steps, held, good, within => by
    intro bytes stored
    set page := slice bytes (step * pageSize)
      (min (step * pageSize + pageSize) bytes.length - step * pageSize) with pageEq
    have true_ : page = Paging.page file.bytes pageSize (first + step) := by
      have width : min (step * pageSize + pageSize) bytes.length - step * pageSize =
          min pageSize (bytes.length - step * pageSize) := by omega
      rw [pageEq, width, Paging.slice_clamp]
      exact Paging.page_of_run file.bytes (within step (by simp))
    obtain ⟨goodLater, has⟩ := @storePages_spec first last steps
      { pages := insertPage held.pages (first + step) page,
        ioCache := shareWith pageSize held.ioCache (first + step) page }
      (good.insert true_ (shareWith_sound good.ioCache true_))
      (fun later member => within later (by simp [member]))
    refine ⟨goodLater, fun index => (has index).trans ?_⟩
    rw [has_insert]
    simp only [List.mem_cons, exists_eq_or_imp]
    tauto

theorem storeFetched_spec (positive : 0 < pageSize) : ∀ (runs : List (Nat × Nat)) (held : Held),
    Good file pageSize held →
    (∀ run ∈ runs, run.1 ≤ run.2 ∧ run.2 * pageSize < file.size) →
    let fetched := runs.map fun run =>
      file.part (run.1 * pageSize) (Paging.runLength file.size pageSize run.1 run.2)
    let stored := storeFetched pageSize (runs.zip fetched) held
    Good file pageSize stored ∧
      ∀ index, Has stored index ↔ Has held index ∨ index ∈ runs.flatMap Paging.runIndices
  | [], held, good, _ => ⟨good, by simp [storeFetched]⟩
  | (first, last) :: runs, held, good, inside => by
    intro fetched stored
    obtain ⟨order, reach⟩ := inside (first, last) (by simp)
    simp only at order reach
    have begins : first * pageSize ≤ last * pageSize := Nat.mul_le_mul_right _ order
    have long : (file.part (first * pageSize)
        (Paging.runLength file.size pageSize first last)).length =
          Paging.runLength file.size pageSize first last :=
      Paging.length_of_run file.bytes last (by unfold FileImage.size at reach; omega)
    -- A step below the number of pieces is a page of the run, and conversely.
    have pieces : ∀ step, step < (Paging.runLength file.size pageSize first last + pageSize - 1) / pageSize ↔
        step * pageSize < Paging.runLength file.size pageSize first last := by
      intro step
      rw [Nat.lt_iff_add_one_le, Nat.le_div_iff_mul_le positive, Nat.succ_mul]
      omega
    have within : ∀ step ∈ List.range
        ((Paging.runLength file.size pageSize first last + pageSize - 1) / pageSize),
          first + step ≤ last := by
      intro step member
      have small := (pieces step).mp (List.mem_range.mp member)
      have bound : step * pageSize < (last + 1 - first) * pageSize := by
        rw [Nat.sub_mul]
        unfold Paging.runLength at small
        omega
      have := Nat.lt_of_mul_lt_mul_right bound
      omega
    obtain ⟨goodPages, hasPages⟩ := @storePages_spec file pageSize first last
      (List.range ((Paging.runLength file.size pageSize first last + pageSize - 1) / pageSize)) held good
      within
    have step : stored = storeFetched pageSize (runs.zip (runs.map fun run =>
        file.part (run.1 * pageSize) (Paging.runLength file.size pageSize run.1 run.2)))
        (storePages pageSize first
          (file.part (first * pageSize) (Paging.runLength file.size pageSize first last))
          (List.range ((Paging.runLength file.size pageSize first last + pageSize - 1) / pageSize)) held) :=
      congrArg (fun count => storeFetched pageSize (runs.zip (runs.map fun run =>
        file.part (run.1 * pageSize) (Paging.runLength file.size pageSize run.1 run.2)))
        (storePages pageSize first
          (file.part (first * pageSize) (Paging.runLength file.size pageSize first last))
          (List.range ((count + pageSize - 1) / pageSize)) held)) long
    obtain ⟨goodLater, has⟩ := storeFetched_spec positive runs _ goodPages
      (fun run member => inside run (by simp [member]))
    rw [step]
    refine ⟨goodLater, fun index => ?_⟩
    have here : (∃ step ∈ List.range
        ((Paging.runLength file.size pageSize first last + pageSize - 1) / pageSize),
          index = first + step) ↔ index ∈ Paging.runIndices (first, last) := by
      simp only [Paging.runIndices, List.mem_range'_1]
      constructor
      · rintro ⟨step, member, rfl⟩
        have := within step member
        omega
      · intro bounds
        refine ⟨index - first, List.mem_range.mpr ((pieces _).mpr ?_), by omega⟩
        have inRun : index * pageSize ≤ last * pageSize := Nat.mul_le_mul_right _ (by omega)
        have fromFirst : first * pageSize ≤ index * pageSize := Nat.mul_le_mul_right _ bounds.1
        have width : (last + 1) * pageSize = last * pageSize + pageSize := Nat.succ_mul _ _
        rw [Nat.sub_mul]
        unfold Paging.runLength
        omega
    rw [has, hasPages, here, List.flatMap_cons, List.mem_append, or_assoc]

/-- A fetch brings the wanted pages, no others, and keeps what is held true. -/
theorem fetch_spec {source : AsyncByteSource} (serves : source.Serves file) (positive : 0 < pageSize)
    {wanted : ReplaySource.Wanted} (inside : ∀ index ∈ wanted, index * pageSize < file.size)
    {held : Held} (good : Good file pageSize held) :
    ∃ later, fetch source pageSize file.size wanted held = (.ok (), later) ∧
      Good file pageSize later ∧ ∀ index, Has later index ↔ Has held index ∨ index ∈ wanted := by
  have gathered := gatherRuns_spec wanted.elements [] held good (by simp)
  rcases found : gatherRuns pageSize wanted.elements [] held with ⟨runs, middle⟩
  rw [found] at gathered
  obtain ⟨goodMiddle, keeps, order, origin, -, covered, only⟩ := gathered
  simp only at goodMiddle keeps order origin covered only
  by_cases none_ : runs = []
  · refine ⟨middle, ?_, goodMiddle, fun index => ⟨only index, fun has => has.elim (keeps index) ?_⟩⟩
    · simp only [fetch, found, if_pos none_]
    · intro member
      rcases covered index member with has | member
      · exact has
      · rw [none_] at member
        simp at member
  -- A run ends with a wanted page, which begins in the file.
  · have reach : ∀ run ∈ runs, run.1 ≤ run.2 ∧ run.2 * pageSize < file.size := by
      intro run member
      have ordered := order run member
      refine ⟨ordered, ?_⟩
      have last : run.2 ∈ runs.flatMap Paging.runIndices := by
        refine List.mem_flatMap.mpr ⟨run, member, ?_⟩
        simp only [Paging.runIndices, List.mem_range'_1]
        omega
      rcases origin run.2 last with impossible | wantedLast
      · simp at impossible
      · exact inside run.2 wantedLast
    have served : source.readRanges (runs.map (runRange pageSize file.size)) =
        .ok (runs.map fun run =>
          file.part (run.1 * pageSize) (Paging.runLength file.size pageSize run.1 run.2)) := by
      rw [serves.readRanges, List.map_map]
      · rfl
      · intro range member
        obtain ⟨run, here, rfl⟩ := List.mem_map.mp member
        obtain ⟨ordered, below⟩ := reach run here
        have : run.1 * pageSize ≤ run.2 * pageSize := Nat.mul_le_mul_right _ ordered
        simp only [FileImage.Holds, runRange]
        omega
    obtain ⟨goodLater, has⟩ := storeFetched_spec positive runs middle goodMiddle reach
    refine ⟨_, ?_, goodLater, fun index => (has index).trans ⟨?_, ?_⟩⟩
    · simp only [fetch, found, if_neg none_, served, List.length_map, ne_eq, not_true_eq_false, if_false]
    · rintro (has | member)
      · exact only index has
      · rcases origin index member with impossible | member
        · simp at impossible
        · exact .inr member
    · rintro (has | member)
      · exact .inl (keeps index has)
      · exact covered index member

section Turn

variable {α : Type} {source : AsyncByteSource} {size budget : Nat} {build : Walk α}
  {wanted previous lacks : ReplaySource.Wanted} {held later : Held}

theorem rounds_ok {value : α} (fetched : fetch source pageSize size wanted held = (.ok (), later))
    (run : build.runWith (ReplaySource.new size pageSize later.pages).handler SortedSet.empty =
      (.ok value, lacks)) :
    rounds source pageSize size build (budget + 1) wanted previous held =
      if lacks = SortedSet.empty then (.ok value, later)
      else if lacks = previous then (.ok value, later)
      else rounds source pageSize size build budget lacks lacks later := by
  refine (Session.bind_ok fetched).trans ?_
  dsimp only
  rw [run]

theorem rounds_incomplete (fetched : fetch source pageSize size wanted held = (.ok (), later))
    (run : build.runWith (ReplaySource.new size pageSize later.pages).handler SortedSet.empty =
      (.error .incomplete, lacks)) :
    rounds source pageSize size build (budget + 1) wanted previous held =
      if lacks = SortedSet.empty ∨ lacks = previous then (.error noNewBytes, later)
      else rounds source pageSize size build budget lacks lacks later := by
  refine (Session.bind_ok fetched).trans ?_
  dsimp only
  rw [run]

theorem rounds_failed {e : Error} (fetched : fetch source pageSize size wanted held = (.ok (), later))
    (run : build.runWith (ReplaySource.new size pageSize later.pages).handler SortedSet.empty =
      (.error e, lacks)) (hard : e ≠ .incomplete) :
    rounds source pageSize size build (budget + 1) wanted previous held = (.error e, later) := by
  refine (Session.bind_ok fetched).trans ?_
  dsimp only
  rw [run]
  cases e with
  | incomplete => exact absurd rfl hard
  | _ => rfl

theorem rounds_panicked {p : Panic} (fetched : fetch source pageSize size wanted held = (.ok (), later))
    (run : build.runWith (ReplaySource.new size pageSize later.pages).handler SortedSet.empty =
      (.panic p, lacks)) :
    rounds source pageSize size build (budget + 1) wanted previous held = (.panic p, later) := by
  refine (Session.bind_ok fetched).trans ?_
  dsimp only
  rw [run]

end Turn

/-- The rounds from any good state end as the walk over the whole file ends, or at
the round limit. -/
theorem rounds_spec {α : Type} {source : AsyncByteSource} (serves : source.Serves file)
    (positive : 0 < pageSize) {build : Walk α} (disciplined : build.Disciplined)
    (ordinary : ∀ call ∈ build.asked (fileSource file).answer, ¬ Stray file call) :
    ∀ (budget : Nat) (wanted previous : ReplaySource.Wanted) (held : Held),
      Good file pageSize held → (∀ index ∈ wanted, index * pageSize < file.size) →
      (∀ index ∈ previous, Has held index ∨ index ∈ wanted) →
      let outcome := (rounds source pageSize file.size build budget wanted previous held).1
      outcome = .error roundLimit ∨ outcome = build.against (fileSource file) ∨
        (outcome = .error noNewBytes ∧ build.against (fileSource file) = .error .incomplete)
  | 0, _, _, _, _, _, _ => .inl rfl
  | budget + 1, wanted, previous, held, good, inside, known => by
    intro outcome
    obtain ⟨later, fetched, goodLater, has⟩ := fetch_spec serves positive inside good
    have heldPrevious : ∀ index ∈ previous, Has later index := fun index member =>
      (has index).mpr (known index member)
    have size : (ReplaySource.new file.size pageSize later.pages).pageSize = pageSize :=
      Nat.max_eq_left positive
    have shows_ : (ReplaySource.new file.size pageSize later.pages).Shows file :=
      ⟨rfl, by rw [size]; exact positive, by rw [size]; exact goodLater.pages⟩
    obtain ⟨missing, agrees⟩ := ReplaySource.round_spec shows_ disciplined ordinary
    rcases run : build.runWith (ReplaySource.new file.size pageSize later.pages).handler
      SortedSet.empty with ⟨result, lacks⟩
    rw [run, size] at missing
    rw [run] at agrees
    simp only at missing agrees
    -- What is missing now is not held, what was missing before is.
    have fresh : lacks = previous → lacks = SortedSet.empty := fun same =>
      SortedSet.eq_empty_of_forall fun index member => by
        have here := heldPrevious index (same ▸ member)
        rw [Has, show later.pages index = none from (missing index member).2] at here
        cases here
    have again := rounds_spec serves positive disciplined ordinary budget lacks lacks later goodLater
      (fun index member => (missing index member).1) (fun index member => .inr member)
    by_cases settled : lacks = SortedSet.empty
    · have whole : result = build.against (fileSource file) := by
        rcases agrees with same | ⟨impossible, -⟩
        · exact same
        · exact absurd settled impossible
      rcases result with value | e | p
      · have ended : outcome = _ := congrArg Prod.fst (rounds_ok fetched run)
        rw [if_pos settled] at ended
        exact .inr (.inl (ended.trans whole))
      · by_cases incomplete : e = .incomplete
        · subst incomplete
          have ended : outcome = _ := congrArg Prod.fst (rounds_incomplete fetched run)
          rw [if_pos (.inl settled)] at ended
          exact .inr (.inr ⟨ended, whole.symm⟩)
        · have ended : outcome = .error e := congrArg Prod.fst (rounds_failed fetched run incomplete)
          exact .inr (.inl (ended.trans whole))
      · have ended : outcome = .panic p := congrArg Prod.fst (rounds_panicked fetched run)
        exact .inr (.inl (ended.trans whole))
    · have moved : lacks ≠ previous := fun same => settled (fresh same)
      rcases result with value | e | p
      · have ended : outcome = _ := congrArg Prod.fst (rounds_ok fetched run)
        rw [if_neg settled, if_neg moved] at ended
        rwa [ended]
      · by_cases incomplete : e = .incomplete
        · subst incomplete
          have ended : outcome = _ := congrArg Prod.fst (rounds_incomplete fetched run)
          rw [if_neg (not_or.mpr ⟨settled, moved⟩)] at ended
          rwa [ended]
        · have whole : (.error e : Code α) = build.against (fileSource file) := by
            rcases agrees with same | ⟨_, soft | ⟨value, soft⟩⟩
            · exact same
            · exact absurd (Outcome.error.inj soft) incomplete
            · cases soft
          have ended : outcome = .error e := congrArg Prod.fst (rounds_failed fetched run incomplete)
          exact .inr (.inl (ended.trans whole))
      · have ended : outcome = .panic p := congrArg Prod.fst (rounds_panicked fetched run)
        refine .inr (.inl (ended.trans ?_))
        rcases agrees with same | ⟨_, soft | ⟨value, soft⟩⟩
        · exact same
        · cases soft
        · cases soft

theorem window_inside (positive : 0 < pageSize) (prefetchBytes : Nat) (nonempty : 0 < file.size) :
    ∀ index ∈ window pageSize prefetchBytes file.size, index * pageSize < file.size := by
  intro index member
  rcases SortedSet.mem_insertAll.mp member with member | member
  · have bound : index ≤ (file.size - 1) / pageSize := by
      rw [List.mem_range] at member
      omega
    have := (Nat.le_div_iff_mul_le positive).mp bound
    omega
  · exact absurd member SortedSet.mem_empty

end Replay

section Driver

variable {α : Type} {source : AsyncByteSource} {file : FileImage}

/-- The driver's outcome is the walk's outcome over the whole file, unless the
rounds run out or the walk itself ends in `Incomplete`. -/
theorem replay_outcome (serves : source.Serves file) (nonempty : 0 < file.size)
    {ioCache : Option IoCache} (sound : ∀ cache, ioCache = some cache → cache.Sound file)
    (pageSize prefetchBytes : Nat) {build : Walk α} (disciplined : build.Disciplined)
    (ordinary : ∀ call ∈ build.asked (fileSource file).answer, ¬ Stray file call) :
    let outcome := (replay source ioCache pageSize prefetchBytes build).1
    outcome = .error Replay.roundLimit ∨ outcome = build.against (fileSource file) ∨
      (outcome = .error Replay.noNewBytes ∧ build.against (fileSource file) = .error .incomplete) := by
  have positive : 0 < max pageSize 1 := Nat.lt_of_lt_of_le Nat.one_pos (Nat.le_max_right _ _)
  unfold replay
  rw [serves.size]
  simp only [if_neg (Nat.pos_iff_ne_zero.mp nonempty)]
  exact Replay.rounds_spec serves positive disciplined ordinary maxRounds _ SortedSet.empty
    { pages := fun _ => none, ioCache } ⟨fun _ _ impossible => (nomatch impossible), sound⟩
    (Replay.window_inside positive prefetchBytes nonempty)
    (fun _ member => absurd member SortedSet.mem_empty)

/-- What the driver returns is what the walk returns over the whole file, for
every honest source, page size, window and content of the page cache. -/
theorem replay_faithful (serves : source.Serves file) (nonempty : 0 < file.size)
    {ioCache : Option IoCache} (sound : ∀ cache, ioCache = some cache → cache.Sound file)
    (pageSize prefetchBytes : Nat) {build : Walk α} (disciplined : build.Disciplined)
    (ordinary : ∀ call ∈ build.asked (fileSource file).answer, ¬ Stray file call) :
    (∀ value, (replay source ioCache pageSize prefetchBytes build).1 = .ok value →
      build.against (fileSource file) = .ok value) ∧
    (∀ e, (replay source ioCache pageSize prefetchBytes build).1 = .error e → e ≠ Replay.roundLimit →
      build.against (fileSource file) = .error e ∨
        (e = Replay.noNewBytes ∧ build.against (fileSource file) = .error .incomplete)) := by
  have outcome := replay_outcome serves nonempty sound pageSize prefetchBytes disciplined ordinary
  refine ⟨fun value returned => ?_, fun e failed ordinary => ?_⟩
  · rw [returned] at outcome
    rcases outcome with limit | whole | ⟨unsettled, _⟩
    · cases limit
    · exact whole.symm
    · cases unsettled
  · rw [failed] at outcome
    rcases outcome with limit | whole | ⟨unsettled, incomplete⟩
    · exact absurd (Outcome.error.inj limit) ordinary
    · exact .inl whole.symm
    · exact .inr ⟨Outcome.error.inj unsettled, incomplete⟩

def oneByte : FileImage := ⟨[7], by decide⟩

theorem readVec_disciplined (offset len : Nat) : (Walk.readVec offset len).Disciplined := by
  intro source call asked incomplete
  rw [Walk.asked_readVec, List.mem_singleton] at asked
  subst asked
  left
  rw [Walk.against_readVec]
  exact incomplete

theorem lift_disciplined (outcome : Code α) : (Walk.lift outcome).Disciplined := by
  intro source call asked
  rw [Walk.asked_lift] at asked
  cases asked

theorem asked_readVec_bind (source : ByteSource) (offset len : Nat) (next : Bytes → Walk α) :
    (Walk.readVec offset len >>= next).asked source.answer = .readVec offset len ::
      match source.readVec offset len with
      | .ok bytes => (next bytes).asked source.answer
      | _ => [] := by
  change Dialogue.asked source.answer (.ask (.readVec offset len) _) = _
  rw [Dialogue.asked]
  have answers : source.answer (.readVec offset len) = source.readVec offset len := rfl
  rw [answers]
  cases source.readVec offset len <;> rfl

/-- A walk that goes on from what it reads first. -/
theorem readVec_bind_disciplined (offset len : Nat) {next : Bytes → Walk α}
    (each : ∀ bytes, (next bytes).Disciplined) : (Walk.readVec offset len >>= next).Disciplined := by
  intro source call asked incomplete
  rw [asked_readVec_bind] at asked
  rw [Walk.against_bind, Walk.against_readVec]
  cases read : source.readVec offset len with
  | ok bytes =>
    simp only [read] at asked
    rcases List.mem_cons.mp asked with rfl | later
    · exact nomatch read.symm.trans incomplete
    · exact each bytes source call later incomplete
  | error e =>
    simp only [read] at asked
    obtain rfl := List.mem_singleton.mp asked
    cases read.symm.trans incomplete
    exact .inl rfl
  | panic p =>
    simp only [read] at asked
    obtain rfl := List.mem_singleton.mp asked
    exact nomatch read.symm.trans incomplete

/-- The first byte is the place of the last one. -/
def threeBytes : FileImage := ⟨[2, 5, 9], by decide⟩

def namedByte : Walk Bytes := Walk.readVec 0 1 >>= fun first => Walk.readVec (first.headD 0).toNat 1

/-- A byte and then the one that it names, each fetched in a round of its own. -/
theorem replay_faithful_namedByte :
    (replay (syncAsAsync (fileSource threeBytes)) none 1 1 namedByte).1 = .ok [9] ∧
      namedByte.against (fileSource threeBytes) = .ok [9] := by
  have returned : (replay (syncAsAsync (fileSource threeBytes)) none 1 1 namedByte).1 = .ok [9] := by
    decide +kernel
  refine ⟨returned, (replay_faithful (syncAsAsync_serves threeBytes) (by decide) (by simp) 1 1
    (readVec_bind_disciplined 0 1 fun first => readVec_disciplined _ 1) ?_).1 [9] returned⟩
  change ∀ call ∈ namedByte.asked _, _
  have asked : namedByte.asked (fileSource threeBytes).answer = [.readVec 0 1, .readVec 2 1] := by
    rw [namedByte, asked_readVec_bind]
    rfl
  rw [asked]
  decide

/-- The page store answers a zero-length read anywhere and the file does not, and
a walk that is incomplete by itself is reported as asking for no new bytes. -/
theorem replay_differs :
    (syncAsAsync (fileSource oneByte)).Serves oneByte ∧ 0 < oneByte.size ∧
    (Walk.readVec 5 0).Disciplined ∧
    (replay (syncAsAsync (fileSource oneByte)) none 1 1 (Walk.readVec 5 0)).1 = .ok [] ∧
    (Walk.readVec 5 0).against (fileSource oneByte) = .error (.outOfBounds "file" 5 0 0) ∧
    (Walk.lift (.error .incomplete) : Walk Bytes).Disciplined ∧
    (replay (syncAsAsync (fileSource oneByte)) none 1 1
      (Walk.lift (.error .incomplete) : Walk Bytes)).1 = .error Replay.noNewBytes ∧
    (Walk.lift (.error .incomplete) : Walk Bytes).against (fileSource oneByte) = .error .incomplete :=
  ⟨syncAsAsync_serves oneByte, by decide, readVec_disciplined 5 0, by decide +kernel,
    by decide +kernel, lift_disciplined _, by decide +kernel, by decide +kernel⟩

end Driver

end Oxcdf
