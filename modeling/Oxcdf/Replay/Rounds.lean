import Oxcdf.Replay.Faithful

/-! How many rounds the replay driver needs.

A strict walk stops at the first read that fails. A round over the pages held
then ends at the first read that lacks a page, and the next fetch brings just
the pages of that read. So each read that touches a page no earlier read has
brought costs one round, and the driver finishes exactly when its rounds suffice
for these reads and one last pass.
-/

set_option autoImplicit false

namespace Oxcdf

open Foundation Foundation.Buffer

variable {α β : Type}

/-- A walk that passes the error of a failed read on at once. -/
def Walk.Strict : Walk α → Prop
  | .finish _ => True
  | .ask _ next => (∀ e, next (.error e) = .finish (.error e)) ∧ ∀ value, Walk.Strict (next (.ok value))

theorem Walk.Strict.lift (outcome : Code α) : (Walk.lift outcome).Strict := trivial

theorem Walk.Strict.readVec (offset len : Nat) : (Walk.readVec offset len).Strict :=
  ⟨fun _ => rfl, fun _ => trivial⟩

theorem Walk.Strict.bind {walk : Walk α} {k : α → Walk β} (first : walk.Strict)
    (later : ∀ a, (k a).Strict) : (walk >>= k).Strict := by
  change Walk.Strict (Dialogue.bind walk k)
  induction walk with
  | finish outcome =>
    cases outcome with
    | ok a => exact later a
    | error e => trivial
    | panic p => trivial
  | ask query next ih =>
    refine ⟨fun e => ?_, fun value => ih (.ok value) (first.2 value)⟩
    change Dialogue.bind (next (.error e)) k = _
    rw [first.1 e]
    rfl

def touched (pageSize : Nat) (range : Nat × Nat) : List Nat :=
  if range.2 = 0 then []
  else
    let first := range.1 / pageSize
    List.range' first ((range.1 + range.2 - 1) / pageSize + 1 - first)

/-- How many of the ranges touch a page that is neither among the first ones nor
touched by an earlier range. -/
def freshReads (pageSize : Nat) : List Nat → List (Nat × Nat) → Nat
  | _, [] => 0
  | seen, range :: ranges =>
    if ∀ index ∈ touched pageSize range, index ∈ seen then freshReads pageSize seen ranges
    else freshReads pageSize (touched pageSize range ++ seen) ranges + 1

theorem freshReads_congr {pageSize : Nat} {ranges : List (Nat × Nat)} : ∀ {seen other : List Nat},
    (∀ index, index ∈ seen ↔ index ∈ other) →
    freshReads pageSize seen ranges = freshReads pageSize other ranges := by
  induction ranges with
  | nil => intros; rfl
  | cons range ranges ih =>
    intro seen other same
    have grown : ∀ index, index ∈ touched pageSize range ++ seen ↔
        index ∈ touched pageSize range ++ other := by
      intro index
      simp only [List.mem_append, same index]
    simp only [freshReads, same, ih same, ih grown]

namespace ReplaySource

variable {source : ReplaySource} {file : FileImage}

def firstLack (source : ReplaySource) : List (Nat × Nat) → List Nat
  | [] => []
  | range :: ranges =>
    let missing := (touched source.pageSize range).filter fun index => (source.pages index).isNone
    if missing = [] then source.firstLack ranges else missing

/-- Bringing the pages that the first range lacks makes one range less fresh. -/
theorem freshReads_firstLack {seen later : List Nat} {ranges : List (Nat × Nat)}
    (held : ∀ index, index ∈ seen ↔ (source.pages index).isSome)
    (brought : ∀ index, index ∈ later ↔ index ∈ seen ∨ index ∈ source.firstLack ranges) :
    freshReads source.pageSize seen ranges =
      if source.firstLack ranges = [] then 0 else freshReads source.pageSize later ranges + 1 := by
  induction ranges with
  | nil => rfl
  | cons range ranges ih =>
    have none_ : (touched source.pageSize range).filter (fun index => (source.pages index).isNone) = [] ↔
        ∀ index ∈ touched source.pageSize range, index ∈ seen := by
      simp [List.filter_eq_nil_iff, held, Option.isSome_iff_ne_none]
    by_cases covered : ∀ index ∈ touched source.pageSize range, index ∈ seen
    · have skip : source.firstLack (range :: ranges) = source.firstLack ranges := by
        simp only [firstLack, none_.mpr covered, if_true]
      have coveredLater : ∀ index ∈ touched source.pageSize range, index ∈ later :=
        fun index member => (brought index).mpr (.inl (covered index member))
      rw [skip] at brought ⊢
      simp only [freshReads, if_pos covered, if_pos coveredLater]
      exact ih brought
    · have lacks : source.firstLack (range :: ranges) =
          (touched source.pageSize range).filter fun index => (source.pages index).isNone := by
        simp only [firstLack, if_neg (mt none_.mp covered)]
      have members : ∀ index, index ∈ later ↔ index ∈ touched source.pageSize range ++ seen := by
        intro index
        rw [brought, lacks, List.mem_filter, List.mem_append, held]
        cases source.pages index <;> simp
      have coveredLater : ∀ index ∈ touched source.pageSize range, index ∈ later :=
        fun index member => (members index).mpr (List.mem_append_left _ member)
      rw [if_neg (lacks ▸ mt none_.mp covered)]
      simp only [freshReads, if_neg covered, if_pos coveredLater]
      rw [freshReads_congr members]

/-- What a range in the file lacks begins in the file and is not held. -/
theorem firstLack_fresh (shows_ : source.Shows file) {ranges : List (Nat × Nat)}
    (inside : ∀ range ∈ ranges, file.Holds range.1 range.2) :
    ∀ index ∈ source.firstLack ranges, index * source.pageSize < file.size ∧ source.pages index = none := by
  induction ranges with
  | nil => intro index member; cases member
  | cons range ranges ih =>
    intro index member
    rw [firstLack] at member
    split at member
    · exact ih (fun later member => inside later (by simp [member])) index member
    · obtain ⟨touches, absent⟩ := List.mem_filter.mp member
      refine ⟨?_, Option.isNone_iff_eq_none.mp absent⟩
      by_cases empty : range.2 = 0
      · simp [touched, empty] at touches
      · rw [touched, if_neg empty] at touches
        exact (indices_inside shows_ (Nat.pos_of_ne_zero empty) index touches).trans_le
          (inside range (by simp))

/-- One round of a strict walk: it goes through when no page lacks, and ends at the
first range that lacks some. -/
theorem strict_round (shows_ : source.Shows file) {build : Walk α} (strict : build.Strict) :
    ∀ {ranges : List (Nat × Nat)},
      build.asked (fileSource file).answer = ranges.map (fun range => .readVec range.1 range.2) →
      (∀ range ∈ ranges, file.Holds range.1 range.2) → ∀ wanted : Wanted,
      build.runWith source.handler wanted =
        if source.firstLack ranges = [] then (build.against (fileSource file), wanted)
        else (.error .incomplete, wanted.insertAll (source.firstLack ranges)) := by
  induction build with
  | finish outcome =>
    intro ranges asked _ wanted
    cases ranges with
    | nil => rfl
    | cons range ranges => simp [Dialogue.asked] at asked
  | ask call next ih =>
    intro ranges asked inside wanted
    cases ranges with
    | nil => simp [Dialogue.asked] at asked
    | cons range ranges =>
      rw [Dialogue.asked, List.map_cons] at asked
      obtain ⟨rfl, rest⟩ := List.cons.inj asked
      have held := inside range (by simp)
      have whole : (fileSource file).answer (.readVec range.1 range.2) = .ok (file.part range.1 range.2) :=
        (fileSource_readVec file _ _ held.le_isizeMax).trans (if_pos held)
      rw [whole] at rest
      have later := ih (.ok (file.part range.1 range.2)) (strict.2 _) rest
        (fun range member => inside range (by simp [member]))
      have read : source.handler (.readVec range.1 range.2) wanted =
          if (touched source.pageSize range).filter (fun index => (source.pages index).isNone) = [] then
            (.ok (file.part range.1 range.2), wanted)
          else (.error .incomplete, wanted.insertAll
            ((touched source.pageSize range).filter fun index => (source.pages index).isNone)) := by
        have vec : source.handler (.readVec range.1 range.2) wanted =
            source.readExactAt range.1 range.2 wanted := by
          change source.readVec range.1 range.2 wanted = _
          rw [readVec, zeroed_of_le held.le_isizeMax]
          rfl
        rw [vec]
        by_cases empty : range.2 = 0
        · rw [readExactAt, if_pos empty, touched, if_pos empty]
          simp only [FileImage.part, empty, slice_zero, List.filter_nil, if_true]
          rfl
        · rw [readExactAt_of_holds shows_ held (Nat.pos_of_ne_zero empty), touched, if_neg empty]
          rfl
      simp only [Dialogue.runWith, read, firstLack]
      by_cases lacks : (touched source.pageSize range).filter
          (fun index => (source.pages index).isNone) = []
      · simp only [if_pos lacks, later]
        unfold Walk.against
        simp only [Dialogue.run, whole]
      -- The read fails, and a strict walk ends there.
      · simp only [if_neg lacks, strict.1, Dialogue.runWith]

end ReplaySource

namespace Replay

variable {file : FileImage} {pageSize : Nat}

/-- From any good state, the rounds of a strict walk that succeeds over the whole
file end in its value when there are more rounds than fresh reads, and at the round
limit otherwise. -/
theorem rounds_strict {source : AsyncByteSource} (serves : source.Serves file) (positive : 0 < pageSize)
    {build : Walk α} (strict : build.Strict) {ranges : List (Nat × Nat)} {value : α}
    (asked : build.asked (fileSource file).answer = ranges.map fun range => .readVec range.1 range.2)
    (inside : ∀ range ∈ ranges, file.Holds range.1 range.2)
    (whole : build.against (fileSource file) = .ok value) :
    ∀ (budget : Nat) (wanted previous : ReplaySource.Wanted) (held : Held) (seen : List Nat),
      Good file pageSize held → (∀ index ∈ wanted, index * pageSize < file.size) →
      (∀ index ∈ previous, Has held index ∨ index ∈ wanted) →
      (∀ index, index ∈ seen ↔ Has held index ∨ index ∈ wanted) →
      (rounds source pageSize file.size build budget wanted previous held).1 =
        if freshReads pageSize seen ranges < budget then .ok value else .error roundLimit
  | 0, _, _, _, _, _, _, _, _ => rfl
  | budget + 1, wanted, previous, held, seen, good, within, known, seenIff => by
    obtain ⟨later, fetched, goodLater, has⟩ := fetch_spec serves positive within good
    have size : (ReplaySource.new file.size pageSize later.pages).pageSize = pageSize :=
      Nat.max_eq_left positive
    set replay := ReplaySource.new file.size pageSize later.pages with replayEq
    have shows_ : replay.Shows file :=
      ⟨rfl, by rw [size]; exact positive, by rw [size]; exact goodLater.pages⟩
    have run := ReplaySource.strict_round shows_ strict asked inside SortedSet.empty
    have heldIff : ∀ index, index ∈ seen ↔ (replay.pages index).isSome :=
      fun index => (seenIff index).trans (has index).symm
    set lacks := replay.firstLack ranges with lacksEq
    have brought : ∀ index, index ∈ seen ++ lacks ↔ index ∈ seen ∨ index ∈ replay.firstLack ranges :=
      fun index => List.mem_append
    have fresh := ReplaySource.freshReads_firstLack heldIff brought
    rw [size, ← lacksEq] at fresh
    rw [fresh]
    by_cases settled : lacks = []
    · rw [if_pos settled, whole] at run
      rw [if_pos settled, if_pos (Nat.succ_pos budget), rounds_ok fetched run, if_pos rfl]
    · have missing : ∀ index, index ∈ SortedSet.empty.insertAll lacks ↔ index ∈ lacks := by
        intro index
        simp [SortedSet.mem_insertAll]
      obtain ⟨some_, member⟩ := List.exists_mem_of_ne_nil lacks settled
      have notEmpty : SortedSet.empty.insertAll lacks ≠ SortedSet.empty := fun same =>
        SortedSet.mem_empty (same ▸ (missing some_).mpr member)
      -- What lacks is in the file and was not fetched before.
      have fresh_ := ReplaySource.firstLack_fresh shows_ inside
      have moved : SortedSet.empty.insertAll lacks ≠ previous := by
        intro same
        have here := (has some_).mpr (known some_ (same ▸ (missing some_).mpr member))
        rw [Has, show later.pages some_ = none from (fresh_ some_ member).2] at here
        cases here
      have again := rounds_strict serves positive strict asked inside whole budget
        (SortedSet.empty.insertAll lacks) (SortedSet.empty.insertAll lacks) later (seen ++ lacks)
        goodLater (fun index member => size ▸ (fresh_ index ((missing index).mp member)).1)
        (fun index member => .inr member)
        (fun index => by rw [List.mem_append, missing, seenIff, has])
      rw [if_neg settled] at run
      rw [if_neg settled, rounds_incomplete fetched run, if_neg (not_or.mpr ⟨notEmpty, moved⟩), again]
      simp only [Nat.add_lt_add_iff_right]

end Replay

/-- The driver brings a strict walk that succeeds over the whole file to its value
exactly when fewer reads than rounds are fresh after the first window. -/
theorem replay_strict {source : AsyncByteSource} {file : FileImage} (serves : source.Serves file)
    (nonempty : 0 < file.size) {ioCache : Option IoCache}
    (sound : ∀ cache, ioCache = some cache → cache.Sound file) (pageSize prefetchBytes : Nat)
    {build : Walk α} (strict : build.Strict) {ranges : List (Nat × Nat)} {value : α}
    (asked : build.asked (fileSource file).answer = ranges.map fun range => .readVec range.1 range.2)
    (inside : ∀ range ∈ ranges, file.Holds range.1 range.2)
    (whole : build.against (fileSource file) = .ok value) :
    (replay source ioCache pageSize prefetchBytes build).1 =
      if freshReads (max pageSize 1)
          (Replay.window (max pageSize 1) prefetchBytes file.size).elements ranges < maxRounds then
        .ok value
      else .error Replay.roundLimit := by
  have positive : 0 < max pageSize 1 := Nat.lt_of_lt_of_le Nat.one_pos (Nat.le_max_right _ _)
  unfold replay
  rw [serves.size]
  simp only [if_neg (Nat.pos_iff_ne_zero.mp nonempty)]
  exact Replay.rounds_strict serves positive strict asked inside whole maxRounds _ SortedSet.empty
    { pages := fun _ => none, ioCache } _ ⟨fun _ _ impossible => (nomatch impossible), sound⟩
    (Replay.window_inside positive prefetchBytes nonempty)
    (fun _ member => absurd member SortedSet.mem_empty) (fun index => by simp [Replay.Has])

end Oxcdf
