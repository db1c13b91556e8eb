import Oxcdf.Read.Async
import Oxcdf.Read.Cached

/-! What an asynchronous read fetches.

It asks for all its ranges in one batch, directly or through a cache of pages. A dense
read then does with the answers what the synchronous read does run by run. They differ
on empty ranges: a page cache answers those that begin past the end of the file.
-/

set_option autoImplicit false

namespace Oxcdf

open Foundation Foundation.Buffer

/-- An asynchronous source of a file answers a batch of reads when every range lies in the file. -/
def AsyncByteSource.ServesRanges (source : AsyncByteSource) (file : FileImage) : Prop :=
  ∀ ranges blobs, source.readRanges ranges = .ok blobs ↔
    (∀ range ∈ ranges, file.Holds range.1 range.2) ∧ blobs = ranges.map fun range => file.part range.1 range.2

theorem syncAsAsync_servesRanges (file : FileImage) : (syncAsAsync (fileSource file)).ServesRanges file :=
  fileSource_servesRanges file

theorem IoCache.readAsync_returns {source : AsyncByteSource} {file : FileImage} (serves : source.Serves file)
    (offset len : Nat) :
    (IoCache.readAsync source offset len).Returns (IoCache.Sound file) (IoCache.outcome file offset len) := by
  intro cache sound
  unfold IoCache.readAsync
  rw [serves.size]
  obtain ⟨returned, kept, -⟩ := IoCache.readThrough_spec serves.readAt offset len sound
  exact ⟨returned, kept⟩

namespace Read

variable {build : Build} {remote : AsyncCtx} {file : FileImage} {ranges : List (Nat × Nat)}
  {caches : Caches}

/-- What is answered of a file: what lies in it, and through a page cache whatever is empty. -/
def Answered (file : FileImage) (paged : Bool) (range : Nat × Nat) : Prop :=
  paged = true ∧ range.2 = 0 ∨ file.Holds range.1 range.2

/-- A batch of reads succeeds when all of it is answered, and leaves the chunks that are held. -/
theorem fetchBytes_spec (serves : remote.source.Serves file) (batches : remote.source.ServesRanges file)
    (words : ∀ range ∈ ranges, range.1 < wordSize ∧ range.2 < wordSize) (alike : Io.Alike ranges)
    (pages : PagesSound file caches) :
    (fetchBytes build remote ranges caches).2.chunk = caches.chunk ∧
      ∀ blobs, (fetchBytes build remote ranges caches).1 = .ok blobs ↔
        (∀ range ∈ ranges, Answered file caches.io.isSome range) ∧
          blobs = ranges.map fun range => file.part range.1 range.2 := by
  refine ⟨throughIo_chunk _ _ _, fun blobs => ?_⟩
  unfold fetchBytes Caches.throughIo
  cases cached : caches.io with
  | none =>
    simp only [Answered, Option.isSome_none, Bool.false_eq_true, false_and, false_or]
    exact Io.merged_eq_ok batches words alike
  | some cache =>
    have each := Session.Returns.mapM (fun range : Nat × Nat =>
      IoCache.readAsync_returns serves range.1 range.2) ranges
    have all := @Outcome.mapM_eq_ok _ _ _ (fun range : Nat × Nat => IoCache.outcome file range.1 range.2) _ _
      (fun range bytes => outcome_eq_ok) ranges blobs
    simp only [Answered, Option.isSome_some, true_and]
    exact (Eq.congr_left (each cache (pages cache cached)).1).trans all

end Read

namespace Read

variable {build : Build} {ctx : Ctx} {remote : AsyncCtx} {file : FileImage} {shape : List Nat}
  {slab : Hyperslab} {address elementSize total : Nat} {caches : Caches}

section Widths

theorem elementCount_drop_le {dims : List Nat} (some_ : elementCount dims ≠ 0) (k : Nat) :
    elementCount (dims.drop k) ≤ elementCount dims := by
  have product := List.prod_take_mul_prod_drop dims k
  rw [elementCount_eq, elementCount_eq] at *
  have positive : 0 < dims.prod := by omega
  have below := Nat.le_of_dvd positive (Dvd.intro_left _ product)
  omega

/-- The runs of a selection are equally long, and none is longer than the selection. -/
theorem forEachRun_width {walked : List (Code ElementRun)} (rank : slab.count.length = shape.length)
    (found : forEachRun build shape slab = .ok walked) :
    ∃ width, (walked ≠ [] → 0 < width ∧ width ≤ slab.elementCount) ∧
      ∀ next ∈ walked, ∀ run, next = .ok run → run.run = width := by
  unfold forEachRun at found
  dsimp only at found
  split at found
  · next scalar =>
    cases found
    have none : slab.count = [] := List.eq_nil_of_length_eq_zero (rank.trans scalar)
    refine ⟨1, fun _ => ⟨Nat.one_pos, ?_⟩, fun next member run same => ?_⟩
    · rw [Hyperslab.elementCount, none]
      exact le_refl 1
    · rw [List.mem_singleton.mp member] at same
      cases same
      rfl
  · split at found
    · cases found
      exact ⟨0, fun some_ => absurd rfl some_, fun _ member => absurd member List.not_mem_nil⟩
    · next some_ =>
      obtain ⟨srcStrides, -, found⟩ := Outcome.bind_eq_ok.mp found
      obtain ⟨dstStrides, -, found⟩ := Outcome.bind_eq_ok.mp found
      split at found
      · cases found
        exact ⟨0, fun some_ => absurd rfl some_, fun _ member => absurd member List.not_mem_nil⟩
      · next positive =>
        cases found
        refine ⟨_, fun _ => ⟨Nat.pos_of_ne_zero positive, elementCount_drop_le some_ _⟩,
          fun next member run same => ?_⟩
        obtain ⟨index, -, rfl⟩ := List.mem_map.mp member
        obtain ⟨⟨src, dst⟩, -, same⟩ := Outcome.bind_eq_ok.mp same
        obtain ⟨lead, -, same⟩ := Outcome.bind_eq_ok.mp same
        obtain ⟨src, -, same⟩ := Outcome.bind_eq_ok.mp same
        cases same
        rfl

end Widths

section Runs

theorem placeFetched_eq {run : ElementRun} {at_ len : Nat} {bytes : Bytes}
    (ranged : runRange build address elementSize run = .ok (at_, len)) (long : bytes.length = len)
    (out : Bytes) :
    placeFetched build elementSize run bytes out = placeRun build elementSize run len bytes out := by
  obtain ⟨width, found, ranged⟩ := Outcome.bind_eq_ok.mp ranged
  obtain ⟨skip, -, ranged⟩ := Outcome.bind_eq_ok.mp ranged
  obtain ⟨place, -, ranged⟩ := Outcome.bind_eq_ok.mp ranged
  cases ranged
  have whole : (range bytes 0 len : Code Bytes) = .ok bytes := by
    rw [range, if_pos ⟨Nat.zero_le _, long.ge⟩, slice, List.drop_zero, Nat.sub_zero,
      List.take_of_length_le long.le]
  unfold placeFetched placeRun
  refine Outcome.bind_congr fun db _ => ?_
  rw [found, Outcome.ok_bind, if_neg (Nat.not_lt.mpr long.ge)]
  refine Outcome.bind_congr fun stop _ => ?_
  rw [whole, Outcome.ok_bind]

/-- What a dense read needs of a file, and what it leaves in the output, when the runs are
read as ranges that have some property. -/
def ReadsRuns (build : Build) (ctx : Ctx) (file : FileImage) (address elementSize : Nat)
    (holds : Nat × Nat → Prop) (walked : List (Code ElementRun)) (out last : Bytes) : Prop :=
  ∃ runs ranges, walked.mapM id = .ok runs ∧ runs.mapM (runRange build address elementSize) = .ok ranges ∧
    (∀ range ∈ ranges, holds (ctx.resolve range.1, range.2)) ∧
    placeRuns build elementSize
      (runs.zip (ranges.map fun range => file.part (ctx.resolve range.1) range.2)) out = .ok last

/-- A dense read without caches succeeds when the ranges of all its runs lie in the file. -/
theorem readRuns_direct_iff (serves : ctx.source.Serves file) (walked : List (Code ElementRun)) :
    (∀ next ∈ walked, ∀ run, next = .ok run → ∀ range, runRange build address elementSize run = .ok range →
      range.2 ≤ isizeMax) → ∀ out last,
    ((readRuns build ctx address elementSize walked out ⟨none, none⟩).1 = .ok last ↔
      ReadsRuns build ctx file address elementSize
      (fun range => file.Holds range.1 range.2) walked out last) := by
  induction walked with
  | nil =>
    intro _ out last
    constructor
    · intro done
      exact ⟨[], [], rfl, rfl, nofun, done⟩
    · rintro ⟨runs, ranges, collected, ranged, -, placed⟩
      cases collected
      exact placed
  | cons next walked ih =>
    intro small out last
    obtain ⟨here, others⟩ := List.forall_mem_cons.mp small
    rw [readRuns, Session.fst_lift_bind, Outcome.bind_eq_ok]
    constructor
    · rintro ⟨run, rfl, done⟩
      rw [Session.fst_lift_bind] at done
      obtain ⟨⟨at_, len⟩, ranged, done⟩ := Outcome.bind_eq_ok.mp done
      dsimp only at done
      have fits := here run rfl _ ranged
      -- A source reads what lies in the file, and reports the rest.
      by_cases held : file.Holds (ctx.resolve at_) len
      · have read : ctx.read at_ len ⟨none, none⟩ = (.ok (file.part (ctx.resolve at_) len), ⟨none, none⟩) :=
          Prod.ext (serves.readVec _ _ held) rfl
        rw [Session.bind_ok read, Session.fst_lift_bind] at done
        obtain ⟨middle, placed, done⟩ := Outcome.bind_eq_ok.mp done
        obtain ⟨runs, ranges, collected, rangedAll, heldAll, placedAll⟩ := (ih others middle last).mp done
        refine ⟨run :: runs, (at_, len) :: ranges, Outcome.mapM_cons_eq_ok.mpr ⟨_, _, rfl, collected, rfl⟩,
          Outcome.mapM_cons_eq_ok.mpr ⟨_, _, ranged, rangedAll, rfl⟩,
          List.forall_mem_cons.mpr ⟨held, heldAll⟩, ?_⟩
        rw [List.map_cons, List.zip_cons_cons, placeRuns,
          placeFetched_eq ranged (FileImage.part_length held), placed, Outcome.ok_bind, placedAll]
      · obtain ⟨e, failed⟩ := serves.readVec_beyond _ _ fits held
        have read : ctx.read at_ len ⟨none, none⟩ = (.error e, ⟨none, none⟩) := Prod.ext failed rfl
        rw [Session.bind_error read] at done
        cases done
    · rintro ⟨all, allRanges, collectedAll, rangedAll, held, placed⟩
      obtain ⟨run, runs, same, collected, rfl⟩ := Outcome.mapM_cons_eq_ok.mp collectedAll
      obtain ⟨⟨at_, len⟩, ranges, first, ranged, rfl⟩ := Outcome.mapM_cons_eq_ok.mp rangedAll
      obtain ⟨heldHere, heldAll⟩ := List.forall_mem_cons.mp held
      refine ⟨run, same, ?_⟩
      have read : ctx.read at_ len ⟨none, none⟩ = (.ok (file.part (ctx.resolve at_) len), ⟨none, none⟩) :=
        Prod.ext (serves.readVec _ _ heldHere) rfl
      rw [List.map_cons, List.zip_cons_cons, placeRuns,
        placeFetched_eq first (FileImage.part_length heldHere)] at placed
      obtain ⟨middle, placedHere, placed⟩ := Outcome.bind_eq_ok.mp placed
      rw [Session.fst_lift_bind, first, Outcome.ok_bind]
      dsimp only
      rw [Session.bind_ok read, Session.fst_lift_bind, placedHere, Outcome.ok_bind]
      exact (ih others middle last).mpr ⟨runs, ranges, collected, ranged, heldAll, placed⟩

end Runs

section Ranges

theorem runRange_eq_ok {run : ElementRun} {range : Nat × Nat}
    (ranged : runRange build address elementSize run = .ok range) :
    (build.mul run.run elementSize : Code Nat) = .ok range.2 ∧
      ∃ skip, (build.mul run.src elementSize : Code Nat) = .ok skip ∧
        (build.add address skip : Code Nat) = .ok range.1 := by
  obtain ⟨len, width, ranged⟩ := Outcome.bind_eq_ok.mp ranged
  obtain ⟨skip, source, ranged⟩ := Outcome.bind_eq_ok.mp ranged
  obtain ⟨at_, place, ranged⟩ := Outcome.bind_eq_ok.mp ranged
  cases ranged
  exact ⟨width, skip, source, place⟩

/-- The ranges of a selection that fits in memory are short. They are empty where the elements are. -/
theorem run_range {walked : List (Code ElementRun)} (rank : slab.count.length = shape.length)
    (found : forEachRun build shape slab = .ok walked)
    (fits : checkedMul slab.elementCount elementSize = some total) (small : total ≤ isizeMax) {run : ElementRun}
    (member : .ok run ∈ walked) {range : Nat × Nat}
    (ranged : runRange build address elementSize run = .ok range) :
    range.2 ≤ isizeMax ∧ (0 < elementSize → 0 < range.2) ∧
      (elementSize = 0 → range.2 = 0 ∧ (build.add address 0 : Code Nat) = .ok range.1) := by
  obtain ⟨width, bounds, same⟩ := forEachRun_width rank found
  obtain ⟨positive, below⟩ := bounds (List.ne_nil_of_mem member)
  obtain ⟨whole, -⟩ := checkedMul_eq_some fits
  obtain ⟨long, skip, source, place⟩ := runRange_eq_ok ranged
  have most : width * elementSize ≤ isizeMax := (Nat.mul_le_mul_right _ below).trans (whole ▸ small)
  rw [same _ member run rfl, Build.mul,
    Build.word_of_lt build (lt_of_le_of_lt most isizeMax_lt_wordSize)] at long
  have exact_ := Outcome.ok.inj long
  refine ⟨exact_ ▸ most, fun some_ => exact_ ▸ Nat.mul_pos positive some_, ?_⟩
  rintro rfl
  rw [Nat.mul_zero] at exact_
  rw [Build.mul, Nat.mul_zero, Build.word_of_lt build wordSize_pos] at source
  cases source
  exact ⟨exact_.symm, place⟩

theorem readContiguous_direct_iff (serves : ctx.source.Serves file) (rank : slab.count.length = shape.length)
    (fits : checkedMul slab.elementCount elementSize = some total) (small : total ≤ isizeMax)
    (out last : Bytes) :
    (readContiguous build ctx address out shape slab elementSize ⟨none, none⟩).1 = .ok last ↔
      ∃ walked, forEachRun build shape slab = .ok walked ∧
        ReadsRuns build ctx file address elementSize
        (fun range => file.Holds range.1 range.2) walked out last := by
  rw [readContiguous, Session.fst_lift_bind, Outcome.bind_eq_ok]
  refine exists_congr fun walked => and_congr_right fun found => ?_
  refine readRuns_direct_iff serves walked ?_ out last
  rintro next member run rfl range ranged
  exact (run_range rank found fits small member ranged).1

/-- The batch of a dense read succeeds when the ranges of all its runs are answered. -/
theorem fetchRuns_iff (serves : remote.source.Serves file) (batches : remote.source.ServesRanges file)
    (base : remote.baseAddress = ctx.baseAddress) (pages : PagesSound file caches) {ranges : List (Nat × Nat)}
    (small : ∀ range ∈ ranges, range.2 ≤ isizeMax) (positive : 0 < elementSize → ∀ range ∈ ranges, 0 < range.2)
    (empty : elementSize = 0 → ∀ range ∈ ranges, range.2 = 0 ∧ (build.add address 0 : Code Nat) = .ok range.1)
    (blobs : List Bytes) :
    (fetchBytes build remote (ranges.map fun range => (remote.resolve range.1, range.2)) caches).1 = .ok blobs ↔
      (∀ range ∈ ranges, Answered file caches.io.isSome (ctx.resolve range.1, range.2)) ∧
        blobs = ranges.map fun range => file.part (ctx.resolve range.1) range.2 := by
  have resolve : remote.resolve = ctx.resolve := by
    funext a
    rw [AsyncCtx.resolve, base, Ctx.resolve]
  have words : ∀ range ∈ ranges.map fun range => (remote.resolve range.1, range.2),
      range.1 < wordSize ∧ range.2 < wordSize :=
    List.forall_mem_map.mpr fun range member =>
      ⟨wrappingAdd_lt _ _, lt_of_le_of_lt (small range member) isizeMax_lt_wordSize⟩
  have alike : Io.Alike (ranges.map fun range => (remote.resolve range.1, range.2)) := by
    rcases Nat.eq_zero_or_pos elementSize with none | some_
    · right
      cases place : (build.add address 0 : Code Nat) with
      | ok at_ =>
        refine ⟨remote.resolve at_, List.forall_mem_map.mpr fun range member => ?_⟩
        obtain ⟨len, first⟩ := empty none range member
        cases place.symm.trans first
        rw [len]
      | error e =>
        refine ⟨0, List.forall_mem_map.mpr fun range member => ?_⟩
        cases place.symm.trans (empty none range member).2
      | panic p =>
        refine ⟨0, List.forall_mem_map.mpr fun range member => ?_⟩
        cases place.symm.trans (empty none range member).2
    · exact .inl (List.forall_mem_map.mpr (positive some_))
  refine ((fetchBytes_spec serves batches words alike pages).2 blobs).trans ?_
  rw [List.forall_mem_map, List.map_map, resolve]
  rfl

theorem fetchContiguous_iff (serves : remote.source.Serves file) (batches : remote.source.ServesRanges file)
    (base : remote.baseAddress = ctx.baseAddress) (pages : PagesSound file caches)
    (rank : slab.count.length = shape.length) (fits : checkedMul slab.elementCount elementSize = some total)
    (small : total ≤ isizeMax) (out last : Bytes) :
    (fetchContiguous build remote address out shape slab elementSize caches).1 = .ok last ↔
      ∃ walked, forEachRun build shape slab = .ok walked ∧
        ReadsRuns build ctx file address elementSize (Answered file caches.io.isSome) walked out last := by
  have each : fetchRange build remote address elementSize = fun run =>
      (fun range => (remote.resolve range.1, range.2)) <$> runRange build address elementSize run :=
    funext fun run => fetchRange_eq build remote address elementSize run
  rw [fetchContiguous, Session.fst_lift_bind, Outcome.bind_eq_ok]
  refine exists_congr fun walked => and_congr_right fun found => ?_
  have regular {runs : List ElementRun} (collected : walked.mapM id = .ok runs) {ranges : List (Nat × Nat)}
      (ranged : runs.mapM (runRange build address elementSize) = .ok ranges) (range : Nat × Nat)
      (member : range ∈ ranges) : range.2 ≤ isizeMax ∧ (0 < elementSize → 0 < range.2) ∧
        (elementSize = 0 → range.2 = 0 ∧ (build.add address 0 : Code Nat) = .ok range.1) := by
    obtain ⟨run, among, same⟩ := Outcome.exists_of_mem_mapM ranged range member
    obtain ⟨next, inside, rfl⟩ := Outcome.exists_of_mem_mapM collected run among
    exact run_range rank found fits small inside same
  have batch {runs : List ElementRun} (collected : walked.mapM id = .ok runs) {ranges : List (Nat × Nat)}
      (ranged : runs.mapM (runRange build address elementSize) = .ok ranges) (blobs : List Bytes) :=
    fetchRuns_iff serves batches base pages (fun range member => (regular collected ranged range member).1)
      (fun some_ range member => (regular collected ranged range member).2.1 some_)
      (fun none range member => (regular collected ranged range member).2.2 none) blobs
  rw [Session.fst_lift_bind, Outcome.bind_eq_ok]
  constructor
  · rintro ⟨runs, collected, done⟩
    rw [Session.fst_lift_bind, each, Outcome.mapM_map] at done
    obtain ⟨_, mapped, done⟩ := Outcome.bind_eq_ok.mp done
    obtain ⟨ranges, ranged, rfl⟩ := Outcome.map_eq_ok.mp mapped
    rw [Session.fst_bind_lift] at done
    obtain ⟨blobs, fetched, placed⟩ := Outcome.bind_eq_ok.mp done
    obtain ⟨answered, rfl⟩ := (batch collected ranged blobs).mp fetched
    exact ⟨runs, ranges, collected, ranged, answered, placed⟩
  · rintro ⟨runs, ranges, collected, ranged, answered, placed⟩
    refine ⟨runs, collected, ?_⟩
    rw [Session.fst_lift_bind, each, Outcome.mapM_map, ranged, Outcome.map_ok, Outcome.ok_bind,
      Session.fst_bind_lift, (batch collected ranged _).mpr ⟨answered, rfl⟩, Outcome.ok_bind, placed]

end Ranges

end Read

end Oxcdf
