import Oxcdf.Concurrent.Hyperslab

/-! Readers of one open file, in any number and any interleaving.

Each reader does one operation. Whatever the others do between two of its steps, and
whatever the caches drop, it gets what it would get if it were alone and no cache of
decoded chunks were there.
-/

set_option autoImplicit false

namespace Oxcdf

open Foundation Foundation.Buffer

variable {δ : Type}

/-- What a reader may be asked for. -/
inductive Operation (δ : Type) where
  | bytes (address len : Nat)
  | prepare (dataset : δ)
  | isPrepared (dataset : δ)
  | hyperslab (dataset : δ) (slab : Hyperslab)

def Operation.Result : Operation δ → Type
  | .bytes .. => Bytes
  | .prepare _ => Unit
  | .isPrepared _ => Bool
  | .hyperslab .. => RawData

def Operation.perform (build : Build) (file : OpenFile δ) : (operation : Operation δ) → Thread δ operation.Result
  | .bytes address len => Concurrent.read file address len
  | .prepare dataset => Concurrent.prepare build file dataset
  | .isPrepared dataset => Concurrent.isPrepared dataset
  | .hyperslab dataset slab => Concurrent.readHyperslab build file dataset slab

namespace OpenFile

variable (build : Build) (file : OpenFile δ)

/-- The page cache as it is when the file is opened, and no cache of chunks. -/
def fresh : Caches where
  chunk := none
  io := file.own.io.map fun self =>
    { pages := { held := fun _ => none, keep := fun _ _ => true, calls := 0 }
      pageSize := self.pageSize
      positive := self.positive }

/-- What a reader gets who is alone, of a dataset with its chunk index. -/
def alone (dataset : δ) (chunks : Option (List ChunkRecord)) (slab : Hyperslab) : Code RawData :=
  (Read.readHyperslab build file.ctx file.codecs { file.datasets dataset with chunks } slab file.fresh).1

end OpenFile

/-- How an operation should end, and in what state. A read of a selection that returns, returns what it does
alone; it ends in every case as it does alone when all that it may fetch ahead is there. An index is resolved
once a reader has been told that it is. -/
def Operation.Ends (build : Build) (file : OpenFile δ) :
    (operation : Operation δ) → Outcome Error operation.Result → Sharing δ → Prop
  | .bytes address len, got, _ => got = Read.fetched file.ctx file.image file.own.io.isSome address len
  | .prepare dataset, got, sharing => got = (fun _ => ()) <$> file.resolved build dataset ∧
    (got = .ok () → (sharing.indexes dataset).isSome)
  | .isPrepared dataset, got, sharing => ∃ prepared : Bool, got = .ok prepared ∧
    (prepared = true → (sharing.indexes dataset).isSome)
  | .hyperslab dataset slab, got, _ =>
    (∀ raw : RawData, got = .ok raw →
      ∃ chunks, file.resolved build dataset = .ok chunks ∧ file.alone build dataset chunks slab = .ok raw) ∧
    (file.Readable build dataset → ∀ chunks, file.resolved build dataset = .ok chunks →
      got = file.alone build dataset chunks slab)

namespace Concurrent

variable {build : Build} {file : OpenFile δ}

theorem fresh_bare : Read.Bare file.image file.own.io.isSome file.fresh := by
  refine ⟨rfl, by simp [OpenFile.fresh], fun cache held index bytes found => ?_⟩
  obtain ⟨self, -, rfl⟩ := Option.map_eq_some_iff.mp held
  cases found

/-- What is read of the file, its index resolved, is what a reader gets who is alone. -/
theorem alone_eq (serves : file.source.Serves file.image) {dataset : δ} {chunks : Option (List ChunkRecord)}
    (slab : Hyperslab) :
    file.alone build dataset chunks slab =
      Read.plainHyperslab build (Read.fetched file.ctx file.image file.own.io.isSome)
        (file.chunkBytes build dataset) (file.datasets dataset) (.ok chunks) slab := by
  have alone := (@Read.readHyperslab_bare build { file.datasets dataset with chunks } file.ctx file.codecs file.image
    file.own.io.isSome serves slab file.fresh fresh_bare).1
  rw [Read.plainHyperslab_carried] at alone
  exact alone

/-- A read that returns has a chunk index that resolves. -/
theorem resolved_of_plain {dataset : δ} {slab : Hyperslab} {raw : RawData}
    {fetch : Nat → Nat → Code Bytes} {plain : ChunkRecord → Code Bytes}
    (read : Read.plainHyperslab build fetch plain (file.datasets dataset) (file.resolved build dataset) slab =
      .ok raw) : ∃ chunks, file.resolved build dataset = .ok chunks := by
  obtain ⟨-, -, read⟩ := Outcome.bind_eq_ok.mp read
  dsimp only at read
  split at read
  · cases read
  · obtain ⟨total, -, read⟩ := Outcome.bind_eq_ok.mp read
    obtain ⟨chunks, indexed, -⟩ := Outcome.bind_eq_ok.mp read
    exact ⟨chunks, resolved_of_plainIndex indexed⟩

section Ending

variable [DecidableEq δ] (serves : file.source.Serves file.image) (batches : file.source.ServesRanges file.image)
  (identified : file.Identified build)

include serves batches identified

/-- Every operation ends as it should, whatever is done between its steps. -/
theorem perform_safe (operation : Operation δ) (seen : Sharing δ) :
    Dialogue.Safe Sharing.answer (agreement build file) (operation.Ends build file) (operation.perform build file)
      seen := by
  cases operation with
  | bytes address len =>
    refine (@read_gives δ build file _ True serves address len seen).mono ?_
    rintro got _ (same | ⟨never, -⟩)
    · exact same
    · exact absurd trivial never
  | prepare dataset => exact prepare_safe dataset seen
  | isPrepared dataset =>
    refine (index_safe dataset seen).bind ?_ (by simp) (by simp)
    rintro found sharing ⟨same, -⟩
    cases same
    exact ⟨_, rfl, id⟩
  | hyperslab dataset slab =>
    have gives := @readHyperslab_gives δ _ build file serves batches identified dataset slab seen
    refine gives.mono ?_
    rintro got _ (same | ⟨missing, failed⟩)
    · refine ⟨fun raw returned => ?_, fun _ chunks resolved => ?_⟩
      · have read := same.symm.trans returned
        obtain ⟨chunks, resolved⟩ := resolved_of_plain read
        refine ⟨chunks, resolved, (alone_eq serves slab).trans ?_⟩
        rw [← resolved]
        exact read
      · rw [same, alone_eq serves, resolved]
    · exact ⟨fun raw returned => absurd returned (failed raw), fun readable => absurd readable missing⟩

omit [DecidableEq δ] serves batches identified in
/-- What a reader has been told of an index stays so. -/
theorem ends_of_moved {operation : Operation δ} {got : Outcome Error operation.Result} {before after : Sharing δ}
    (ends : operation.Ends build file got before) (moved : (agreement build file).moves before after) :
    operation.Ends build file got after := by
  have stays {dataset : δ} (held : (before.indexes dataset).isSome) : (after.indexes dataset).isSome := by
    obtain ⟨resolved, found⟩ := Option.isSome_iff_exists.mp held
    simp [moved dataset resolved found]
  cases operation with
  | prepare dataset => exact ends.imp_right fun held done => stays (held done)
  | isPrepared dataset => exact ends.imp fun prepared told => told.imp_right fun held yes => stays (held yes)
  | _ => exact ends

section Runs

variable {ι : Type} [DecidableEq ι] {operations : ι → Operation δ} {sharing : Sharing δ}
  {pool later : Pool Error (sharedCalls δ) (Sharing δ) fun i => (operations i).Result}

omit [DecidableEq δ] serves batches identified [DecidableEq ι] in
/-- Readers that have not begun yet, each with its operation. -/
def started (build : Build) (file : OpenFile δ) (operations : ι → Operation δ) (sharing : Sharing δ) :
    Pool Error (sharedCalls δ) (Sharing δ) fun i => (operations i).Result where
  threads i := (operations i).perform build file
  shared := sharing

omit [DecidableEq ι] in
theorem started_kept (sound : sharing.Sound build file) :
    (started build file operations sharing).Kept Sharing.answer (agreement build file)
      fun i => (operations i).Ends build file :=
  ⟨sound, fun i =>
    ⟨sharing, (agreement build file).refl _, perform_safe serves batches identified (operations i) sharing⟩⟩

/-- However any number of readers are interleaved, with each other and with what else happens to the caches,
what they share stays the file's, and each that ends has what it would have alone. -/
theorem readers_end_as_alone (sound : sharing.Sound build file)
    (run : Pool.Reaches Sharing.answer (Background build file) (started build file operations sharing) pool) :
    pool.shared.Sound build file ∧
      ∀ i outcome, pool.threads i = .finish outcome → (operations i).Ends build file outcome pool.shared := by
  obtain ⟨-, kept⟩ := (started_kept serves batches identified sound).reaches background_respects run
  refine ⟨kept.holds, fun i outcome finished => ?_⟩
  obtain ⟨seen, moved, ends⟩ := kept.ended finished
  exact ends_of_moved ends moved

/-- A chunk index is resolved once: what is there at some point of a run is the file's, and no later step of
any reader changes it. -/
theorem index_resolved_once (sound : sharing.Sound build file)
    (run : Pool.Reaches Sharing.answer (Background build file) (started build file operations sharing) pool)
    (more : Pool.Reaches Sharing.answer (Background build file) pool later) {dataset : δ}
    {resolved : Option (List ChunkRecord)} (found : pool.shared.indexes dataset = some resolved) :
    file.resolved build dataset = .ok resolved ∧ later.shared.indexes dataset = some resolved := by
  obtain ⟨-, kept⟩ := (started_kept serves batches identified sound).reaches background_respects run
  obtain ⟨moved, -⟩ := kept.reaches background_respects more
  exact ⟨kept.holds.indexes dataset resolved found, moved dataset resolved found⟩

end Runs

end Ending

section TwoReads

/-- Four bytes in memory, in two chunks, and a cache of chunks that reads one ahead. -/
def fourStored : OpenFile Unit where
  view := ⟨⟨[10, 20, 30, 40], by decide⟩, 0, ⟨8, 8⟩⟩
  source := memorySource ⟨[10, 20, 30, 40], by decide⟩
  io := ⟨0, 0⟩
  codecs := .refusing
  own := Read.coldChunks 1
  datasets _ := .ofBytes [4] (.chunked (some 0) [2] 1 .implicit) none

def fourStoredChunks : List ChunkRecord := [⟨2, 0, [0], 0⟩, ⟨2, 0, [2], 2⟩]

theorem fourStored_resolved : fourStored.resolved .debug () = .ok (some fourStoredChunks) := by
  have sorted : ChunkIndex.sortByOffset fourStoredChunks = fourStoredChunks :=
    List.mergeSort_of_pairwise (by decide)
  exact congrArg (fun records => Outcome.ok (some records)) sorted

theorem fourStored_identified : fourStored.Identified .debug := by
  rintro ⟨⟩ ⟨⟩ chunks others known also record member other among same
  rw [fourStored_resolved] at known also
  cases known
  cases also
  have distinct : Read.Distinct fourStoredChunks := by
    unfold Read.Distinct
    decide
  rw [distinct.eq member among same]

/-- A reader of the first chunk and a reader of all but the first byte. -/
def twoReads (i : Fin 2) : Operation Unit := .hyperslab () (if i = 0 then ⟨[0], [2]⟩ else ⟨[1], [3]⟩)

/-- Nothing is decoded yet, and the chunk index is resolved. -/
def indexed : Sharing Unit := ⟨Read.coldChunks 1, fun _ => some (some fourStoredChunks)⟩

theorem indexed_sound : indexed.Sound .debug fourStored := by
  refine ⟨⟨rfl, rfl⟩, nofun, fun cache here => ?_, fun dataset resolved found => ?_⟩
  · cases here
    nofun
  · cases found
    exact fourStored_resolved

/-- The readers take turns; both look for the chunks before either has stored one. -/
def twoReadsTurns : List (Fin 2) := [0, 1, 0, 1, 0, 1, 0, 1, 1, 0, 0, 1, 1, 1, 1, 0, 0, 1]

def twoReadsPlayed : Pool Error (sharedCalls Unit) (Sharing Unit) fun i => (twoReads i).Result :=
  (started .debug fourStored twoReads indexed).play Sharing.answer twoReadsTurns

example : twoReadsPlayed.threads 0 = .finish (.ok (⟨[10, 20], 1, [2]⟩ : RawData)) ∧
    twoReadsPlayed.threads 1 = .finish (.ok (⟨[20, 30, 40], 1, [3]⟩ : RawData)) := by
  exact ⟨rfl, rfl⟩

theorem readers_end_as_alone_twoReads :
    twoReadsPlayed.shared.Sound .debug fourStored ∧ ∀ i outcome, twoReadsPlayed.threads i = .finish outcome →
      (twoReads i).Ends .debug fourStored outcome twoReadsPlayed.shared :=
  readers_end_as_alone (memorySource_serves _) (memorySource_servesRanges _) fourStored_identified indexed_sound
    (Pool.reaches_play _ _)

theorem index_resolved_once_twoReads :
    fourStored.resolved .debug () = .ok (some fourStoredChunks) ∧
      twoReadsPlayed.shared.indexes () = some (some fourStoredChunks) :=
  @index_resolved_once Unit .debug fourStored _ (memorySource_serves _) (memorySource_servesRanges _)
    fourStored_identified (Fin 2) _ twoReads indexed _ twoReadsPlayed indexed_sound .refl (Pool.reaches_play _ _) _ _
    rfl

end TwoReads

end Concurrent

end Oxcdf
