import Oxcdf.Concurrent.Readers
import Oxcdf.Foundation.Playing

/-! A reader that is alone.

With nobody else on the caches, a thread does step by step what the sequential reader
does: it returns the same and leaves the same behind.
-/

set_option autoImplicit false

namespace Oxcdf.Concurrent

open Foundation Foundation.Buffer Thread

variable {δ : Type} [DecidableEq δ]

section Pages

/-- The page cache is the one that the threads share. -/
structure SharesPages (own : IoCache) (chunk : Option ChunkCache) (indexes : δ → Option (Option (List ChunkRecord)))
    (sharing : Sharing δ) (cache : IoCache) : Prop where
  same : sharing = ⟨⟨chunk, some cache⟩, indexes⟩
  size : cache.pageSize = own.pageSize

variable {self : IoCache} {chunk : Option ChunkCache} {indexes : δ → Option (Option (List ChunkRecord))}

theorem page_plays (index : Nat) :
    Dialogue.Plays Sharing.answer (SharesPages self chunk indexes) (page index)
      (Session.run fun cache => cache.page index) := by
  refine Dialogue.Plays.query (I := sharedCalls δ) ?_
  rintro _ cache ⟨rfl, size⟩
  exact ⟨rfl, rfl, size⟩

theorem putPage_plays (index : Nat) (bytes : Bytes) :
    Dialogue.Plays Sharing.answer (SharesPages self chunk indexes) (putPage index bytes)
      (Session.modify fun cache => cache.putPage index bytes) := by
  refine Dialogue.Plays.query (I := sharedCalls δ) ?_
  rintro _ cache ⟨rfl, size⟩
  exact ⟨rfl, rfl, size⟩

theorem cached_plays (count : Nat) : ∀ first : Nat,
    Dialogue.Plays Sharing.answer (SharesPages self chunk indexes) (cached first count)
      (Session.run fun cache => cache.cached first count) := by
  induction count with
  | zero => exact fun first => Dialogue.Plays.pure []
  | succ count ih =>
    exact fun first => (page_plays first).bind fun found => (ih (first + 1)).bind fun others =>
      Dialogue.Plays.pure (found :: others)

theorem storeRun_plays (start first : Nat) (bytes : Bytes) (indices : List Nat) : ∀ pages : List (Option Bytes),
    Dialogue.Plays Sharing.answer (SharesPages self chunk indexes) (storeRun self start first bytes indices pages)
      (Session.run fun cache => IoCache.storeRun start first bytes indices pages cache) := by
  induction indices with
  | nil => exact fun pages => Dialogue.Plays.pure pages
  | cons index indices ih =>
    intro pages sharing cache shares
    simp only [storeRun, IoCache.storeRun, Session.run_apply, shares.size]
    split
    · exact ⟨rfl, shares⟩
    · exact (putPage_plays index _).bind (fun _ => ih _) sharing cache shares

theorem fetchRuns_plays (fetch : Nat → Nat → Code Bytes) (size first : Nat) (runs : List (Nat × Nat)) :
    ∀ pages : List (Option Bytes), Dialogue.Plays Sharing.answer (SharesPages self chunk indexes)
      (fetchRuns self fetch size first runs pages) (IoCache.fetchRuns fetch size first runs pages) := by
  induction runs with
  | nil => exact fun pages => Dialogue.Plays.pure pages
  | cons run runs ih =>
    intro pages sharing cache shares
    have extent : cache.runExtent run.1 run.2 size = self.runExtent run.1 run.2 size :=
      runExtent_congr shares.size _ _ _
    simp only [fetchRuns, IoCache.fetchRuns, extent]
    cases fetch (self.runExtent run.1 run.2 size).1 (self.runExtent run.1 run.2 size).2 with
    | ok bytes => exact (storeRun_plays _ first bytes _ pages).bind (fun pages => ih pages) sharing cache shares
    | error e => exact ⟨rfl, shares⟩
    | panic p => exact ⟨rfl, shares⟩

/-- The sequential read, as a sequence of its parts. -/
theorem readThrough_eq {fetch : Nat → Nat → Code Bytes} {size offset len first last : Nat} {cache : IoCache}
    (asked : cache.bounds size offset len = .ok (some (first, last))) :
    let found := cache.cached first (last + 1 - first)
    IoCache.readThrough fetch size offset len cache =
      Session.bind (IoCache.fetchRuns fetch size first (IoCache.missingRuns found.1 first none) found.1)
        (fun pages cache => (cache.assemble offset len first pages, cache)) found.2 := by
  simp only [IoCache.readThrough, asked, Session.bind]
  cases IoCache.fetchRuns fetch size first
    (IoCache.missingRuns (cache.cached first (last + 1 - first)).1 first none)
    (cache.cached first (last + 1 - first)).1 (cache.cached first (last + 1 - first)).2 with | mk got after
  cases got <;> rfl

theorem readThrough_plays (fetch : Nat → Nat → Code Bytes) (size offset len : Nat) :
    Dialogue.Plays Sharing.answer (SharesPages self chunk indexes) (readThrough self fetch size offset len)
      (IoCache.readThrough fetch size offset len) := by
  intro sharing cache shares
  have same : cache.bounds size offset len = self.bounds size offset len := bounds_congr shares.size _ _ _
  cases asked : self.bounds size offset len with
  | ok range =>
    cases range with
    | none =>
      simp only [readThrough, IoCache.readThrough, same, asked]
      exact ⟨rfl, shares⟩
    | some range =>
      obtain ⟨first, last⟩ := range
      have assembles (pages : List (Option Bytes)) :
          Dialogue.Plays Sharing.answer (SharesPages self chunk indexes) (lift (self.assemble offset len first pages))
            fun cache => (cache.assemble offset len first pages, cache) :=
        fun _ _ shares => ⟨(assemble_congr shares.size offset len first pages).symm, shares⟩
      rw [readThrough_eq (same.trans asked), readThrough, asked]
      exact (cached_plays (last + 1 - first) first).bind (fun pages =>
        (fetchRuns_plays fetch size first (IoCache.missingRuns pages first none) pages).bind assembles)
        sharing cache shares
  | error e =>
    simp only [readThrough, IoCache.readThrough, same, asked]
    exact ⟨rfl, shares⟩
  | panic p =>
    simp only [readThrough, IoCache.readThrough, same, asked]
    exact ⟨rfl, shares⟩

end Pages

section Chunks

/-- The cache of chunks is the one that the threads share. -/
structure SharesChunks (ahead : Nat) (io : Option IoCache) (indexes : δ → Option (Option (List ChunkRecord)))
    (sharing : Sharing δ) (cache : ChunkCache) : Prop where
  same : sharing = ⟨⟨some cache, io⟩, indexes⟩
  ahead : cache.readahead = ahead

variable {ahead : Nat} {io : Option IoCache} {indexes : δ → Option (Option (List ChunkRecord))}
  {build : Build} {file : OpenFile δ}

theorem containsChunk_plays (address : Nat) :
    Dialogue.Plays Sharing.answer (SharesChunks ahead io indexes) (containsChunk address)
      (Session.run fun cache => cache.contains address) := by
  refine Dialogue.Plays.query (I := sharedCalls δ) ?_
  rintro _ cache ⟨rfl, same⟩
  exact ⟨rfl, rfl, same⟩

theorem insertChunk_plays (address : Nat) (bytes : Bytes) :
    Dialogue.Plays Sharing.answer (SharesChunks ahead io indexes) (insertChunk address bytes)
      (Session.modify fun cache => cache.insert address bytes) := by
  refine Dialogue.Plays.query (I := sharedCalls δ) ?_
  rintro _ cache ⟨rfl, same⟩
  exact ⟨rfl, rfl, same⟩

theorem uncached_plays (records : List ChunkRecord) :
    Dialogue.Plays Sharing.answer (SharesChunks ahead io indexes) (uncached records) (Read.uncached records) := by
  induction records with
  | nil => exact Dialogue.Plays.pure []
  | cons record records ih =>
    unfold uncached
    split
    · next empty =>
      intro sharing cache shares
      simp only [Read.uncached, if_pos empty]
      exact ih sharing cache shares
    · next stored =>
      have keeps : Dialogue.Plays Sharing.answer (SharesChunks ahead io indexes) (do
          let others ← uncached records
          pure (record :: others)) (do
          let others ← Read.uncached records
          pure (record :: others)) := ih.bind fun others => Dialogue.Plays.pure (record :: others)
      have rest (held : Bool) : Dialogue.Plays Sharing.answer (SharesChunks ahead io indexes)
          (if held then uncached records else do
            let others ← uncached records
            pure (record :: others))
          (if held then Read.uncached records else do
            let others ← Read.uncached records
            pure (record :: others)) := by
        cases held with
        | true => exact ih
        | false => exact keeps
      intro sharing cache shares
      have looked := (containsChunk_plays record.address).bind rest sharing cache shares
      cases held : (cache.inner.containsKey record.address).1 with
      | true =>
        rw [Session.bind_of_fst (show _ = Outcome.ok true from congrArg Outcome.ok held)] at looked
        simp only [Read.uncached, if_neg stored, held]
        exact looked
      | false =>
        rw [Session.bind_of_fst (show _ = Outcome.ok false from congrArg Outcome.ok held)] at looked
        simp only [Read.uncached, if_neg stored, held]
        exact looked

theorem insertDecoded_plays (dataset : DatasetIndex) (decodedLen : Nat) (pairs : List (ChunkRecord × Bytes)) :
    Dialogue.Plays Sharing.answer (SharesChunks ahead io indexes) (insertDecoded build file dataset decodedLen pairs)
      (Read.insertDecoded build file.codecs dataset.pipeline decodedLen pairs) := by
  induction pairs with
  | nil => exact Dialogue.Plays.pure ()
  | cons pair pairs ih =>
    obtain ⟨record, raw⟩ := pair
    intro sharing cache shares
    simp only [insertDecoded, Read.insertDecoded]
    cases Filters.decodeChunk build file.codecs dataset.pipeline record.filterMask raw decodedLen with
    | ok decoded => exact (insertChunk_plays record.address decoded).bind (fun _ => ih) sharing cache shares
    | error e => exact ih sharing cache shares
    | panic p => exact ⟨rfl, shares⟩

end Chunks

/-- The caches are the ones that the threads share, and like those that a reader knows of. -/
structure Shares (own : Caches) (indexes : δ → Option (Option (List ChunkRecord))) (sharing : Sharing δ)
    (caches : Caches) : Prop where
  same : sharing = ⟨caches, indexes⟩
  alike : own.Alike caches

variable {build : Build} {file : OpenFile δ} {own : Caches} {indexes : δ → Option (Option (List ChunkRecord))}

section Lifting

variable {α : Type}

/-- What is done to the page cache is done to the caches. -/
theorem throughIo_plays {self : IoCache} (paged : own.io = some self) {thread : Thread δ α}
    {step : Session IoCache Error α} {direct : Code α}
    (plays : ∀ chunk, Dialogue.Plays Sharing.answer (SharesPages self chunk indexes) thread step) :
    Dialogue.Plays Sharing.answer (Shares own indexes) thread (Caches.throughIo step direct) := by
  rintro _ ⟨chunk, io⟩ ⟨rfl, alike⟩
  obtain ⟨cache, here, size⟩ := isSome_of_alike alike.io.symm paged
  cases here
  obtain ⟨ends, after⟩ := plays chunk _ cache ⟨rfl, size⟩
  refine ⟨ends, after.same, alike.chunk, ?_⟩
  simpa [Caches.throughIo, paged] using after.size

theorem onChunkCache_plays {self : ChunkCache} (here : own.chunk = some self) {thread : Thread δ α}
    {step : Session ChunkCache Error α} {none_ : α}
    (plays : ∀ io, Dialogue.Plays Sharing.answer (SharesChunks self.readahead io indexes) thread step) :
    Dialogue.Plays Sharing.answer (Shares own indexes) thread (Read.onChunkCache none_ step) := by
  rintro _ ⟨chunk, io⟩ ⟨rfl, alike⟩
  obtain ⟨cache, held, ahead⟩ := isSome_of_alike alike.chunk.symm here
  cases held
  obtain ⟨ends, after⟩ := plays io _ cache ⟨rfl, ahead⟩
  refine ⟨ends, after.same, ?_, alike.io⟩
  simpa [Read.onChunkCache, here] using after.ahead

end Lifting

section Reading

theorem read_plays (address len : Nat) :
    Dialogue.Plays Sharing.answer (Shares file.own indexes) (read file address len) (file.ctx.read address len) := by
  unfold read
  cases paged : file.own.io with
  | some self => exact throughIo_plays paged fun chunk => readThrough_plays _ _ _ _
  | none =>
    rintro _ ⟨chunk, io⟩ ⟨rfl, alike⟩
    have none : io = none := by simpa [paged] using alike.io
    subst none
    exact ⟨rfl, rfl, alike⟩

theorem readRanges_plays (ranges : List (Nat × Nat)) :
    Dialogue.Plays Sharing.answer (Shares file.own indexes) (readRanges build file ranges)
      (file.ctx.readRanges build ranges) := by
  unfold readRanges
  cases paged : file.own.io with
  | some self =>
    exact throughIo_plays paged fun chunk => Dialogue.Plays.mapM (fun range => readThrough_plays _ _ _ _) _
  | none =>
    rintro _ ⟨chunk, io⟩ ⟨rfl, alike⟩
    have none : io = none := by simpa [paged] using alike.io
    subst none
    exact ⟨rfl, rfl, alike⟩

theorem readRuns_plays (address elementSize : Nat) (runs : List (Code Read.ElementRun)) : ∀ out : Bytes,
    Dialogue.Plays Sharing.answer (Shares file.own indexes) (readRuns build file address elementSize runs out)
      (Read.readRuns build file.ctx address elementSize runs out) := by
  induction runs with
  | nil => exact fun out => Dialogue.Plays.pure out
  | cons next runs ih =>
    exact fun out => (Dialogue.Plays.lift next).bind fun run =>
      (Dialogue.Plays.lift (Read.runRange build address elementSize run)).bind fun place =>
        (read_plays place.1 place.2).bind fun bytes => (Dialogue.Plays.lift _).bind ih

variable {dataset : DatasetIndex} {decodedLen : Nat}

theorem prefetchChunks_plays (chunks : List ChunkRecord) (needed : List Nat) :
    Dialogue.Plays Sharing.answer (Shares file.own indexes)
      (prefetchChunks build file dataset chunks needed decodedLen)
      (Read.prefetchChunks build file.ctx file.codecs dataset chunks needed decodedLen) := by
  rintro _ ⟨chunk, io⟩ ⟨rfl, alike⟩
  cases here : file.own.chunk with
  | none =>
    have none : chunk = none := by simpa [here] using alike.chunk
    subst none
    simp only [prefetchChunks, Read.prefetchChunks, here]
    exact ⟨rfl, rfl, alike⟩
  | some self =>
    obtain ⟨cache, held, ahead⟩ := isSome_of_alike alike.chunk.symm here
    cases held
    simp only [prefetchChunks, Read.prefetchChunks, here]
    cases needed.getLast? with
    | none => exact ⟨rfl, rfl, alike⟩
    | some last =>
      have fetches (wanted : List ChunkRecord) : Dialogue.Plays Sharing.answer (Shares file.own indexes)
          (if wanted = [] then pure ()
          else do
            let blobs ← readRanges build file (wanted.map fun record => (record.address, record.size))
            insertDecoded build file dataset decodedLen (wanted.zip blobs))
          (if wanted = [] then pure ()
          else do
            let blobs ← file.ctx.readRanges build (wanted.map fun record => (record.address, record.size))
            Read.onChunkCache () (Read.insertDecoded build file.codecs dataset.pipeline decodedLen
              (wanted.zip blobs))) := by
        split
        · exact Dialogue.Plays.pure ()
        · exact (readRanges_plays _).bind fun blobs =>
            onChunkCache_plays here fun io => insertDecoded_plays dataset decodedLen _
      dsimp only
      rw [ahead]
      exact (Dialogue.Plays.lift (Read.prefetchCandidates build chunks.length self.readahead last needed)).bind
        (fun candidates => (onChunkCache_plays here fun io =>
          uncached_plays (candidates.filterMap fun i => chunks[i]?)).bind fetches) _ _ ⟨rfl, alike⟩

theorem decodeStored_plays (record : ChunkRecord) :
    Dialogue.Plays Sharing.answer (Shares file.own indexes) (decodeStored build file dataset decodedLen record)
      (Read.decodeStored build file.ctx file.codecs dataset decodedLen record) :=
  (read_plays _ _).bind fun _ => Dialogue.Plays.lift _

theorem fetchDecoded_plays (record : ChunkRecord) :
    Dialogue.Plays Sharing.answer (Shares file.own indexes) (fetchDecoded build file dataset decodedLen record)
      (Read.fetchDecoded build file.ctx file.codecs dataset decodedLen record) := by
  unfold fetchDecoded Read.fetchDecoded
  cases here : file.own.chunk with
  | some self =>
    have looks : Dialogue.Plays Sharing.answer (Shares file.own indexes) (chunk record.address)
        (Read.onChunkCache none (Session.run fun cache => cache.get record.address)) := by
      refine onChunkCache_plays here fun io => Dialogue.Plays.query (I := sharedCalls δ) ?_
      rintro _ cache ⟨rfl, same⟩
      exact ⟨rfl, rfl, same⟩
    refine looks.bind fun found => ?_
    cases found with
    | some hit => exact Dialogue.Plays.pure hit
    | none =>
      exact (decodeStored_plays record).bind fun decoded =>
        (onChunkCache_plays here fun io => insertChunk_plays record.address decoded).bind fun _ =>
          Dialogue.Plays.pure decoded
  | none =>
    -- Without a cache of chunks, the sequential reader looks nothing up and keeps nothing.
    have idle {γ : Type} (none_ : γ) (step : Session ChunkCache Error γ) :
        Dialogue.Plays Sharing.answer (Shares file.own indexes) (pure none_) (Read.onChunkCache none_ step) := by
      rintro _ ⟨chunk, io⟩ ⟨rfl, alike⟩
      have none_ : chunk = none := by simpa [here] using alike.chunk
      subst none_
      exact ⟨rfl, rfl, alike⟩
    have decodes := (@decodeStored_plays δ _ build file indexes dataset decodedLen record).bind fun decoded =>
      (idle () (Session.modify fun cache => cache.insert record.address decoded)).bind
        fun _ => Dialogue.Plays.pure decoded
    simp only [pure_bind, bind_pure] at decodes
    rintro _ ⟨chunk, io⟩ ⟨rfl, alike⟩
    have none_ : chunk = none := by simpa [here] using alike.chunk
    subst none_
    exact decodes _ _ ⟨rfl, alike⟩

variable (carried : Option (List ChunkRecord))

/-- The sequential reader carries the chunk index along with the dataset, and does not look at it again. -/
theorem copyChunks_plays {chunkShape chunkStrides dstStrides : List Nat} {slab : Hyperslab} {elementSize : Nat}
    (records : List ChunkRecord) : ∀ out : Bytes, Dialogue.Plays Sharing.answer (Shares file.own indexes)
      (copyChunks build file dataset decodedLen chunkShape chunkStrides dstStrides slab elementSize records out)
      (Read.copyChunks build file.ctx file.codecs { dataset with chunks := carried } decodedLen chunkShape
        chunkStrides dstStrides slab elementSize records out) := by
  induction records with
  | nil => exact fun out => Dialogue.Plays.pure out
  | cons record records ih =>
    intro out
    unfold copyChunks Read.copyChunks
    cases Read.clip record.offset chunkShape slab.start slab.count with
    | none => exact ih out
    | some part =>
      refine (fetchDecoded_plays record).bind fun decoded => ?_
      split
      · exact Dialogue.Plays.lift _
      · exact (Dialogue.Plays.lift _).bind fun writes => (Dialogue.Plays.lift _).bind ih

theorem readChunked_plays (chunks : List ChunkRecord) (chunkDims : List Nat) (out : Bytes) (slab : Hyperslab)
    (elementSize : Nat) : Dialogue.Plays Sharing.answer (Shares file.own indexes)
      (readChunked build file dataset chunks chunkDims out slab elementSize)
      (Read.readChunked build file.ctx file.codecs { dataset with chunks := carried } chunks chunkDims out slab
        elementSize) := by
  unfold readChunked Read.readChunked
  dsimp only
  split
  · exact Dialogue.Plays.lift _
  · exact (Dialogue.Plays.lift _).bind fun dstStrides => (Dialogue.Plays.lift _).bind fun decodedLen =>
      (Dialogue.Plays.lift _).bind fun chunkStrides => (Dialogue.Plays.lift _).bind fun needed =>
        (prefetchChunks_plays chunks needed).bind fun _ => copyChunks_plays carried _ out

theorem readStored_plays (chunks : Option (List ChunkRecord)) (slab : Hyperslab) (elementSize : Nat) (out : Bytes) :
    Dialogue.Plays Sharing.answer (Shares file.own indexes) (readStored build file dataset chunks slab elementSize out)
      (Read.readStored build file.ctx file.codecs { dataset with chunks := carried } chunks slab elementSize out) := by
  obtain ⟨path, shape, datatype, layout, pipeline, fillValue, -⟩ := dataset
  unfold readStored Read.readStored
  cases layout with
  | compact data => exact Dialogue.Plays.lift _
  | contiguous address size =>
    cases address with
    | none => exact Dialogue.Plays.pure out
    | some address => exact (Dialogue.Plays.lift _).bind fun runs => readRuns_plays address elementSize runs out
  | chunked address chunkDims width index =>
    cases chunks with
    | none => exact Dialogue.Plays.lift _
    | some chunks => exact readChunked_plays carried chunks chunkDims out slab elementSize

end Reading

section Whole

variable {dataset : δ} {chunks : Option (List ChunkRecord)}

theorem neededIndex_plays (resolved : indexes dataset = some chunks) :
    Dialogue.Plays Sharing.answer (Shares own indexes) (neededIndex build file dataset)
      (Session.lift (Read.resolvedIndex { file.datasets dataset with chunks })) := by
  have looks : Dialogue.Plays Sharing.answer (Shares own indexes) (index dataset)
      (Session.lift (.ok (some chunks))) := by
    refine Dialogue.Plays.query (I := sharedCalls δ) ?_
    rintro _ caches ⟨rfl, alike⟩
    exact ⟨congrArg Outcome.ok resolved, rfl, alike⟩
  have found : Dialogue.Plays Sharing.answer (Shares own indexes) (Concurrent.chunks build file dataset)
      (Session.lift (.ok chunks)) := looks.after (Dialogue.Plays.pure chunks)
  unfold neededIndex Read.resolvedIndex
  cases (file.datasets dataset).layout with
  | chunked =>
    refine found.after ?_
    cases chunks with
    | none => exact Dialogue.Plays.lift _
    | some chunks => exact Dialogue.Plays.pure (some chunks)
  | _ => exact Dialogue.Plays.pure none

/-- A reader that is alone, of a dataset whose index is resolved, is the sequential one: it returns the same and
leaves the same caches behind. -/
theorem readHyperslab_plays (resolved : indexes dataset = some chunks) (slab : Hyperslab) :
    Dialogue.Plays Sharing.answer (Shares file.own indexes) (readHyperslab build file dataset slab)
      (Read.readHyperslab build file.ctx file.codecs { file.datasets dataset with chunks } slab) := by
  unfold readHyperslab Read.readHyperslab
  refine (Dialogue.Plays.lift _).bind fun _ => ?_
  dsimp only
  split
  · exact Dialogue.Plays.lift _
  · exact (Dialogue.Plays.lift _).bind fun total => (neededIndex_plays resolved).bind fun needed =>
      (Dialogue.Plays.lift _).bind fun out => (readStored_plays chunks needed slab _ _).bind fun out =>
        Dialogue.Plays.pure _

/-- Alone, the concurrent reader and the sequential one are the same program over the caches. -/
theorem runWith_readHyperslab (resolved : indexes dataset = some chunks) (slab : Hyperslab) {caches : Caches}
    (alike : file.own.Alike caches) :
    let sequential :=
      Read.readHyperslab build file.ctx file.codecs { file.datasets dataset with chunks } slab caches
    (readHyperslab build file dataset slab).runWith Sharing.answer ⟨caches, indexes⟩ =
      (sequential.1, ⟨sequential.2, indexes⟩) ∧ file.own.Alike sequential.2 := by
  obtain ⟨ends, after⟩ := @readHyperslab_plays δ _ build file indexes dataset chunks resolved slab
    ⟨caches, indexes⟩ caches ⟨rfl, alike⟩
  exact ⟨Prod.ext ends after.same, after.alike⟩

theorem runWith_readHyperslab_fourStored :
    let sequential := Read.readHyperslab .debug fourStored.ctx fourStored.codecs
      { fourStored.datasets () with chunks := some fourStoredChunks } ⟨[1], [3]⟩ (Read.coldChunks 1)
    (readHyperslab .debug fourStored () ⟨[1], [3]⟩).runWith Sharing.answer indexed =
      (sequential.1, ⟨sequential.2, indexed.indexes⟩) ∧ fourStored.own.Alike sequential.2 :=
  @runWith_readHyperslab Unit _ .debug fourStored indexed.indexes () _ rfl ⟨[1], [3]⟩ (Read.coldChunks 1) ⟨rfl, rfl⟩

end Whole

end Oxcdf.Concurrent
