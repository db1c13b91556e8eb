import Oxcdf.Concurrent.Pages

/-! Concurrent reads through the cache of decoded chunks.

A chunk is looked up, decoded and inserted in separate steps, so that two readers may
decode it twice, and either may drop what the other inserted. What a reader copies is
what the file's chunk decodes to.
-/

set_option autoImplicit false

namespace Oxcdf

open Foundation Foundation.Buffer

variable {δ : Type}

namespace OpenFile

/-- All that a read of a dataset may fetch ahead is there: any chunk of it that is stored lies in
the file and does not panic when it is decoded. Nothing is asked of it without a cache of chunks. -/
structure Readable (build : Build) (file : OpenFile δ) (dataset : δ) : Prop where
  reach : ∀ self chunks, file.own.chunk = some self → file.resolved build dataset = .ok (some chunks) →
    build = .debug → chunks.length + self.readahead < wordSize
  held : ∀ self chunks, file.own.chunk = some self → file.resolved build dataset = .ok (some chunks) →
    ∀ record ∈ chunks, record.size ≠ 0 → file.image.Holds (file.ctx.resolve record.address) record.size
  decodes : ∀ self chunks, file.own.chunk = some self → file.resolved build dataset = .ok (some chunks) →
    ∀ record ∈ chunks, record.size ≠ 0 → ¬ (file.chunkBytes build dataset record).Panics

variable {build : Build} {file : OpenFile δ} {dataset : δ}

theorem stored_of_chunkBytes (identified : file.Identified build) {chunks : List ChunkRecord}
    (resolved : file.resolved build dataset = .ok (some chunks)) {record : ChunkRecord}
    (member : record ∈ chunks) {bytes : Bytes} (decoded : file.chunkBytes build dataset record = .ok bytes) :
    file.Stored build record.address bytes := by
  intro other others known second among same
  rw [← decoded]
  exact identified other dataset others chunks known resolved second among record member same

theorem chunkBytes_eq {address : Option Nat} {chunkDims : List Nat} {width decodedLen : Nat} {index : ChunkIndex}
    (layout : (file.datasets dataset).layout = .chunked address chunkDims width index)
    (decoded : Read.decodedChunkLen chunkDims (file.datasets dataset).elementSize
      (file.datasets dataset).path = .ok decodedLen) (record : ChunkRecord) :
    file.chunkBytes build dataset record = Read.plainChunk build file.ctx file.codecs file.image
      (file.datasets dataset) decodedLen file.own.io.isSome record := by
  simp only [chunkBytes, Read.decodedChunk, layout, decoded, Outcome.ok_bind]

end OpenFile

namespace Concurrent

open Thread

variable {build : Build} {file : OpenFile δ} [DecidableEq δ] {proviso : Prop}

section Ranges

variable (serves : file.source.Serves file.image)

include serves

/-- A read returns what it does alone, in every interleaving. -/
theorem read_gives (address len : Nat) :
    Dialogue.Gives Sharing.answer (agreement build file) proviso
      (Read.fetched file.ctx file.image file.own.io.isSome address len) (read file address len) := by
  unfold read Read.fetched
  cases paged : file.own.io with
  | none => exact Dialogue.Gives.lift proviso _
  | some self =>
    simp only [serves.size]
    exact readThrough_gives paged serves.readVec _ _

omit [DecidableEq δ] serves in
def batchRead (build : Build) (file : OpenFile δ) (ranges : List (Nat × Nat)) : Code (List Bytes) :=
  let resolved := ranges.map fun range => (file.ctx.resolve range.1, range.2)
  if file.own.io.isSome then resolved.mapM fun range => IoCache.outcome file.image range.1 range.2
  else file.ctx.readMerged build resolved

theorem readRanges_gives (ranges : List (Nat × Nat)) :
    Dialogue.Gives Sharing.answer (agreement build file) proviso (batchRead build file ranges)
      (readRanges build file ranges) := by
  unfold readRanges batchRead
  cases paged : file.own.io with
  | none => exact Dialogue.Gives.lift proviso _
  | some self =>
    simp only [serves.size]
    exact Dialogue.Gives.mapM (fun range => readThrough_gives paged serves.readVec _ _) _

omit serves [DecidableEq δ] in
/-- A batch succeeds when all of it lies in the file. -/
theorem batchRead_eq_ok (batches : file.source.ServesRanges file.image) {ranges : List (Nat × Nat)}
    (words : ∀ range ∈ ranges, 0 < range.2 ∧ range.2 < wordSize) {blobs : List Bytes} :
    batchRead build file ranges = .ok blobs ↔
      (∀ range ∈ ranges, file.image.Holds (file.ctx.resolve range.1) range.2) ∧
        blobs = ranges.map fun range => file.image.part (file.ctx.resolve range.1) range.2 := by
  unfold batchRead
  split
  · have all := @Outcome.mapM_eq_ok _ _ _ (fun range : Nat × Nat => IoCache.outcome file.image range.1 range.2)
      _ _ (fun range bytes => Read.outcome_eq_ok)
      (ranges.map fun range => (file.ctx.resolve range.1, range.2)) blobs
    simp only [List.forall_mem_map, List.map_map] at all
    refine all.trans (and_congr_left' (forall₂_congr fun range member => ?_))
    exact or_iff_right (Nat.pos_iff_ne_zero.mp (words range member).1)
  · have merged := @Read.readMerged_eq_ok build file.ctx file.image
      (ranges.map fun range => (file.ctx.resolve range.1, range.2)) blobs batches
      (List.forall_mem_map.mpr fun range member =>
        ⟨(words range member).1, wrappingAdd_lt _ _, (words range member).2⟩)
    simp only [List.forall_mem_map, List.map_map] at merged
    exact merged

end Ranges

section Calls

omit [DecidableEq δ] in
/-- A step on the cache of chunks that stores only what they decode to is one that the readers agree on. -/
theorem onChunkCache_kept {α : Type} {sharing : Sharing δ} (sound : sharing.Sound build file) (none_ : α)
    (step : Session ChunkCache Error α) (kept : ∀ cache : ChunkCache, cache.inner.Sound (file.Stored build) →
      (step cache).2.readahead = cache.readahead ∧ (step cache).2.inner.Sound (file.Stored build)) :
    (agreement build file).moves sharing (Sharing.onCaches (Read.onChunkCache none_ step) sharing).2 ∧
      (agreement build file).holds (Sharing.onCaches (Read.onChunkCache none_ step) sharing).2 ∧
      ((Sharing.onCaches (Read.onChunkCache none_ step) sharing).1 = .ok none_ ∨
        ∃ cache : ChunkCache, cache.inner.Sound (file.Stored build) ∧
          (Sharing.onCaches (Read.onChunkCache none_ step) sharing).1 = (step cache).1) := by
  cases here : sharing.caches.chunk with
  | none =>
    have done : Read.onChunkCache none_ step sharing.caches = (.ok none_, sharing.caches) := by
      simp [Read.onChunkCache, here]
    simp only [Sharing.onCaches, done]
    exact ⟨fun _ _ => id, sound, .inl trivial⟩
  | some cache =>
    obtain ⟨ahead, true_⟩ := kept cache (sound.chunks cache here)
    have alike := sound.alike.chunk
    simp only [Sharing.onCaches, Read.onChunkCache_some here]
    refine ⟨fun _ _ => id, ⟨⟨?_, sound.alike.io⟩, sound.pages, ?_, sound.indexes⟩, .inr ⟨cache, ?_, rfl⟩⟩
    · simpa [here, ahead] using alike
    · intro later same
      cases same
      exact true_
    · exact sound.chunks cache here

/-- Whether a chunk is held says nothing that a reader relies on. -/
theorem containsChunk_yields (address : Nat) :
    Dialogue.Yields Sharing.answer (agreement build file) (fun _ => True) (containsChunk address) := by
  refine fun seen => Dialogue.Safe.query (I := sharedCalls δ) fun sharing _ sound => ?_
  obtain ⟨moves, holds, got | ⟨cache, -, got⟩⟩ := onChunkCache_kept sound false (Session.run fun cache =>
    cache.contains address) fun cache true_ => ⟨rfl, true_.containsKey_snd address⟩
  · exact ⟨moves, holds, false, got, trivial⟩
  · exact ⟨moves, holds, _, got, trivial⟩

theorem chunk_yields (address : Nat) :
    Dialogue.Yields Sharing.answer (agreement build file)
      (fun found => ∀ bytes, found = some bytes → file.Stored build address bytes) (chunk address) := by
  refine fun seen => Dialogue.Safe.query (I := sharedCalls δ) fun sharing _ sound => ?_
  obtain ⟨moves, holds, got | ⟨cache, true_, got⟩⟩ := onChunkCache_kept sound none (Session.run fun cache =>
    cache.get address) fun cache true_ => ⟨rfl, true_.get_snd address⟩
  · exact ⟨moves, holds, none, got, by simp⟩
  · exact ⟨moves, holds, _, got, fun bytes found => true_.get_fst found⟩

/-- What every chunk at an address decodes to may be stored. -/
theorem insertChunk_gives {address : Nat} {bytes : Bytes} (stored : file.Stored build address bytes) :
    Dialogue.Gives Sharing.answer (agreement build file) proviso (.ok ()) (insertChunk address bytes) := by
  intro seen
  refine Dialogue.Safe.query (I := sharedCalls δ) fun sharing _ sound => ?_
  obtain ⟨moves, holds, got | ⟨cache, -, got⟩⟩ := onChunkCache_kept sound () (Session.modify fun cache =>
    cache.insert address bytes) fun cache true_ => ⟨rfl, true_.insert stored⟩
  · exact ⟨moves, holds, .inl got⟩
  · exact ⟨moves, holds, .inl got⟩

end Calls

section Chunked

variable {dataset : δ} {address : Option Nat} {chunkDims : List Nat} {width decodedLen : Nat}
  {index : ChunkIndex} {chunks : List ChunkRecord} {needed : List Nat}

/-- What is asked for is stored. -/
theorem uncached_yields (records : List ChunkRecord) :
    Dialogue.Yields Sharing.answer (agreement build file)
      (fun wanted => ∀ record ∈ wanted, record ∈ records ∧ record.size ≠ 0) (uncached records) := by
  induction records with
  | nil => exact Dialogue.Yields.pure nofun
  | cons record records ih =>
    have rest : Dialogue.Yields Sharing.answer (agreement build file)
        (fun wanted => ∀ other ∈ wanted, other ∈ record :: records ∧ other.size ≠ 0) (uncached records) :=
      fun seen => (ih seen).mono fun got _ yielded => yielded.imp fun wanted all =>
        all.imp_right fun stored other member => (stored other member).imp_left (List.mem_cons_of_mem record)
    unfold uncached
    split
    · exact rest
    · next nonempty =>
      refine (containsChunk_yields record.address).bind fun held _ => ?_
      split
      · exact rest
      · refine rest.bind fun others stored => Dialogue.Yields.pure ?_
        simp only [List.forall_mem_cons]
        exact ⟨⟨List.mem_cons_self, nonempty⟩, stored⟩

variable (serves : file.source.Serves file.image) (batches : file.source.ServesRanges file.image)
  (identified : file.Identified build)
  (layout : (file.datasets dataset).layout = .chunked address chunkDims width index)
  (decoded : Read.decodedChunkLen chunkDims (file.datasets dataset).elementSize
    (file.datasets dataset).path = .ok decodedLen)
  (resolved : file.resolved build dataset = .ok (some chunks))

include identified resolved

/-- What decodes of a batch is inserted, and the rest is passed over. -/
theorem insertDecoded_gives (pairs : List (ChunkRecord × Bytes)) :
    (∀ pair ∈ pairs, pair.1 ∈ chunks ∧ file.chunkBytes build dataset pair.1 =
      Filters.decodeChunk build file.codecs (file.datasets dataset).pipeline pair.1.filterMask pair.2 decodedLen) →
    (proviso → ∀ pair ∈ pairs, ¬ (file.chunkBytes build dataset pair.1).Panics) →
    Dialogue.Gives Sharing.answer (agreement build file) proviso (.ok ())
      (insertDecoded build file (file.datasets dataset) decodedLen pairs) := by
  induction pairs with
  | nil => exact fun _ _ => Dialogue.Gives.pure proviso ()
  | cons pair pairs ih =>
    obtain ⟨record, raw⟩ := pair
    intro known fine
    obtain ⟨⟨member, same⟩, others⟩ := List.forall_mem_cons.mp known
    have rest := ih others fun given pair among => fine given pair (List.mem_cons_of_mem _ among)
    simp only at member same
    simp only [insertDecoded, ← same]
    cases here : file.chunkBytes build dataset record with
    | ok bytes => exact (insertChunk_gives (OpenFile.stored_of_chunkBytes identified resolved member here)).bind_ok rest
    | error e => exact rest
    | panic p =>
      -- A chunk that panics takes the reader with it.
      refine fun seen => .inr ⟨fun given => ?_, nofun⟩
      apply fine given (record, raw) List.mem_cons_self
      simp [here]

section Prefetching

variable (sizes : ∀ record ∈ chunks, record.size < wordSize)

include serves batches layout decoded sizes

/-- Without a fault in it, a batch is fetched and inserted; with one it may fail. -/
theorem fetchBatch_gives {self : ChunkCache} (here : file.own.chunk = some self) {wanted : List ChunkRecord}
    (stored : ∀ record ∈ wanted, record ∈ chunks ∧ record.size ≠ 0) :
    Dialogue.Gives Sharing.answer (agreement build file) (file.Readable build dataset) (.ok ()) (do
      let blobs ← readRanges build file (wanted.map fun record => (record.address, record.size))
      insertDecoded build file (file.datasets dataset) decodedLen (wanted.zip blobs)) := by
  have words : ∀ range ∈ wanted.map fun record => (record.address, record.size),
      0 < range.2 ∧ range.2 < wordSize := List.forall_mem_map.mpr fun record member =>
    ⟨Nat.pos_of_ne_zero (stored record member).2, sizes record (stored record member).1⟩
  have batch := @batchRead_eq_ok δ build file batches _ words
  have reads := @readRanges_gives δ build file _ (file.Readable build dataset) serves
    (wanted.map fun record => (record.address, record.size))
  simp only [List.forall_mem_map, List.map_map] at batch
  cases fetched : batchRead build file (wanted.map fun record => (record.address, record.size)) with
  | ok blobs =>
    obtain ⟨held, rfl⟩ := batch.mp fetched
    rw [fetched] at reads
    refine reads.bind_ok ?_
    rw [← List.map_prod_left_eq_zip]
    apply insertDecoded_gives identified resolved
    · refine List.forall_mem_map.mpr fun record member => ⟨(stored record member).1, ?_⟩
      simp only [OpenFile.chunkBytes_eq layout decoded, Read.plainChunk_of_held serves (held record member)]
      rfl
    · exact fun readable => List.forall_mem_map.mpr fun record member =>
        readable.decodes self chunks here resolved record (stored record member).1 (stored record member).2
  | _ =>
    -- Some chunk of the batch does not lie in the file.
    refine Dialogue.Gives.fails (fun readable => ?_) reads (by simp [fetched])
    have all := batch.mpr ⟨fun record member =>
      readable.held self chunks here resolved record (stored record member).1 (stored record member).2, rfl⟩
    simp [fetched] at all

/-- Without a fault in what it may fetch ahead, a prefetch succeeds; with one it may fail. -/
theorem prefetchChunks_gives (inside : ∀ i ∈ needed, i < chunks.length) :
    Dialogue.Gives Sharing.answer (agreement build file) (file.Readable build dataset) (.ok ())
      (prefetchChunks build file (file.datasets dataset) chunks needed decodedLen) := by
  unfold prefetchChunks
  cases here : file.own.chunk with
  | none => exact Dialogue.Gives.pure _ ()
  | some self =>
    cases end_ : needed.getLast? with
    | none => exact Dialogue.Gives.pure _ ()
    | some last =>
      simp only
      cases word : (build.add (last + 1) self.readahead : Code Nat) with
      | ok stop =>
        simp only [Read.prefetchCandidates, word, Outcome.ok_bind]
        refine (Dialogue.Gives.lift _ _).bind_ok ((uncached_yields _).gives fun wanted stored => ?_)
        split
        · exact Dialogue.Gives.pure _ ()
        · apply fetchBatch_gives serves batches identified layout decoded resolved sizes here
          intro record member
          obtain ⟨i, -, found⟩ := List.mem_filterMap.mp (stored record member).1
          exact ⟨List.mem_of_getElem? found, (stored record member).2⟩
      | error e => exact absurd word (Build.word_ne_error _ _ _)
      | panic p =>
        obtain ⟨debug, large, -⟩ := Build.word_eq_panic.mp word
        refine Dialogue.Gives.fails (fun readable => ?_) (Dialogue.Gives.lift _ _)
          (by simp [Read.prefetchCandidates, word])
        have room := readable.reach self chunks here resolved debug
        have placed := inside last (List.mem_of_getLast? end_)
        omega

end Prefetching

section Copying

variable {chunkStrides dstStrides : List Nat} {slab : Hyperslab}

include serves layout decoded

/-- One chunk, out of the cache or decoded, is what it decodes to. -/
theorem fetchDecoded_gives {record : ChunkRecord} (member : record ∈ chunks) :
    Dialogue.Gives Sharing.answer (agreement build file) proviso (file.chunkBytes build dataset record)
      (fetchDecoded build file (file.datasets dataset) decodedLen record) := by
  have decodes : Dialogue.Gives Sharing.answer (agreement build file) proviso (file.chunkBytes build dataset record)
      (decodeStored build file (file.datasets dataset) decodedLen record) := by
    simp only [OpenFile.chunkBytes_eq layout decoded]
    exact (read_gives serves _ _).bind fun raw _ => Dialogue.Gives.lift proviso _
  unfold fetchDecoded
  cases file.own.chunk with
  | none => exact decodes
  | some self =>
    refine (chunk_yields record.address).gives fun found stored => ?_
    cases found with
    | some hit =>
      have same : file.chunkBytes build dataset record = .ok hit :=
        stored hit rfl dataset chunks resolved record member rfl
      simp only [same]
      exact Dialogue.Gives.pure proviso hit
    | none =>
      have kept (bytes : Bytes) (here : file.chunkBytes build dataset record = .ok bytes) :
          Dialogue.Gives Sharing.answer (agreement build file) proviso (.ok bytes) (do
            insertChunk record.address bytes
            pure bytes : Thread δ Bytes) :=
        (insertChunk_gives (OpenFile.stored_of_chunkBytes identified resolved member here)).bind_ok
          (Dialogue.Gives.pure proviso bytes)
      have whole := decodes.bind kept
      rwa [show file.chunkBytes build dataset record >>= Outcome.ok = _ from bind_pure _] at whole

theorem copyChunks_gives (records : List ChunkRecord) : (∀ record ∈ records, record ∈ chunks) → ∀ out : Bytes,
    Dialogue.Gives Sharing.answer (agreement build file) proviso
      (Read.copyPlain build (file.chunkBytes build dataset) (file.datasets dataset) decodedLen chunkDims chunkStrides
        dstStrides slab records out)
      (copyChunks build file (file.datasets dataset) decodedLen chunkDims chunkStrides dstStrides slab
        (file.datasets dataset).elementSize records out) := by
  induction records with
  | nil => exact fun _ out => Dialogue.Gives.pure proviso out
  | cons record records ih =>
    intro among out
    obtain ⟨member, others⟩ := List.forall_mem_cons.mp among
    unfold copyChunks Read.copyPlain
    cases Read.clip record.offset chunkDims slab.start slab.count with
    | none => exact ih others out
    | some part =>
      refine (fetchDecoded_gives serves identified layout decoded resolved member).bind fun bytes _ => ?_
      split
      · exact Dialogue.Gives.lift proviso _
      · exact (Dialogue.Gives.lift proviso _).bind fun writes _ =>
          (Dialogue.Gives.lift proviso _).bind fun out _ => ih others out

end Copying

omit decoded in
/-- A chunked read copies what the needed chunks decode to, or fails with the batch it fetches first. -/
theorem readChunked_gives (serves : file.source.Serves file.image) (batches : file.source.ServesRanges file.image)
    (layout : (file.datasets dataset).layout = .chunked address chunkDims width index)
    (sizes : ∀ record ∈ chunks, record.size < wordSize) (slab : Hyperslab) (out : Bytes) :
    Dialogue.Gives Sharing.answer (agreement build file) (file.Readable build dataset)
      (Read.plainChunked build (file.chunkBytes build dataset) (file.datasets dataset) chunks chunkDims out slab)
      (readChunked build file (file.datasets dataset) chunks chunkDims out slab
        (file.datasets dataset).elementSize) := by
  unfold readChunked Read.plainChunked
  dsimp only
  split
  · exact Dialogue.Gives.lift _ _
  · refine (Dialogue.Gives.lift _ _).bind fun dstStrides _ => ?_
    refine (Dialogue.Gives.lift _ _).bind fun decodedLen decoded => ?_
    refine (Dialogue.Gives.lift _ _).bind fun chunkStrides _ => ?_
    refine (Dialogue.Gives.lift _ _).bind fun needed touched => ?_
    have inside : ∀ i ∈ needed, i < chunks.length := fun i member =>
      List.mem_range.mp ((Read.neededChunks_sublist touched).subset member)
    refine (prefetchChunks_gives serves batches identified layout decoded resolved sizes inside).bind_ok ?_
    apply copyChunks_gives serves identified layout decoded resolved
    intro record member
    obtain ⟨i, -, found⟩ := List.mem_filterMap.mp member
    exact List.mem_of_getElem? found

end Chunked

end Concurrent

end Oxcdf
