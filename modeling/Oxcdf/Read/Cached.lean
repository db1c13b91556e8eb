import Oxcdf.Io.Merged
import Oxcdf.Read.Partition
import Oxcdf.Read.Reported

/-! A chunked read through a cache of decoded chunks.

A chunk comes out of the cache as it is decoded from the file, whatever the cache
holds and drops. What the cache adds to a read is the batch it fetches first, and
that fails as a whole, also where only a chunk beyond the selection is at fault.
-/

set_option autoImplicit false

namespace Oxcdf.Read

open Foundation Foundation.RowMajor Foundation.Buffer

variable {build : Build} {ctx : Ctx} {codecs : Codecs} {file : FileImage} {dataset : DatasetIndex}
  {chunks : List ChunkRecord} {decodedLen : Nat} {paged : Bool}

section Fetching

/-- What a read of some bytes returns, through a page cache or without one. -/
def fetched (ctx : Ctx) (file : FileImage) (paged : Bool) (address len : Nat) : Code Bytes :=
  if paged then IoCache.outcome file (ctx.resolve address) len
  else ctx.source.readVec (ctx.resolve address) len

def plainChunk (build : Build) (ctx : Ctx) (codecs : Codecs) (file : FileImage) (dataset : DatasetIndex)
    (decodedLen : Nat) (paged : Bool) (record : ChunkRecord) : Code Bytes := do
  let raw ← fetched ctx file paged record.address record.size
  Filters.decodeChunk build codecs dataset.pipeline record.filterMask raw decodedLen

/-- The addresses of the chunks tell them apart. -/
def Distinct (chunks : List ChunkRecord) : Prop := (chunks.map ChunkRecord.address).Nodup

theorem Distinct.eq (distinct : Distinct chunks) {first second : ChunkRecord} (one : first ∈ chunks)
    (other : second ∈ chunks) (same : first.address = second.address) : first = second :=
  List.inj_on_of_nodup_map distinct one other same

/-- What the caches hold is the file's: its pages, and its chunks as they are decoded, by their addresses. -/
structure CachesSound (file : FileImage) (paged : Bool) (plain : ChunkRecord → Code Bytes)
    (chunks : List ChunkRecord) (caches : Caches) : Prop where
  paged : caches.io.isSome = paged
  pages : PagesSound file caches
  apart : caches.chunk.isSome → Distinct chunks
  decoded : ∀ cache, caches.chunk = some cache → cache.inner.Sound fun address bytes =>
    ∀ record ∈ chunks, record.address = address → plain record = .ok bytes

variable {plain : ChunkRecord → Code Bytes}

theorem CachesSound.distinct {caches : Caches} (sound : CachesSound file paged plain chunks caches)
    {cache : ChunkCache} (held : caches.chunk = some cache) : Distinct chunks :=
  sound.apart (held ▸ rfl)

theorem fetched_of_held (serves : ctx.source.Serves file) {address len : Nat}
    (held : file.Holds (ctx.resolve address) len) :
    fetched ctx file paged address len = .ok (file.part (ctx.resolve address) len) := by
  unfold fetched
  split
  · exact IoCache.outcome_of_held (.inr held)
  · exact serves.readVec _ _ held

theorem held_of_fetched (serves : ctx.source.Serves file) {address len : Nat} (positive : 0 < len)
    (small : len ≤ isizeMax) {bytes : Bytes} (read : fetched ctx file paged address len = .ok bytes) :
    file.Holds (ctx.resolve address) len := by
  by_contra beyond
  unfold fetched at read
  split at read
  · rw [IoCache.outcome_of_beyond positive beyond] at read
    cases read
  · obtain ⟨e, failed⟩ := serves.readVec_beyond _ _ small beyond
    rw [failed] at read
    cases read

theorem read_returns (serves : ctx.source.Serves file) (address len : Nat) :
    (ctx.read address len).Returns (CachesSound file paged plain chunks)
      (fetched ctx file paged address len) := by
  rintro caches ⟨rfl, pages, apart, decoded⟩
  unfold Ctx.read Caches.throughIo fetched
  cases cached : caches.io with
  | none => exact ⟨rfl, by rw [cached], pages, apart, decoded⟩
  | some cache =>
    obtain ⟨returned, kept, -⟩ := IoCache.read_eq serves (pages cache cached) (ctx.resolve address) len
    refine ⟨returned, rfl, ?_, apart, decoded⟩
    intro later same
    cases same
    exact kept

theorem decodeStored_returns (serves : ctx.source.Serves file) (record : ChunkRecord) :
    (decodeStored build ctx codecs dataset decodedLen record).Returns (CachesSound file paged plain chunks)
      (plainChunk build ctx codecs file dataset decodedLen paged record) :=
  (read_returns serves record.address record.size).bind fun _ _ => Session.Returns.lift _

/-- A lookup misses, or finds the chunk as it is decoded. -/
theorem lookup_spec {record : ChunkRecord} (member : record ∈ chunks) {caches : Caches}
    (sound : CachesSound file paged plain chunks caches) :
    ∃ hit after, onChunkCache none (Session.run fun cache =>
        let (found, inner) := cache.inner.get record.address
        (found, { cache with inner })) caches = (.ok hit, after) ∧
      CachesSound file paged plain chunks after ∧ ∀ bytes, hit = some bytes → plain record = .ok bytes := by
  unfold onChunkCache
  cases held : caches.chunk with
  | none => exact ⟨none, caches, rfl, sound, nofun⟩
  | some cache =>
    refine ⟨_, _, rfl, ⟨sound.paged, sound.pages, fun _ => sound.distinct held, fun later same => ?_⟩,
      fun bytes found => ?_⟩
    · cases same
      exact (sound.decoded cache held).get_snd record.address
    · exact (sound.decoded cache held).get_fst found record member rfl

theorem insert_returns {record : ChunkRecord} (member : record ∈ chunks)
    {bytes : Bytes} (decoded : plain record = .ok bytes) :
    (onChunkCache () (Session.modify fun cache =>
        { cache with inner := cache.inner.insert record.address bytes })).Returns
      (CachesSound file paged plain chunks) (.ok ()) := by
  intro caches sound
  unfold onChunkCache
  cases held : caches.chunk with
  | none => exact ⟨rfl, sound⟩
  | some cache =>
    refine ⟨rfl, sound.paged, sound.pages, fun _ => sound.distinct held, fun later same => ?_⟩
    cases same
    refine (sound.decoded cache held).insert fun other among same => ?_
    rw [(sound.distinct held).eq among member same, decoded]

/-- A chunk comes through the cache as it is decoded. -/
theorem fetchDecoded_returns (serves : ctx.source.Serves file) {record : ChunkRecord}
    (member : record ∈ chunks) :
    (fetchDecoded build ctx codecs dataset decodedLen record).Returns
      (CachesSound file paged (plainChunk build ctx codecs file dataset decodedLen paged) chunks)
      (plainChunk build ctx codecs file dataset decodedLen paged record) := by
  intro caches sound
  obtain ⟨hit, after, looked, kept, true_⟩ := lookup_spec member sound
  unfold fetchDecoded
  rw [Session.bind_ok looked]
  cases hit with
  | some bytes => exact ⟨(true_ bytes rfl).symm, kept⟩
  | none =>
    have missed := (@decodeStored_returns build ctx codecs file dataset chunks decodedLen paged _
      serves record).bind fun bytes decoded => (insert_returns member decoded).bind
        fun _ _ => Session.Returns.lift (.ok bytes)
    obtain ⟨returned, later⟩ := missed after kept
    exact ⟨returned.trans (bind_pure _), later⟩

end Fetching

section Ranges

variable {plain : ChunkRecord → Code Bytes} {ranges : List (Nat × Nat)} {blobs : List Bytes}

theorem outcome_eq_ok {offset len : Nat} {bytes : Bytes} :
    IoCache.outcome file offset len = .ok bytes ↔
      (len = 0 ∨ file.Holds offset len) ∧ bytes = file.part offset len := by
  constructor
  · intro read
    have held : len = 0 ∨ file.Holds offset len := by
      by_contra beyond
      rw [not_or] at beyond
      rw [IoCache.outcome_of_beyond (Nat.pos_of_ne_zero beyond.1) beyond.2] at read
      cases read
    rw [IoCache.outcome_of_held held] at read
    exact ⟨held, (Outcome.ok.inj read).symm⟩
  · rintro ⟨held, rfl⟩
    exact IoCache.outcome_of_held held

/-- A merged read of some ranges succeeds when all of them lie in the file. -/
theorem readMerged_eq_ok (batches : ctx.source.ServesRanges file)
    (words : ∀ range ∈ ranges, 0 < range.2 ∧ range.1 < wordSize ∧ range.2 < wordSize) :
    ctx.readMerged build ranges = .ok blobs ↔
      (∀ range ∈ ranges, file.Holds range.1 range.2) ∧ blobs = ranges.map fun range =>
      file.part range.1 range.2 :=
  Io.merged_eq_ok batches (fun range member => (words range member).2)
    (.inl fun range member => (words range member).1)

/-- A batch of reads, through a page cache or without one, succeeds when all of it lies in the file. -/
theorem readRanges_spec (serves : ctx.source.Serves file) (batches : ctx.source.ServesRanges file)
    (words : ∀ range ∈ ranges, 0 < range.2 ∧ range.2 < wordSize) {caches : Caches}
    (sound : CachesSound file paged plain chunks caches) :
    CachesSound file paged plain chunks (ctx.readRanges build ranges caches).2 ∧
      ∀ blobs, (ctx.readRanges build ranges caches).1 = .ok blobs ↔
        (∀ range ∈ ranges, file.Holds (ctx.resolve range.1) range.2) ∧
          blobs = ranges.map fun range => file.part (ctx.resolve range.1) range.2 := by
  obtain ⟨rfl, pages, apart, decoded⟩ := sound
  unfold Ctx.readRanges Caches.throughIo
  cases cached : caches.io with
  | none =>
    refine ⟨⟨by rw [cached], pages, apart, decoded⟩, fun blobs => ?_⟩
    have merged := @readMerged_eq_ok build ctx file
      (ranges.map fun range => (ctx.resolve range.1, range.2)) blobs
      batches (List.forall_mem_map.mpr fun range member =>
        ⟨(words range member).1, wrappingAdd_lt _ _, (words range member).2⟩)
    rw [List.forall_mem_map, List.map_map] at merged
    exact merged
  | some cache =>
    have each (range : Nat × Nat) : (IoCache.read ctx.source range.1 range.2).Returns (IoCache.Sound file)
        (IoCache.outcome file range.1 range.2) := by
      intro cache sound
      obtain ⟨returned, kept, -⟩ := IoCache.read_eq serves sound range.1 range.2
      exact ⟨returned, kept⟩
    obtain ⟨returned, kept⟩ := Session.Returns.mapM each
      (ranges.map fun range => (ctx.resolve range.1, range.2)) cache (pages cache cached)
    refine ⟨⟨rfl, ?_, apart, decoded⟩, fun blobs => ?_⟩
    · intro later same
      cases same
      exact kept
    · have all := @Outcome.mapM_eq_ok _ _ _ (fun range : Nat × Nat => IoCache.outcome file range.1 range.2) _ _
        (fun range bytes => outcome_eq_ok) (ranges.map fun range => (ctx.resolve range.1, range.2)) blobs
      rw [List.forall_mem_map, List.map_map] at all
      refine (Eq.congr_left returned).trans (all.trans (and_congr_left' ?_))
      refine forall₂_congr fun range member => ?_
      exact or_iff_right (Nat.pos_iff_ne_zero.mp (words range member).1)

end Ranges

section Batch

variable {plain : ChunkRecord → Code Bytes} {allowed : Nat → Bytes → Prop}

/-- What is asked for of some chunks is stored, and the entries that are held stay true. -/
theorem uncached_spec (records : List ChunkRecord) : ∀ (cache : ChunkCache),
    ∃ wanted after, uncached records cache = (.ok wanted, after) ∧
      (∀ record ∈ wanted, record ∈ records ∧ record.size ≠ 0) ∧
      (cache.inner.Sound allowed → after.inner.Sound allowed) := by
  induction records with
  | nil => exact fun cache => ⟨[], cache, rfl, nofun, id⟩
  | cons record records ih =>
    intro cache
    by_cases empty : record.size = 0
    · obtain ⟨wanted, after, asked, stored, kept⟩ := ih cache
      refine ⟨wanted, after, ?_, fun other member => ?_, kept⟩
      · simp only [uncached, if_pos empty]
        exact asked
      · exact ⟨List.mem_cons_of_mem record (stored other member).1, (stored other member).2⟩
    · obtain ⟨wanted, after, asked, stored, kept⟩ :=
        ih { cache with inner := (cache.inner.containsKey record.address).2 }
      have kept' : cache.inner.Sound allowed → after.inner.Sound allowed :=
        fun sound => kept (sound.containsKey_snd record.address)
      cases held : (cache.inner.containsKey record.address).1 with
      | true =>
        refine ⟨wanted, after, ?_, fun other member => ?_, kept'⟩
        · simp only [uncached, if_neg empty, held, if_true]
          exact asked
        · exact ⟨List.mem_cons_of_mem record (stored other member).1, (stored other member).2⟩
      | false =>
        refine ⟨record :: wanted, after, ?_, fun other member => ?_, kept'⟩
        · simp only [uncached, if_neg empty, held, Bool.false_eq_true, if_false]
          exact Session.bind_ok asked
        · rcases List.mem_cons.mp member with rfl | member
          · exact ⟨List.mem_cons_self, empty⟩
          · exact ⟨List.mem_cons_of_mem record (stored other member).1, (stored other member).2⟩

/-- A batch is inserted unless a chunk of it panics, and what is inserted is as it is decoded. -/
theorem insertDecoded_spec (distinct : Distinct chunks) : ∀ (pairs : List (ChunkRecord × Bytes))
    {cache : ChunkCache},
    (∀ pair ∈ pairs, pair.1 ∈ chunks ∧
      plain pair.1 = Filters.decodeChunk build codecs dataset.pipeline pair.1.filterMask pair.2 decodedLen) →
    (cache.inner.Sound fun address bytes => ∀ record ∈ chunks, record.address = address →
      plain record = .ok bytes) →
      ((insertDecoded build codecs dataset.pipeline decodedLen pairs cache).2.inner.Sound fun address bytes =>
        ∀ record ∈ chunks, record.address = address → plain record = .ok bytes) ∧
      ((insertDecoded build codecs dataset.pipeline decodedLen pairs cache).1 = .ok () ↔
        ∀ pair ∈ pairs, ¬ (plain pair.1).Panics) := by
  intro pairs
  induction pairs with
  | nil =>
    intro cache _ sound
    exact ⟨sound, fun _ => nofun, fun _ => rfl⟩
  | cons pair pairs ih =>
    obtain ⟨record, raw⟩ := pair
    intro cache known sound
    obtain ⟨⟨member, same⟩, others⟩ := List.forall_mem_cons.mp known
    change plain record = Filters.decodeChunk build codecs dataset.pipeline record.filterMask raw
      decodedLen at same
    rw [insertDecoded, ← same, List.forall_mem_cons]
    cases decoded : plain record with
    | ok bytes =>
      have grown : (cache.inner.insert record.address bytes).Sound fun address bytes =>
          ∀ record ∈ chunks, record.address = address → plain record = .ok bytes := by
        refine sound.insert fun other among equal => ?_
        rw [distinct.eq among member equal, decoded]
      obtain ⟨kept, fine⟩ := @ih { cache with inner := cache.inner.insert record.address bytes } others grown
      refine ⟨kept, fine.trans ?_⟩
      exact (and_iff_right (Outcome.not_panics_ok bytes)).symm
    | error e =>
      obtain ⟨kept, fine⟩ := @ih cache others sound
      refine ⟨kept, fine.trans ?_⟩
      exact (and_iff_right (Outcome.not_panics_error e)).symm
    | panic p =>
      refine ⟨sound, ?_⟩
      constructor
      · nofun
      · rintro ⟨fine, -⟩
        exact absurd (Outcome.panics_panic p) fine

/-- The chunks that a batch asks the source for: the needed ones and those read ahead, where they are
stored and the cache does not hold them when it is asked. -/
def batch (build : Build) (chunks : List ChunkRecord) (cache : ChunkCache) (needed : List Nat) (last : Nat) :
    List ChunkRecord :=
  match prefetchCandidates build chunks.length cache.readahead last needed with
  | .ok candidates =>
    match (uncached (candidates.filterMap fun i => chunks[i]?) cache).1 with
    | .ok records => records
    | _ => []
  | _ => []

theorem mem_batch {cache : ChunkCache} {needed : List Nat} {last : Nat} {record : ChunkRecord}
    (member : record ∈ batch build chunks cache needed last) : record ∈ chunks ∧ record.size ≠ 0 := by
  unfold batch at member
  cases planned : prefetchCandidates build chunks.length cache.readahead last needed with
  | ok candidates =>
    obtain ⟨wanted, after, asked, stored, -⟩ :=
      @uncached_spec (fun _ _ => True) (candidates.filterMap fun i => chunks[i]?) cache
    simp only [planned, asked] at member
    obtain ⟨i, -, found⟩ := List.mem_filterMap.mp (stored record member).1
    exact ⟨List.mem_of_getElem? found, (stored record member).2⟩
  | error e =>
    rw [planned] at member
    cases member
  | panic p =>
    rw [planned] at member
    cases member

/-- The end of the read-ahead is a word in builds that check it, and every chunk of the batch lies in the
file and does not panic when it is decoded. -/
structure BatchFine (build : Build) (ctx : Ctx) (file : FileImage) (plain : ChunkRecord → Code Bytes)
    (chunks : List ChunkRecord) (cache : ChunkCache) (needed : List Nat) (last : Nat) : Prop where
  reach : build = .debug → last + 1 + cache.readahead < wordSize
  held : ∀ record ∈ batch build chunks cache needed last, file.Holds (ctx.resolve record.address) record.size
  decodes : ∀ record ∈ batch build chunks cache needed last, ¬ (plain record).Panics

theorem onChunkCache_some {α : Type} {caches : Caches} {cache : ChunkCache} (here : caches.chunk = some cache)
    (none_ : α) (step : Session ChunkCache Error α) :
    onChunkCache none_ step caches = ((step cache).1, { caches with chunk := some (step cache).2 }) := by
  unfold onChunkCache
  rw [here]

theorem throughIo_chunk {α : Type} (step : Session IoCache Error α) (direct : Code α) (caches : Caches) :
    (Caches.throughIo step direct caches).2.chunk = caches.chunk := by
  unfold Caches.throughIo
  split <;> rfl

theorem plainChunk_of_held (serves : ctx.source.Serves file) {record : ChunkRecord}
    (held : file.Holds (ctx.resolve record.address) record.size) :
    plainChunk build ctx codecs file dataset decodedLen paged record =
      Filters.decodeChunk build codecs dataset.pipeline record.filterMask
        (file.part (ctx.resolve record.address) record.size) decodedLen := by
  rw [plainChunk, fetched_of_held serves held, Outcome.ok_bind]

variable (serves : ctx.source.Serves file) (batches : ctx.source.ServesRanges file)
  (sizes : ∀ record ∈ chunks, record.size < 2 ^ 32)

include serves batches sizes

/-- A batch of wanted chunks is fetched and inserted when it lies in the file and none of it panics. -/
theorem fetchBatch_spec {wanted : List ChunkRecord}
    (stored : ∀ record ∈ wanted, record ∈ chunks ∧ record.size ≠ 0)
    {caches : Caches} {cache : ChunkCache} (here : caches.chunk = some cache)
    (sound : CachesSound file paged (plainChunk build ctx codecs file dataset decodedLen paged) chunks caches) :
    let step : Session Caches Error Unit := (do
      let blobs ← ctx.readRanges build (wanted.map fun record => (record.address, record.size))
      onChunkCache () (insertDecoded build codecs dataset.pipeline decodedLen (wanted.zip blobs)))
    CachesSound file paged (plainChunk build ctx codecs file dataset decodedLen paged) chunks (step caches).2 ∧
      ((step caches).1 = .ok () ↔
        (∀ record ∈ wanted, file.Holds (ctx.resolve record.address) record.size) ∧
          ∀ record ∈ wanted, ¬ (plainChunk build ctx codecs file dataset decodedLen paged record).Panics) := by
  intro step
  have words : ∀ range ∈ wanted.map fun record => (record.address, record.size),
      0 < range.2 ∧ range.2 < wordSize := by
    rw [List.forall_mem_map]
    intro record member
    obtain ⟨among, nonzero⟩ := stored record member
    exact ⟨Nat.pos_of_ne_zero nonzero, (sizes record among).trans (by decide)⟩
  obtain ⟨kept, answered⟩ := @readRanges_spec build ctx file chunks paged _ _ serves batches words caches sound
  have chunk : (ctx.readRanges build (wanted.map fun record => (record.address, record.size)) caches).2.chunk =
      some cache := (throughIo_chunk _ _ _).trans here
  simp only [List.forall_mem_map, List.map_map] at answered
  rcases read : ctx.readRanges build (wanted.map fun record => (record.address, record.size)) caches with
    ⟨blobs | e | p, after⟩
  · rw [read] at kept answered chunk
    obtain ⟨held, rfl⟩ := (answered blobs).mp rfl
    have inserted : step caches = onChunkCache () (insertDecoded build codecs dataset.pipeline decodedLen
        (wanted.zip (wanted.map fun record => file.part (ctx.resolve record.address) record.size))) after :=
      Session.bind_ok read
    rw [← List.map_prod_left_eq_zip] at inserted
    obtain ⟨grown, fine⟩ := @insertDecoded_spec build codecs dataset chunks decodedLen _ (kept.distinct chunk)
      (wanted.map fun record => (record, file.part (ctx.resolve record.address) record.size)) cache
      (List.forall_mem_map.mpr fun record member =>
        ⟨(stored record member).1, plainChunk_of_held serves (held record member)⟩)
      (kept.decoded cache chunk)
    rw [onChunkCache_some chunk] at inserted
    rw [inserted]
    refine ⟨⟨kept.paged, kept.pages, fun _ => kept.distinct chunk, fun later same => ?_⟩, ?_⟩
    · cases same
      exact grown
    · rw [List.forall_mem_map] at fine
      exact fine.trans (and_iff_right held).symm
  · rw [show step caches = (.error e, after) from Session.bind_error read]
    rw [read] at kept answered
    refine ⟨kept, nofun, fun fine => ?_⟩
    cases (answered _).mpr ⟨fine.1, rfl⟩
  · rw [show step caches = (.panic p, after) from Session.bind_panic read]
    rw [read] at kept answered
    refine ⟨kept, nofun, fun fine => ?_⟩
    cases (answered _).mpr ⟨fine.1, rfl⟩

/-- The prefetch of a read succeeds when its batch is fine. -/
theorem prefetchChunks_spec {caches : Caches} {cache : ChunkCache} (here : caches.chunk = some cache)
    (sound : CachesSound file paged (plainChunk build ctx codecs file dataset decodedLen paged) chunks caches)
    {needed : List Nat} {last : Nat} (end_ : needed.getLast? = some last) :
    CachesSound file paged (plainChunk build ctx codecs file dataset decodedLen paged) chunks
        (prefetchChunks build ctx codecs dataset chunks needed decodedLen caches).2 ∧
      ((prefetchChunks build ctx codecs dataset chunks needed decodedLen caches).1 = .ok () ↔
        BatchFine build ctx file (plainChunk build ctx codecs file dataset decodedLen paged) chunks cache needed
          last) := by
  unfold prefetchChunks
  simp only [here, end_]
  -- Before the batch, only the end of the readahead can overflow.
  rcases word : (build.add (last + 1) cache.readahead : Code Nat) with stop | e | p
  · have reach : build = .debug → last + 1 + cache.readahead < wordSize := by
      rintro rfl
      by_contra large
      rw [Build.add, Build.word_debug_of_le (Nat.not_lt.mp large)] at word
      cases word
    obtain ⟨candidates, planned⟩ : ∃ candidates,
        prefetchCandidates build chunks.length cache.readahead last needed = .ok candidates := by
      rw [prefetchCandidates, word]
      exact ⟨_, rfl⟩
    obtain ⟨wanted, after, asked, -, entries⟩ := @uncached_spec (fun address bytes => ∀ record ∈ chunks,
      record.address = address → plainChunk build ctx codecs file dataset decodedLen paged record = .ok bytes)
      (candidates.filterMap fun i => chunks[i]?) cache
    have same : batch build chunks cache needed last = wanted := by
      simp only [batch, planned, asked]
    have among : ∀ record ∈ wanted, record ∈ chunks ∧ record.size ≠ 0 := by
      rw [← same]
      exact fun record member => mem_batch member
    have step : onChunkCache [] (uncached (candidates.filterMap fun i => chunks[i]?)) caches =
        (.ok wanted, { caches with chunk := some after }) := by
      simp only [onChunkCache_some here, asked]
    have kept : CachesSound file paged (plainChunk build ctx codecs file dataset decodedLen paged) chunks
        { caches with chunk := some after } := by
      refine ⟨sound.paged, sound.pages, fun _ => sound.distinct here, fun later same => ?_⟩
      cases same
      exact entries (sound.decoded cache here)
    rw [planned, Session.bind_lift_ok, Session.bind_ok step]
    by_cases none : wanted = []
    · rw [if_pos none]
      refine ⟨kept, fun _ => ⟨reach, ?_, ?_⟩, fun _ => rfl⟩
      · rw [same, none]
        exact fun _ member => absurd member List.not_mem_nil
      · rw [same, none]
        exact fun _ member => absurd member List.not_mem_nil
    · rw [if_neg none]
      obtain ⟨grown, fine⟩ := fetchBatch_spec serves batches sizes among rfl kept
      refine ⟨grown, fine.trans ⟨fun all => ⟨reach, same ▸ all.1, same ▸ all.2⟩, fun all => ?_⟩⟩
      exact ⟨same ▸ all.held, same ▸ all.decodes⟩
  · exact absurd word (Build.word_ne_error _ _ _)
  · have planned : prefetchCandidates build chunks.length cache.readahead last needed = .panic p := by
      rw [prefetchCandidates, word]
      rfl
    rw [planned]
    refine ⟨sound, fun done => ?_, fun fine => ?_⟩
    · cases done
    · obtain ⟨rfl, large, -⟩ := Build.word_eq_panic.mp word
      exact absurd (fine.reach rfl) (Nat.not_lt.mpr large)

end Batch

section Copying

variable {plain : ChunkRecord → Code Bytes} {chunkShape chunkStrides dstStrides : List Nat} {slab : Hyperslab}

/-- What the needed chunks leave in an output, each of them as it is decoded without a cache. -/
def copyPlain (build : Build) (plain : ChunkRecord → Code Bytes) (dataset : DatasetIndex) (decodedLen : Nat)
    (chunkShape chunkStrides dstStrides : List Nat) (slab : Hyperslab) : List ChunkRecord → Bytes → Code Bytes
  | [], out => .ok out
  | record :: records, out =>
    match clip record.offset chunkShape slab.start slab.count with
    | none => copyPlain build plain dataset decodedLen chunkShape chunkStrides dstStrides slab records out
    | some part => do
      let decoded ← plain record
      if decoded.length < decodedLen then .error (shortChunk dataset record decoded.length decodedLen)
      else
        let writes ← chunkWrites build decoded record.offset part chunkStrides dstStrides slab
          dataset.elementSize
        let out ← storeEach writes out
        copyPlain build plain dataset decodedLen chunkShape chunkStrides dstStrides slab records out

theorem copyChunks_returns (serves : ctx.source.Serves file) (records : List ChunkRecord) :
    (∀ record ∈ records, record ∈ chunks) → ∀ out : Bytes,
    (copyChunks build ctx codecs dataset decodedLen chunkShape chunkStrides dstStrides slab dataset.elementSize
        records out).Returns
      (CachesSound file paged (plainChunk build ctx codecs file dataset decodedLen paged) chunks)
      (copyPlain build (plainChunk build ctx codecs file dataset decodedLen paged) dataset decodedLen chunkShape
        chunkStrides dstStrides slab records out) := by
  induction records with
  | nil => exact fun _ out => Session.Returns.lift (.ok out)
  | cons record records ih =>
    intro among out
    obtain ⟨member, others⟩ := List.forall_mem_cons.mp among
    cases overlap : clip record.offset chunkShape slab.start slab.count with
    | none =>
      rw [copyChunks_none build overlap]
      simp only [copyPlain, overlap]
      exact ih others out
    | some part =>
      rw [copyChunks_some build overlap]
      simp only [copyPlain, overlap]
      refine (fetchDecoded_returns serves member).bind fun decoded _ => ?_
      split
      · exact Session.Returns.lift _
      · exact (Session.Returns.lift _).bind fun writes _ =>
          (Session.Returns.lift _).bind fun out _ => ih others out

/-- What the prefetch of a read asks for, if it asks for anything, is fine. -/
def PrefetchFine (build : Build) (ctx : Ctx) (file : FileImage) (plain : ChunkRecord → Code Bytes)
    (chunks : List ChunkRecord) (needed : List Nat) (caches : Caches) : Prop :=
  ∀ cache last, caches.chunk = some cache → needed.getLast? = some last →
    BatchFine build ctx file plain chunks cache needed last

variable (serves : ctx.source.Serves file) (batches : ctx.source.ServesRanges file)
  (sizes : ∀ record ∈ chunks, record.size < 2 ^ 32)

include serves batches sizes

theorem prefetchChunks_ok_iff {caches : Caches}
    (sound : CachesSound file paged (plainChunk build ctx codecs file dataset decodedLen paged) chunks caches)
    (needed : List Nat) :
    CachesSound file paged (plainChunk build ctx codecs file dataset decodedLen paged) chunks
        (prefetchChunks build ctx codecs dataset chunks needed decodedLen caches).2 ∧
      ((prefetchChunks build ctx codecs dataset chunks needed decodedLen caches).1 = .ok () ↔
        PrefetchFine build ctx file (plainChunk build ctx codecs file dataset decodedLen paged) chunks needed
          caches) := by
  cases here : caches.chunk with
  | none =>
    simp only [prefetchChunks, here]
    exact ⟨sound, fun _ cache last held => absurd (here.symm.trans held) nofun, fun _ => trivial⟩
  | some cache =>
    cases end_ : needed.getLast? with
    | none =>
      simp only [prefetchChunks, here, end_]
      exact ⟨sound, fun _ cache last _ held => absurd (end_.symm.trans held) nofun, fun _ => trivial⟩
    | some last =>
      obtain ⟨kept, fine⟩ := prefetchChunks_spec serves batches sizes here sound end_
      refine ⟨kept, fine.trans ⟨fun batch other place held found => ?_, fun all => all cache last here end_⟩⟩
      cases here.symm.trans held
      cases end_.symm.trans found
      exact batch

theorem prefetch_then_copy {caches : Caches}
    (sound : CachesSound file paged (plainChunk build ctx codecs file dataset decodedLen paged) chunks caches)
    (needed : List Nat) (out : Bytes) :
    let step : Session Caches Error Bytes := (do
      prefetchChunks build ctx codecs dataset chunks needed decodedLen
      copyChunks build ctx codecs dataset decodedLen chunkShape chunkStrides dstStrides slab dataset.elementSize
        (needed.filterMap fun i => chunks[i]?) out)
    CachesSound file paged (plainChunk build ctx codecs file dataset decodedLen paged) chunks (step caches).2 ∧
      ∀ last, (∃ after, step caches = (.ok last, after)) ↔
        PrefetchFine build ctx file (plainChunk build ctx codecs file dataset decodedLen paged) chunks
          needed caches ∧
          copyPlain build (plainChunk build ctx codecs file dataset decodedLen paged) dataset
            decodedLen chunkShape
            chunkStrides dstStrides slab (needed.filterMap fun i => chunks[i]?) out = .ok last := by
  intro step
  obtain ⟨kept, fine⟩ := @prefetchChunks_ok_iff build ctx codecs file dataset chunks decodedLen
    paged serves batches sizes caches sound needed
  have copied := @copyChunks_returns build ctx codecs file dataset chunks decodedLen paged
    chunkShape chunkStrides dstStrides slab serves (needed.filterMap fun i => chunks[i]?)
    (fun record member =>
      let ⟨_, _, found⟩ := List.mem_filterMap.mp member
      List.mem_of_getElem? found) out
  rcases fetched : prefetchChunks build ctx codecs dataset chunks needed decodedLen caches with
    ⟨⟨⟩ | e | p, after⟩
  · rw [fetched] at kept fine
    rw [show step caches = _ from Session.bind_ok fetched]
    exact ⟨(copied after kept).2, fun last => (copied.ok_iff kept).trans (and_iff_right (fine.mp rfl)).symm⟩
  · rw [fetched] at kept fine
    rw [show step caches = (.error e, after) from Session.bind_error fetched]
    refine ⟨kept, fun last => ⟨nofun, fun all => ?_⟩⟩
    cases fine.mpr all.1
  · rw [fetched] at kept fine
    rw [show step caches = (.panic p, after) from Session.bind_panic fetched]
    refine ⟨kept, fun last => ⟨nofun, fun all => ?_⟩⟩
    cases fine.mpr all.1

end Copying

section Whole

variable {address : Option Nat} {chunkDims : List Nat} {width : Nat} {index : ChunkIndex} {slab : Hyperslab}
  {caches : Caches}

/-- What the caches hold is the file's, for chunks of the dataset's chunk shape. -/
def DatasetSound (build : Build) (ctx : Ctx) (codecs : Codecs) (file : FileImage) (dataset : DatasetIndex)
    (chunks : List ChunkRecord) (chunkDims : List Nat) (paged : Bool) (caches : Caches) : Prop :=
  ∀ decodedLen, decodedChunkLen chunkDims dataset.elementSize dataset.path = .ok decodedLen →
    CachesSound file paged (plainChunk build ctx codecs file dataset decodedLen paged) chunks caches

/-- What a chunked read works out before it fetches anything. -/
structure Planned (build : Build) (dataset : DatasetIndex) (chunks : List ChunkRecord) (chunkDims : List Nat)
    (slab : Hyperslab) (decodedLen : Nat) (dstStrides chunkStrides needed : List Nat) : Prop where
  rank : chunkDims.length = dataset.shape.length
  places : strides build slab.count = .ok dstStrides
  decoded : decodedChunkLen chunkDims dataset.elementSize dataset.path = .ok decodedLen
  weights : strides build chunkDims = .ok chunkStrides
  needed : neededChunks chunks chunkDims slab dataset.shape.length = .ok needed

def ReadsAlone (build : Build) (ctx : Ctx) (codecs : Codecs) (file : FileImage) (dataset : DatasetIndex)
    (chunks : List ChunkRecord) (chunkDims : List Nat) (paged : Bool) (slab : Hyperslab)
    (raw : RawData) : Prop :=
  dataset.datatype.isDecodable = true ∧
  ∃ total last decodedLen dstStrides chunkStrides needed,
    checkedMul slab.elementCount dataset.elementSize = some total ∧ total ≤ isizeMax ∧
    Planned build dataset chunks chunkDims slab decodedLen dstStrides chunkStrides needed ∧
    copyPlain build (plainChunk build ctx codecs file dataset decodedLen paged) dataset decodedLen chunkDims
        chunkStrides dstStrides slab (needed.filterMap fun i => chunks[i]?)
        (startBuffer dataset (some chunks) slab (List.replicate total 0) dataset.elementSize) = .ok last ∧
    raw = ⟨nativeOrder dataset last dataset.elementSize, dataset.elementSize, slab.count⟩

/-- The batch that a read fetches first, if it gets that far, is fine. -/
def ReadAheadFine (build : Build) (ctx : Ctx) (codecs : Codecs) (file : FileImage) (dataset : DatasetIndex)
    (chunks : List ChunkRecord) (chunkDims : List Nat) (paged : Bool) (slab : Hyperslab)
    (caches : Caches) : Prop :=
  ∀ decodedLen dstStrides chunkStrides needed,
    Planned build dataset chunks chunkDims slab decodedLen dstStrides chunkStrides needed →
    PrefetchFine build ctx file (plainChunk build ctx codecs file dataset decodedLen paged) chunks needed caches

variable (serves : ctx.source.Serves file) (batches : ctx.source.ServesRanges file)
  (sizes : ∀ record ∈ chunks, record.size < 2 ^ 32)
  (sound : DatasetSound build ctx codecs file dataset chunks chunkDims paged caches)

include serves batches sizes sound

theorem readChunked_ok_iff (out : Bytes) {last : Bytes} :
    (∃ after, readChunked build ctx codecs dataset chunks chunkDims out slab dataset.elementSize caches =
        (.ok last, after)) ↔
      ∃ decodedLen dstStrides chunkStrides needed,
        Planned build dataset chunks chunkDims slab decodedLen dstStrides chunkStrides needed ∧
        PrefetchFine build ctx file (plainChunk build ctx codecs file dataset decodedLen paged) chunks needed
          caches ∧
        copyPlain build (plainChunk build ctx codecs file dataset decodedLen paged) dataset decodedLen chunkDims
          chunkStrides dstStrides slab (needed.filterMap fun i => chunks[i]?) out = .ok last := by
  have copied (decodedLen : Nat) (dstStrides chunkStrides needed : List Nat)
      (known : decodedChunkLen chunkDims dataset.elementSize dataset.path = .ok decodedLen) :=
    (@prefetch_then_copy build ctx codecs file dataset chunks decodedLen paged chunkDims chunkStrides
      dstStrides slab serves batches sizes caches (sound decodedLen known) needed out).2 last
  unfold readChunked
  by_cases rank : chunkDims.length = dataset.shape.length
  · rw [if_neg (not_not_intro rank)]
    constructor
    · rintro ⟨after, done⟩
      obtain ⟨dstStrides, _, first, done⟩ := Session.bind_eq_ok.mp done
      obtain ⟨places, rfl⟩ := Session.lift_eq_ok.mp first
      obtain ⟨decodedLen, _, second, done⟩ := Session.bind_eq_ok.mp done
      obtain ⟨decoded, rfl⟩ := Session.lift_eq_ok.mp second
      obtain ⟨chunkStrides, _, third, done⟩ := Session.bind_eq_ok.mp done
      obtain ⟨weights, rfl⟩ := Session.lift_eq_ok.mp third
      obtain ⟨needed, _, fourth, done⟩ := Session.bind_eq_ok.mp done
      obtain ⟨touched, rfl⟩ := Session.lift_eq_ok.mp fourth
      obtain ⟨fine, same⟩ := (copied decodedLen dstStrides chunkStrides needed decoded).mp ⟨after, done⟩
      exact ⟨decodedLen, dstStrides, chunkStrides, needed,
        ⟨rank, places, decoded, weights, touched⟩, fine, same⟩
    · rintro ⟨decodedLen, dstStrides, chunkStrides, needed, planned, fine, same⟩
      obtain ⟨after, done⟩ := (copied decodedLen dstStrides chunkStrides needed planned.decoded).mpr
        ⟨fine, same⟩
      refine ⟨after, ?_⟩
      rw [planned.places, Session.bind_lift_ok, planned.decoded, Session.bind_lift_ok, planned.weights,
        Session.bind_lift_ok, planned.needed, Session.bind_lift_ok, done]
  · rw [if_pos rank]
    constructor
    · rintro ⟨after, done⟩
      cases done
    · rintro ⟨_, _, _, _, planned, -⟩
      exact absurd planned.rank rank

theorem readChunked_sound (out : Bytes) :
    DatasetSound build ctx codecs file dataset chunks chunkDims paged
      (readChunked build ctx codecs dataset chunks chunkDims out slab dataset.elementSize caches).2 := by
  intro decodedLen decoded
  have keeps (dstStrides chunkStrides needed : List Nat) : Session.Keeps
      (CachesSound file paged (plainChunk build ctx codecs file dataset decodedLen paged) chunks)
      (do
        prefetchChunks build ctx codecs dataset chunks needed decodedLen
        copyChunks build ctx codecs dataset decodedLen chunkDims chunkStrides dstStrides slab
          dataset.elementSize (needed.filterMap fun i => chunks[i]?) out) :=
    fun caches sound => (prefetch_then_copy serves batches sizes sound needed out).1
  have whole : (readChunked build ctx codecs dataset chunks chunkDims out slab dataset.elementSize).Keeps
      (CachesSound file paged (plainChunk build ctx codecs file dataset decodedLen paged) chunks) := by
    unfold readChunked
    by_cases rank : chunkDims.length = dataset.shape.length
    · rw [if_neg (not_not_intro rank)]
      refine (Session.Keeps.lift _).bind fun dstStrides => ?_
      rw [decoded, Session.bind_lift_ok]
      exact (Session.Keeps.lift _).bind fun chunkStrides => (Session.Keeps.lift _).bind fun needed =>
        keeps dstStrides chunkStrides needed
    · rw [if_pos rank]
      exact Session.Keeps.lift _
  exact whole caches (sound decodedLen decoded)

/-- A chunked read returns what it does from the needed chunks alone, unless its batch fails. -/
theorem readHyperslab_ok_iff (layout : dataset.layout = .chunked address chunkDims width index)
    (resolved : dataset.chunks = some chunks) (valid : slab.validate dataset.shape = .ok ()) {raw : RawData} :
    (∃ after, readHyperslab build ctx codecs dataset slab caches = (.ok raw, after)) ↔
      ReadsAlone build ctx codecs file dataset chunks chunkDims paged slab raw ∧
        ReadAheadFine build ctx codecs file dataset chunks chunkDims paged slab caches := by
  have indexed : resolvedIndex dataset = .ok (some chunks) := by
    unfold resolvedIndex
    rw [layout, resolved]
  have stored (out : Bytes) : readStored build ctx codecs dataset (some chunks) slab dataset.elementSize out =
      readChunked build ctx codecs dataset chunks chunkDims out slab dataset.elementSize := by
    unfold readStored
    rw [layout]
  simp only [readHyperslab_eq_ok valid indexed, stored]
  constructor
  · rintro ⟨after, decodable, total, last, fits, small, read, rfl⟩
    obtain ⟨decodedLen, dstStrides, chunkStrides, needed, planned, fine, same⟩ :=
      (readChunked_ok_iff serves batches sizes sound _).mp ⟨after, read⟩
    refine ⟨⟨decodable, total, last, decodedLen, dstStrides, chunkStrides, needed, fits, small,
      planned, same, rfl⟩, fun decodedLen dstStrides chunkStrides needed other => ?_⟩
    cases planned.decoded.symm.trans other.decoded
    cases planned.needed.symm.trans other.needed
    exact fine
  · rintro ⟨⟨decodable, total, last, decodedLen, dstStrides, chunkStrides, needed, fits, small,
      planned, same, rfl⟩, fine⟩
    obtain ⟨after, read⟩ := (readChunked_ok_iff serves batches sizes sound _).mpr
      ⟨decodedLen, dstStrides, chunkStrides, needed, planned, fine _ _ _ _ planned, same⟩
    exact ⟨after, decodable, total, last, fits, small, read, rfl⟩

theorem readHyperslab_sound (layout : dataset.layout = .chunked address chunkDims width index)
    (resolved : dataset.chunks = some chunks) :
    DatasetSound build ctx codecs file dataset chunks chunkDims paged
      (readHyperslab build ctx codecs dataset slab caches).2 := by
  have indexed : resolvedIndex dataset = .ok (some chunks) := by
    unfold resolvedIndex
    rw [layout, resolved]
  have whole : (readHyperslab build ctx codecs dataset slab).Keeps
      (DatasetSound build ctx codecs file dataset chunks chunkDims paged) := by
    unfold readHyperslab
    refine (Session.Keeps.lift _).bind fun _ => ?_
    split
    · exact Session.Keeps.lift _
    · refine (Session.Keeps.lift _).bind fun total => ?_
      rw [indexed, Session.bind_lift_ok]
      refine (Session.Keeps.lift _).bind fun blank => Session.Keeps.bind ?_ fun out => Session.Keeps.pure _
      unfold readStored
      simp only [layout]
      exact fun caches sound => readChunked_sound serves batches sizes sound _
  exact whole caches sound

omit batches sizes serves in
theorem DatasetSound.uncached :
    DatasetSound build ctx codecs file dataset chunks chunkDims paged ⟨none, caches.io⟩ := by
  intro decodedLen decoded
  obtain ⟨paged, pages, -, -⟩ := sound decodedLen decoded
  exact ⟨paged, pages, nofun, nofun⟩

/-- The cache of decoded chunks cannot be seen in what a read returns, and its entries stay true, unless the
read would succeed on its own and the batch it fetches first is at fault. -/
theorem chunkCache_transparent_iff (layout : dataset.layout = .chunked address chunkDims width index)
    (resolved : dataset.chunks = some chunks) (valid : slab.validate dataset.shape = .ok ()) :
    ((∀ raw, (∃ after, readHyperslab build ctx codecs dataset slab caches = (.ok raw, after)) ↔
        ∃ after, readHyperslab build ctx codecs dataset slab ⟨none, caches.io⟩ = (.ok raw, after)) ∧
      DatasetSound build ctx codecs file dataset chunks chunkDims paged
        (readHyperslab build ctx codecs dataset slab caches).2) ↔
      ((∃ raw, ReadsAlone build ctx codecs file dataset chunks chunkDims paged slab raw) →
        ReadAheadFine build ctx codecs file dataset chunks chunkDims paged slab caches) := by
  have cached (raw : RawData) :=
    @readHyperslab_ok_iff build ctx codecs file dataset chunks paged address chunkDims
    width index slab caches serves batches sizes sound layout resolved valid raw
  have direct (raw : RawData) :=
    @readHyperslab_ok_iff build ctx codecs file dataset chunks paged address chunkDims
    width index slab ⟨none, caches.io⟩ serves batches sizes sound.uncached layout resolved valid raw
  have nothing : ReadAheadFine build ctx codecs file dataset chunks chunkDims paged slab ⟨none, caches.io⟩ :=
    fun _ _ _ _ _ _ _ none => nomatch none
  rw [and_iff_left (readHyperslab_sound serves batches sizes sound layout resolved)]
  simp only [cached, direct, and_iff_left nothing]
  constructor
  · rintro same ⟨raw, alone⟩
    exact ((same raw).mpr alone).2
  · exact fun fine raw => ⟨And.left, fun alone => ⟨alone, fine ⟨raw, alone⟩⟩⟩

end Whole

/-- A cache of decoded chunks that holds nothing yet. -/
def coldChunks (readahead : Nat) : Caches where
  chunk := some { inner := { held := fun _ => none, keep := fun _ _ => true, calls := 0 }, readahead }
  io := none

theorem coldChunks_sound (readahead : Nat) (plain : ChunkRecord → Code Bytes) (distinct : Distinct chunks) :
    CachesSound file false plain chunks (coldChunks readahead) := by
  refine ⟨rfl, nofun, fun _ => distinct, fun cache same => ?_⟩
  cases same
  nofun

theorem chunkCache_transparent_twoChunks :
    ((∀ raw, (∃ after, readHyperslab .debug fourBytes .refusing twoChunks ⟨[1], [2]⟩ (coldChunks 1) =
          (.ok raw, after)) ↔
        ∃ after, readHyperslab .debug fourBytes .refusing twoChunks ⟨[1], [2]⟩ ⟨none, none⟩ =
        (.ok raw, after)) ∧
      DatasetSound .debug fourBytes .refusing ⟨[1, 2, 3, 4], by decide⟩ twoChunks
        [⟨2, 0, [0], 0⟩, ⟨2, 0, [2], 2⟩] [2] false
        (readHyperslab .debug fourBytes .refusing twoChunks ⟨[1], [2]⟩ (coldChunks 1)).2) ↔
      ((∃ raw, ReadsAlone .debug fourBytes .refusing ⟨[1, 2, 3, 4], by decide⟩ twoChunks
          [⟨2, 0, [0], 0⟩, ⟨2, 0, [2], 2⟩] [2] false ⟨[1], [2]⟩ raw) →
        ReadAheadFine .debug fourBytes .refusing ⟨[1, 2, 3, 4], by decide⟩ twoChunks
          [⟨2, 0, [0], 0⟩, ⟨2, 0, [2], 2⟩] [2] false ⟨[1], [2]⟩ (coldChunks 1)) :=
  chunkCache_transparent_iff (fileSource_serves _) (fileSource_servesRanges _) (by decide)
    (fun _ _ => coldChunks_sound 1 _ (by unfold Distinct; decide)) rfl rfl (by decide)

/-- Two stored chunks, and one that is said to lie past the end of the file. -/
def lostChunk : DatasetIndex :=
  .ofBytes [6] (.chunked (some 0) [2] 1 .btreeV1) (some [⟨2, 0, [0], 0⟩, ⟨2, 0, [2], 2⟩, ⟨2, 0, [4], 100⟩])

/-- A read of the first chunk succeeds without a cache, and fails with one that reads the lost chunk ahead. -/
theorem readAhead_fails :
    Hyperslab.validate ⟨[0], [2]⟩ lostChunk.shape = .ok () ∧
      DatasetSound .release fourBytes .refusing ⟨[1, 2, 3, 4], by decide⟩ lostChunk
        [⟨2, 0, [0], 0⟩, ⟨2, 0, [2], 2⟩, ⟨2, 0, [4], 100⟩] [2] false (coldChunks 2) ∧
      readHyperslab .release fourBytes .refusing lostChunk ⟨[0], [2]⟩ ⟨none, none⟩ =
        (.ok ⟨[1, 2], 1, [2]⟩, ⟨none, none⟩) ∧
      ¬ ∃ raw after, readHyperslab .release fourBytes .refusing lostChunk ⟨[0], [2]⟩ (coldChunks 2) =
        (.ok raw, after) := by
  refine ⟨by decide, fun _ _ => coldChunks_sound 2 _ (by unfold Distinct; decide), by rfl, ?_⟩
  rintro ⟨raw, after, done⟩
  have failed : (readHyperslab .release fourBytes .refusing lostChunk ⟨[0], [2]⟩ (coldChunks 2)).1 =
      .error (.outOfBounds "file" 0 102 4) := by rfl
  rw [done] at failed
  cases failed

end Oxcdf.Read
