import Oxcdf.Read.Gathered

/-! The asynchronous read of a hyperslab compared with the synchronous one.

Both return the same, unless the batch of the asynchronous read asks for something the
read does not need and that fails, or a chunk that was held when the batch was put
together is gone when the copy asks for it: that chunk is read by neither.
-/

set_option autoImplicit false

namespace Oxcdf.Read

open Foundation Foundation.RowMajor Foundation.Buffer

variable {build : Build} {ctx : Ctx} {remote : AsyncCtx} {codecs : Codecs} {file : FileImage}
  {dataset : DatasetIndex}
  {chunks : List ChunkRecord} {chunkDims : List Nat} {slab : Hyperslab} {caches : Caches} {decodedLen : Nat}
  {plain : ChunkRecord → Code Bytes} {needed : List Nat} {end_ : Nat}

section Batch

/-- What a read relies on of the records of a dataset's chunks. -/
structure Records (dataset : DatasetIndex) (chunks : List ChunkRecord) : Prop where
  ranked : ∀ record ∈ chunks, record.offset.length = dataset.shape.length
  distinct : Distinct chunks
  sizes : ∀ record ∈ chunks, record.size < 2 ^ 32

/-- Chunks that lie in the file are decoded from their bytes in it. -/
def DecodesHeld (build : Build) (ctx : Ctx) (codecs : Codecs) (file : FileImage) (dataset : DatasetIndex)
    (decodedLen : Nat) (plain : ChunkRecord → Code Bytes) : Prop :=
  ∀ record, file.Holds (ctx.resolve record.address) record.size →
    plain record = Filters.decodeChunk build codecs dataset.pipeline record.filterMask
      (file.part (ctx.resolve record.address) record.size) decodedLen

/-- What an asynchronous read fetches ahead of its copy is fine: the end of the read-ahead is a word in builds
that check it, every chunk of the batch lies in the file and does not panic when it is decoded, and every needed
chunk that is not in the batch is held until the copy asks for it. -/
structure FetchFine (build : Build) (ctx : Ctx) (file : FileImage) (plain : ChunkRecord → Code Bytes)
    (chunks : List ChunkRecord) (caches : Caches) (needed : List Nat) (last : Nat) : Prop where
  reach : build = .debug → last + 1 + lookahead caches < wordSize
  held : ∀ record ∈ fetchedBatch build chunks caches needed last,
    file.Holds (ctx.resolve record.address) record.size
  decodes : ∀ record ∈ fetchedBatch build chunks caches needed last, ¬ (plain record).Panics
  found : ∀ place record, (needed.filterMap fun i => chunks[i]?)[place]? = some record →
    record ∈ fetchedBatch build chunks caches needed last ∨
      Held caches record.address ((lookedAt build chunks caches needed last).length +
        (decodedOf plain (fetchedBatch build chunks caches needed last)).length + place)

theorem mem_fetchedBatch {record : ChunkRecord}
    (member : record ∈ fetchedBatch build chunks caches needed end_) :
    record ∈ chunks ∧ record.size ≠ 0 := by
  unfold fetchedBatch at member
  cases held : caches.chunk with
  | some cache =>
    rw [held] at member
    exact mem_batch member
  | none =>
    rw [held] at member
    unfold lookedAt at member
    cases planned : prefetchCandidates build chunks.length (lookahead caches) end_ needed with
    | ok candidates =>
      rw [planned] at member
      obtain ⟨among, stored⟩ := List.mem_filter.mp member
      obtain ⟨i, -, found⟩ := List.mem_filterMap.mp among
      exact ⟨List.mem_of_getElem? found, by simpa using stored⟩
    | error e =>
      rw [planned] at member
      cases member
    | panic p =>
      rw [planned] at member
      cases member

/-- No chunk of the batch has the address of one that is not in it. -/
theorem apart_of_fetched (distinct : Distinct chunks) {record : ChunkRecord} (member : record ∈ chunks)
    (outside : record ∉ fetchedBatch build chunks caches needed end_) :
    ∀ other ∈ fetchedBatch build chunks caches needed end_, record.address ≠ other.address := by
  intro other among same
  rw [distinct.eq member (mem_fetchedBatch among).1 same] at outside
  exact outside among

/-- A copy of needed chunks has decoded all of them. -/
theorem plain_of_copied {chunkStrides dstStrides : List Nat} (records : List ChunkRecord) :
    (∀ record ∈ records, record ∈ chunks ∧ (clip record.offset chunkDims slab.start slab.count).isSome) →
    ∀ {out last : Bytes},
    copyPlain build plain dataset decodedLen chunkDims chunkStrides dstStrides slab records out = .ok last →
    ∀ record ∈ records, ∃ bytes, plain record = .ok bytes := by
  induction records with
  | nil => nofun
  | cons record records ih =>
    intro meets out last copied
    obtain ⟨here, others⟩ := List.forall_mem_cons.mp meets
    obtain ⟨part, clipped⟩ := Option.isSome_iff_exists.mp here.2
    simp only [copyPlain, clipped] at copied
    obtain ⟨bytes, known, copied⟩ := Outcome.bind_eq_ok.mp copied
    rw [List.forall_mem_cons]
    split at copied
    · cases copied
    · obtain ⟨writes, -, copied⟩ := Outcome.bind_eq_ok.mp copied
      obtain ⟨middle, -, copied⟩ := Outcome.bind_eq_ok.mp copied
      exact ⟨⟨bytes, known⟩, ih others copied⟩

/-- The bytes of a batch are fetched when it lies in the file, and the chunks that are held stay as they are. -/
theorem fetchRecords_spec (base : remote.baseAddress = ctx.baseAddress) (serves : remote.source.Serves file)
    (batches : remote.source.ServesRanges file) (pages : PagesSound file caches) {wanted : List ChunkRecord}
    (sizes : ∀ record ∈ wanted, record.size ≠ 0 ∧ record.size < 2 ^ 32) :
    let fetched := fetchBytes build remote
      (wanted.map fun record => (remote.resolve record.address, record.size)) caches
    fetched.2.chunk = caches.chunk ∧ ∀ blobs, fetched.1 = .ok blobs ↔
      (∀ record ∈ wanted, file.Holds (ctx.resolve record.address) record.size) ∧
        blobs = wanted.map fun record => file.part (ctx.resolve record.address) record.size := by
  have resolve : remote.resolve = ctx.resolve := by
    funext a
    rw [AsyncCtx.resolve, base, Ctx.resolve]
  have words : ∀ range ∈ wanted.map fun record => (remote.resolve record.address, record.size),
      range.1 < wordSize ∧ range.2 < wordSize :=
    List.forall_mem_map.mpr fun record member =>
      ⟨wrappingAdd_lt _ _, (sizes record member).2.trans (by decide)⟩
  have alike : Io.Alike (wanted.map fun record => (remote.resolve record.address, record.size)) :=
    .inl (List.forall_mem_map.mpr fun record member => Nat.pos_of_ne_zero (sizes record member).1)
  -- A stored chunk is not empty, so that a page cache answers what the source answers.
  have answered : (∀ range ∈ wanted.map fun record => (remote.resolve record.address, record.size),
      Answered file caches.io.isSome range) ↔
      ∀ record ∈ wanted, file.Holds (ctx.resolve record.address) record.size := by
    rw [List.forall_mem_map, resolve]
    exact forall₂_congr fun record member => or_iff_right fun empty => (sizes record member).1 empty.2
  obtain ⟨chunk, read⟩ := @fetchBytes_spec build remote file _ caches serves batches words alike pages
  refine ⟨chunk, fun blobs => ?_⟩
  rw [read blobs, answered, List.map_map, resolve]
  rfl

variable (records : Records dataset chunks)
  (decoding : DecodesHeld build ctx codecs file dataset decodedLen plain)
  (dims : chunkDims.length = dataset.shape.length) (start : slab.start.length = dataset.shape.length)
  (count : slab.count.length = dataset.shape.length) (entries : Entries plain chunks caches)

include records decoding dims start count entries

theorem decodeBatch_spec {wanted : List ChunkRecord} (among : ∀ record ∈ wanted, record ∈ chunks)
    (held : ∀ record ∈ wanted, file.Holds (ctx.resolve record.address) record.size) :
    let pairs := wanted.map fun record => (record, file.part (ctx.resolve record.address) record.size)
    ((∃ table after, decodeWanted build codecs dataset chunks chunkDims slab decodedLen pairs [] caches =
        (.ok table, after)) ↔ ∀ record ∈ wanted, Harmless plain chunkDims slab record) ∧
    ∀ table after, decodeWanted build codecs dataset chunks chunkDims slab decodedLen pairs [] caches =
        (.ok table, after) →
      Entries plain chunks after ∧ Table plain chunks table ∧
      (∀ address, (table.lookup address).isSome ↔ ∃ record ∈ decodedOf plain wanted, record.address = address) ∧
      ∀ address, (∀ record ∈ wanted, address ≠ record.address) →
        Passed address (decodedOf plain wanted).length caches after := by
  intro pairs
  have known : ∀ pair ∈ pairs, pair.1 ∈ chunks ∧
      plain pair.1 = Filters.decodeChunk build codecs dataset.pipeline pair.1.filterMask pair.2 decodedLen :=
    List.forall_mem_map.mpr fun record member => ⟨among record member, decoding record (held record member)⟩
  have firsts : pairs.map Prod.fst = wanted := by
    rw [List.map_map]
    exact List.map_id wanted
  have harm {table : List (Nat × Bytes)} {after : Caches}
      (done : decodeWanted build codecs dataset chunks chunkDims slab decodedLen pairs [] caches =
        (.ok table, after)) : ∀ record ∈ wanted, Harmless plain chunkDims slab record := fun record member =>
    harmless_of_decoded records.distinct records.ranked dims start count pairs known done _
      (List.mem_map_of_mem member)
  have decodes (harmless : ∀ record ∈ wanted, Harmless plain chunkDims slab record) :=
    decodeWanted_spec records.distinct records.ranked dims start count pairs known entries
      (show Table plain chunks [] from nofun) (List.forall_mem_map.mpr harmless)
  refine ⟨⟨fun ⟨table, after, done⟩ => harm done, fun harmless => ?_⟩, fun table after done => ?_⟩
  · obtain ⟨table, after, done, -⟩ := decodes harmless
    exact ⟨table, after, done⟩
  · obtain ⟨other, last, found, kept, true_, holds, passed⟩ := decodes (harm done)
    cases done.symm.trans found
    rw [firsts] at holds passed
    exact ⟨kept, true_, fun address => by simpa using holds address,
      fun address apart => passed address (List.forall_mem_map.mpr apart)⟩

variable (base : remote.baseAddress = ctx.baseAddress) (serves : remote.source.Serves file)
  (batches : remote.source.ServesRanges file) (pages : PagesSound file caches)

include base serves batches pages

/-- A batch is fetched and decoded when it lies in the file and is without harm. -/
theorem fetchWanted_spec {wanted : List ChunkRecord}
    (stored : ∀ record ∈ wanted, record ∈ chunks ∧ record.size ≠ 0) :
    ((∃ table after, fetchWanted build remote codecs dataset chunks chunkDims slab decodedLen wanted caches =
        (.ok table, after)) ↔
      (∀ record ∈ wanted, file.Holds (ctx.resolve record.address) record.size) ∧
        ∀ record ∈ wanted, Harmless plain chunkDims slab record) ∧
    ∀ table after, fetchWanted build remote codecs dataset chunks chunkDims slab decodedLen wanted caches =
        (.ok table, after) →
      Entries plain chunks after ∧ Table plain chunks table ∧
      (∀ address, (table.lookup address).isSome ↔ ∃ record ∈ decodedOf plain wanted, record.address = address) ∧
      ∀ address, (∀ record ∈ wanted, address ≠ record.address) →
        Passed address (decodedOf plain wanted).length caches after := by
  unfold fetchWanted
  by_cases none : wanted = []
  · subst none
    rw [if_pos rfl]
    have idle {property : ChunkRecord → Prop} : ∀ record ∈ ([] : List ChunkRecord), property record :=
      fun _ member => absurd member List.not_mem_nil
    refine ⟨⟨fun _ => ⟨idle, idle⟩, fun _ => ⟨[], caches, rfl⟩⟩, ?_⟩
    intro table after done
    cases done
    refine ⟨entries, fun address bytes found => ?_, by simp [decodedOf], fun address _ => .of_eq rfl⟩
    cases found
  · rw [if_neg none]
    have among : ∀ record ∈ wanted, record ∈ chunks := fun record member => (stored record member).1
    obtain ⟨chunk, fetched⟩ := @fetchRecords_spec build ctx remote file caches base serves batches pages wanted
      fun record member => ⟨(stored record member).2, records.sizes record (among record member)⟩
    have zipped : wanted.zip (wanted.map fun record => file.part (ctx.resolve record.address) record.size) =
        wanted.map fun record => (record, file.part (ctx.resolve record.address) record.size) :=
      List.map_prod_left_eq_zip.symm
    rcases read : fetchBytes build remote (wanted.map fun record => (remote.resolve record.address, record.size))
        caches with ⟨blobs | e | p, middle⟩
    · rw [read] at chunk fetched
      obtain ⟨held, rfl⟩ := (fetched blobs).mp rfl
      -- Between the fetch and the decoding, the chunks that are held have not changed.
      obtain ⟨harmless, result⟩ := @decodeBatch_spec build ctx codecs file dataset chunks chunkDims slab middle
        decodedLen plain records decoding dims start count (fun cache here => entries cache (chunk ▸ here)) wanted
        among held
      rw [Session.bind_ok read, zipped]
      refine ⟨harmless.trans (and_iff_right held).symm, fun table after done => ?_⟩
      obtain ⟨kept, true_, holds, passed⟩ := result table after done
      refine ⟨kept, true_, holds, fun address apart => ?_⟩
      have moved := (Passed.of_eq chunk).trans (passed address apart)
      rwa [Nat.zero_add] at moved
    · rw [read] at fetched
      rw [Session.bind_error read]
      refine ⟨⟨?_, fun fine => ?_⟩, fun table after done => ?_⟩
      · rintro ⟨table, after, done⟩
        cases done
      · cases (fetched _).mpr ⟨fine.1, rfl⟩
      · cases done
    · rw [read] at fetched
      rw [Session.bind_panic read]
      refine ⟨⟨?_, fun fine => ?_⟩, fun table after done => ?_⟩
      · rintro ⟨table, after, done⟩
        cases done
      · cases (fetched _).mpr ⟨fine.1, rfl⟩
      · cases done

variable {chunkStrides dstStrides : List Nat} (ends : needed.getLast? = some end_)
  (among : ∀ record ∈ needed.filterMap fun i => chunks[i]?,
    record ∈ chunks ∧ (clip record.offset chunkDims slab.start slab.count).isSome)

include ends among

theorem fetchFine_of_copied {wanted : List ChunkRecord} {middle after : Caches} {table : List (Nat × Bytes)}
    (gathered : gatherWanted build chunks needed caches = (.ok wanted, middle))
    (fetched : fetchWanted build remote codecs dataset chunks chunkDims slab decodedLen wanted middle =
      (.ok table, after)) {out last : Bytes}
    (copied : (copyFetched build dataset decodedLen chunkDims chunkStrides dstStrides slab
      dataset.elementSize table
      (needed.filterMap fun i => chunks[i]?) out after).1 = .ok last) :
    FetchFine build ctx file plain chunks caches needed end_ ∧
      copyPlain build plain dataset decodedLen chunkDims chunkStrides dstStrides slab
        (needed.filterMap fun i => chunks[i]?) out = .ok last := by
  have reach := reach_of_gathered ends gathered
  obtain ⟨_, found, io, kept, passed⟩ := gatherWanted_spec ends entries reach
  cases gathered.symm.trans found
  obtain ⟨fine, result⟩ := fetchWanted_spec records decoding dims start count kept base serves batches
    (fun cache here => pages cache (io ▸ here)) fun record member => mem_fetchedBatch member
  obtain ⟨held, harmless⟩ := fine.mp ⟨table, after, fetched⟩
  obtain ⟨keptLater, true_, holds, passedLater⟩ := result table after fetched
  obtain ⟨looked, plainly⟩ := (copyFetched_iff true_ _ among out last keptLater).mp copied
  refine ⟨⟨reach, held, fun record member => (harmless record member).1, fun place record here => ?_⟩, plainly⟩
  -- A needed chunk outside the batch can only be found in the cache, after all the calls in between.
  by_cases inside : record ∈ fetchedBatch build chunks caches needed end_
  · exact .inl inside
  · have apart := apart_of_fetched records.distinct (among record (List.mem_of_getElem? here)).1 inside
    right
    rcases looked place record here with there | there
    · obtain ⟨other, decoded, same⟩ := (holds record.address).mp there
      exact absurd same.symm (apart other (List.mem_filter.mp decoded).1)
    · rwa [((passed record.address).trans (passedLater record.address apart)).held] at there

/-- A fetch that is fine lets the copy do what it would do with the chunks as they are decoded. -/
theorem copied_of_fetchFine
    (whole : ∀ record ∈ chunks, intersects record.offset chunkDims slab.start slab.count = true →
      record ∈ needed.filterMap fun i => chunks[i]?)
    (fine : FetchFine build ctx file plain chunks caches needed end_) {out last : Bytes}
    (plainly : copyPlain build plain dataset decodedLen chunkDims chunkStrides dstStrides slab
      (needed.filterMap fun i => chunks[i]?) out = .ok last) :
    ∃ wanted middle table after, gatherWanted build chunks needed caches = (.ok wanted, middle) ∧
      fetchWanted build remote codecs dataset chunks chunkDims slab decodedLen wanted middle =
      (.ok table, after) ∧
      (copyFetched build dataset decodedLen chunkDims chunkStrides dstStrides slab dataset.elementSize table
        (needed.filterMap fun i => chunks[i]?) out after).1 = .ok last := by
  have decodes := plain_of_copied _ among plainly
  obtain ⟨middle, gathered, io, kept, passed⟩ := gatherWanted_spec ends entries fine.reach
  obtain ⟨ready, result⟩ := fetchWanted_spec records decoding dims start count kept base serves batches
    (fun cache here => pages cache (io ▸ here)) fun record member => mem_fetchedBatch member
  have harmless : ∀ record ∈ fetchedBatch build chunks caches needed end_,
    Harmless plain chunkDims slab record := by
    intro record member
    refine ⟨fine.decodes record member, fun e failed => ?_⟩
    -- A chunk that does not decode is none of the needed ones: the copy has decoded all of those.
    by_contra meets
    obtain ⟨bytes, known⟩ := decodes record (whole record (mem_fetchedBatch member).1 (by simpa using meets))
    cases failed.symm.trans known
  obtain ⟨table, after, fetched⟩ := ready.mpr ⟨fine.held, harmless⟩
  obtain ⟨keptLater, true_, holds, passedLater⟩ := result table after fetched
  refine ⟨_, middle, table, after, gathered, fetched,
    (copyFetched_iff true_ _ among out last keptLater).mpr ⟨fun place record here => ?_, plainly⟩⟩
  have inRange := List.mem_of_getElem? here
  by_cases inside : record ∈ fetchedBatch build chunks caches needed end_
  · obtain ⟨bytes, known⟩ := decodes record inRange
    have decoded : record ∈ decodedOf plain (fetchedBatch build chunks caches needed end_) :=
      List.mem_filter.mpr ⟨inside, by rw [known]; rfl⟩
    exact .inl ((holds record.address).mpr ⟨record, decoded, rfl⟩)
  · have apart := apart_of_fetched records.distinct (among record inRange).1 inside
    right
    rw [((passed record.address).trans (passedLater record.address apart)).held]
    exact (fine.found place record here).resolve_left inside

end Batch

section Chunked

variable {decoded : Nat} {chunkStrides dstStrides : List Nat} (base : remote.baseAddress = ctx.baseAddress)
  (serves : ctx.source.Serves file) (answers : remote.source.Serves file)
  (batches : remote.source.ServesRanges file) (records : Records dataset chunks)
  (start : slab.start.length = dataset.shape.length) (count : slab.count.length = dataset.shape.length)
  (pages : PagesSound file caches)

include base serves answers batches records start count pages

/-- A batch and a copy return what the copy does on its own, if what is fetched ahead is fine. -/
theorem fetched_then_copied_iff (dims : chunkDims.length = dataset.shape.length)
    (entries : Entries (plainChunk build ctx codecs file dataset decodedLen false) chunks caches)
    (touched : neededChunks chunks chunkDims slab dataset.shape.length = .ok needed) {out last : Bytes} :
    (∃ wanted middle table after, gatherWanted build chunks needed caches = (.ok wanted, middle) ∧
      fetchWanted build remote codecs dataset chunks chunkDims slab decodedLen wanted middle =
      (.ok table, after) ∧
      (copyFetched build dataset decodedLen chunkDims chunkStrides dstStrides slab dataset.elementSize table
        (needed.filterMap fun i => chunks[i]?) out after).1 = .ok last) ↔
      (∀ end_, needed.getLast? = some end_ →
        FetchFine build ctx file (plainChunk build ctx codecs file dataset decodedLen false)
        chunks caches needed
          end_) ∧
      copyPlain build (plainChunk build ctx codecs file dataset decodedLen false) dataset decodedLen chunkDims
        chunkStrides dstStrides slab (needed.filterMap fun i => chunks[i]?) out = .ok last := by
  have decoding : DecodesHeld build ctx codecs file dataset decodedLen
      (plainChunk build ctx codecs file dataset decodedLen false) :=
    fun record held => plainChunk_of_held serves held
  have inRange := (neededChunks_spec touched).2
  have among : ∀ record ∈ needed.filterMap fun i => chunks[i]?,
      record ∈ chunks ∧ (clip record.offset chunkDims slab.start slab.count).isSome := by
    intro record member
    rw [inRange, List.mem_filter, intersects_eq] at member
    exact member
  have whole : ∀ record ∈ chunks, intersects record.offset chunkDims slab.start slab.count = true →
      record ∈ needed.filterMap fun i => chunks[i]? := by
    intro record member meets
    rw [inRange]
    exact List.mem_filter.mpr ⟨member, meets⟩
  -- Nothing is gathered when no chunk is needed.
  cases ends : needed.getLast? with
  | none =>
    have nothing : needed = [] := List.getLast?_eq_none_iff.mp ends
    subst nothing
    constructor
    · rintro ⟨wanted, middle, table, after, gathered, fetched, copied⟩
      exact ⟨nofun, copied⟩
    · rintro ⟨-, plainly⟩
      exact ⟨[], caches, [], caches, rfl, rfl, plainly⟩
  | some end_ =>
    constructor
    · rintro ⟨wanted, middle, table, after, gathered, fetched, copied⟩
      obtain ⟨fine, plainly⟩ := fetchFine_of_copied records decoding dims start count entries base answers batches
        pages ends among gathered fetched copied
      refine ⟨fun last same => ?_, plainly⟩
      cases same
      exact fine
    · rintro ⟨fine, plainly⟩
      exact copied_of_fetchFine records decoding dims start count entries base answers batches pages ends among
        whole (fine end_ rfl) plainly

theorem fetchChunked_ok_iff
    (entries : ∀ decodedLen, decodedChunkLen chunkDims dataset.elementSize dataset.path = .ok decodedLen →
      Entries (plainChunk build ctx codecs file dataset decodedLen false) chunks caches) (out : Bytes)
    {last : Bytes} :
    (∃ after, fetchChunked build remote codecs dataset chunks chunkDims out slab dataset.elementSize caches =
        (.ok last, after)) ↔
      ∃ decodedLen dstStrides chunkStrides needed,
        Planned build dataset chunks chunkDims slab decodedLen dstStrides chunkStrides needed ∧
        (∀ end_, needed.getLast? = some end_ →
          FetchFine build ctx file (plainChunk build ctx codecs file dataset decodedLen false) chunks caches
            needed end_) ∧
        copyPlain build (plainChunk build ctx codecs file dataset decodedLen false) dataset decodedLen chunkDims
          chunkStrides dstStrides slab (needed.filterMap fun i => chunks[i]?) out = .ok last := by
  have touched := @neededChunks_eq chunks chunkDims slab dataset.shape.length records.ranked
  unfold fetchChunked
  by_cases rank : chunkDims.length = dataset.shape.length
  · rw [if_neg (not_not_intro rank)]
    constructor
    · rintro ⟨after, done⟩
      obtain ⟨decodedLen, _, first, done⟩ := Session.bind_eq_ok.mp done
      obtain ⟨decoded, rfl⟩ := Session.lift_eq_ok.mp first
      obtain ⟨wanted, middle, gathered, done⟩ := Session.bind_eq_ok.mp done
      obtain ⟨table, later, fetched, done⟩ := Session.bind_eq_ok.mp done
      obtain ⟨dstStrides, _, second, done⟩ := Session.bind_eq_ok.mp done
      obtain ⟨places, rfl⟩ := Session.lift_eq_ok.mp second
      obtain ⟨chunkStrides, _, third, done⟩ := Session.bind_eq_ok.mp done
      obtain ⟨weights, rfl⟩ := Session.lift_eq_ok.mp third
      obtain ⟨fine, plainly⟩ := (fetched_then_copied_iff base serves answers batches records start
        count pages rank (entries decodedLen decoded) touched).mp
          ⟨wanted, middle, table, _, gathered, fetched, congrArg Prod.fst done⟩
      exact ⟨decodedLen, dstStrides, chunkStrides, _, ⟨rank, places, decoded, weights, touched⟩, fine, plainly⟩
    · rintro ⟨decodedLen, dstStrides, chunkStrides, needed, planned, fine, plainly⟩
      cases touched.symm.trans planned.needed
      obtain ⟨wanted, middle, table, after, gathered, fetched, copied⟩ :=
        (fetched_then_copied_iff base serves answers batches records start count pages rank
          (entries decodedLen planned.decoded) touched).mpr ⟨fine, plainly⟩
      refine ⟨(copyFetched build dataset decodedLen chunkDims chunkStrides dstStrides slab
        dataset.elementSize table
        ((touchedChunks chunks chunkDims slab dataset.shape.length).filterMap fun i => chunks[i]?)
          out after).2, ?_⟩
      rw [planned.decoded, Session.bind_lift_ok]
      refine (Session.bind_ok gathered).trans ((Session.bind_ok fetched).trans ?_)
      rw [planned.places, Session.bind_lift_ok, planned.weights, Session.bind_lift_ok]
      exact Prod.ext copied rfl
  · rw [if_pos rank]
    constructor
    · rintro ⟨after, done⟩
      cases done
    · rintro ⟨_, _, _, _, planned, -⟩
      exact absurd planned.rank rank

end Chunked

section Whole

variable {address width total : Nat} {place : Option Nat} {index : ChunkIndex} {raw : RawData} {after : Caches}

theorem readHyperslabAsyncWith_eq_ok (valid : slab.validate dataset.shape = .ok ()) :
    readHyperslabAsyncWith build remote codecs dataset slab caches = (.ok raw, after) ↔
      dataset.datatype.isDecodable = true ∧
      ∃ total last, checkedMul slab.elementCount dataset.elementSize = some total ∧ total ≤ isizeMax ∧
        fetchStored build remote codecs dataset slab dataset.elementSize
          (startBuffer dataset dataset.chunks slab (List.replicate total 0) dataset.elementSize) caches =
          (.ok last, after) ∧
        raw = ⟨nativeOrder dataset last dataset.elementSize, dataset.elementSize, slab.count⟩ := by
  unfold readHyperslabAsyncWith
  rw [valid, Session.bind_lift_ok]
  by_cases decodable : dataset.datatype.isDecodable = true
  · rw [decodable, Bool.not_true, if_neg Bool.false_ne_true]
    simp only [Session.bind_eq_ok, Session.lift_eq_ok, Outcome.ofOption_eq_ok, zeroed_eq_ok]
    constructor
    · rintro ⟨total, _, ⟨fits, rfl⟩, _, _, ⟨⟨small, rfl⟩, rfl⟩, last, _, read, done⟩
      cases done
      exact ⟨trivial, total, last, fits, small, read, rfl⟩
    · rintro ⟨-, total, last, fits, small, read, rfl⟩
      exact ⟨total, _, ⟨fits, rfl⟩, _, _, ⟨⟨small, rfl⟩, rfl⟩, last, _, read, rfl⟩
  · rw [Bool.eq_false_iff.mpr decodable, Bool.not_false, if_pos rfl]
    constructor
    · nofun
    · rintro ⟨held, -⟩
      cases held

/-- Where the elements are empty and there is a page cache, the empty ranges of the runs lie in the file. -/
def EmptyHeld (build : Build) (ctx : Ctx) (file : FileImage) (address elementSize : Nat) (shape : List Nat)
    (slab : Hyperslab) (caches : Caches) : Prop :=
  caches.io.isSome → elementSize = 0 → ∀ walked runs ranges, forEachRun build shape slab = .ok walked →
    walked.mapM id = .ok runs → runs.mapM (runRange build address elementSize) = .ok ranges →
    ∀ range ∈ ranges, file.Holds (ctx.resolve range.1) range.2

def AheadFine (build : Build) (ctx : Ctx) (codecs : Codecs) (file : FileImage) (dataset : DatasetIndex)
    (chunks : List ChunkRecord) (chunkDims : List Nat) (slab : Hyperslab) (caches : Caches) : Prop :=
  ∀ decodedLen dstStrides chunkStrides needed end_,
    Planned build dataset chunks chunkDims slab decodedLen dstStrides chunkStrides needed →
    needed.getLast? = some end_ →
    FetchFine build ctx file (plainChunk build ctx codecs file dataset decodedLen false) chunks
      caches needed end_

/-- What an asynchronous read asks for beyond what the synchronous one does is no obstacle: a decodable
contiguous dataset has no empty elements past the end of the file, and where the needed chunks can be read,
so can what is fetched ahead of their copy. -/
def AsyncFine (build : Build) (ctx : Ctx) (codecs : Codecs) (file : FileImage) (dataset : DatasetIndex)
    (slab : Hyperslab) (caches : Caches) : Prop :=
  match dataset.layout with
  | .compact _ => True
  | .contiguous none _ => True
  | .contiguous (some address) _ => dataset.datatype.isDecodable = true →
      EmptyHeld build ctx file address dataset.elementSize dataset.shape slab caches
  | .chunked _ chunkDims _ _ => ∀ chunks, dataset.chunks = some chunks →
      (∃ raw, ReadsAlone build ctx codecs file dataset chunks chunkDims false slab raw) →
      AheadFine build ctx codecs file dataset chunks chunkDims slab caches

/-- The two reads return the same. -/
def Agree (build : Build) (ctx : Ctx) (remote : AsyncCtx) (codecs : Codecs) (dataset : DatasetIndex)
    (slab : Hyperslab) (caches : Caches) : Prop :=
  ∀ raw, (∃ after, readHyperslabAsyncWith build remote codecs dataset slab caches = (.ok raw, after)) ↔
    ∃ after, readHyperslab build ctx codecs dataset slab ⟨none, none⟩ = (.ok raw, after)

/-- Empty pieces can be placed anywhere. -/
theorem placeRuns_empty : ∀ (pairs : List (ElementRun × Bytes)) (out : Bytes),
    placeRuns build 0 pairs out = .ok out
  | [], _ => rfl
  | (run, bytes) :: rest, out => by
    have zero : (build.word 0 : Code Nat) = .ok 0 := Build.word_of_lt build wordSize_pos
    have copied : (copyInto out 0 0 [] : Code Bytes) = .ok out := by
      rw [copyInto, if_pos ⟨le_refl 0, Nat.zero_le _, rfl⟩]
      rfl
    have placed : placeFetched build 0 run bytes out = .ok out := by
      unfold placeFetched Build.mul Build.add
      simp only [Nat.mul_zero, Nat.add_zero, zero, Outcome.ok_bind, Nat.not_lt_zero, if_false]
      have piece : (range bytes 0 0 : Code Bytes) = .ok [] := by
        rw [range, if_pos ⟨le_refl 0, Nat.zero_le _⟩]
        rfl
      rw [piece, Outcome.ok_bind, copied]
    rw [placeRuns, placed, Outcome.ok_bind]
    exact placeRuns_empty rest out

theorem fst_eq_ok {σ ε α : Type} {outcome : Outcome ε α × σ} {a : α} :
    (∃ after, outcome = (.ok a, after)) ↔ outcome.1 = .ok a :=
  ⟨fun ⟨_, done⟩ => congrArg Prod.fst done, fun done => ⟨outcome.2, Prod.ext done rfl⟩⟩

/-- What the two reads have in common: the file, where its addresses count from, a valid selection of a dataset
whose chunks are resolved, and caches that hold what is the file's. -/
structure Comparable (build : Build) (ctx : Ctx) (remote : AsyncCtx) (codecs : Codecs) (file : FileImage)
    (dataset : DatasetIndex) (slab : Hyperslab) (caches : Caches) : Prop where
  valid : slab.validate dataset.shape = .ok ()
  base : remote.baseAddress = ctx.baseAddress
  serves : ctx.source.Serves file
  ranges : ctx.source.ServesRanges file
  answers : remote.source.Serves file
  batches : remote.source.ServesRanges file
  pages : PagesSound file caches
  resolved : ∀ place chunkDims width index, dataset.layout = .chunked place chunkDims width index →
    ∃ chunks, dataset.chunks = some chunks ∧ Records dataset chunks ∧ ∀ decodedLen,
      decodedChunkLen chunkDims dataset.elementSize dataset.path = .ok decodedLen →
      Entries (plainChunk build ctx codecs file dataset decodedLen false) chunks caches

variable (same : Comparable build ctx remote codecs file dataset slab caches)

include same

/-- Dense reads differ in what is answered of an empty range. -/
theorem readsRuns_iff {walked : List (Code ElementRun)}
    (found : forEachRun build dataset.shape slab = .ok walked)
    (fits : checkedMul slab.elementCount dataset.elementSize = some total) (small : total ≤ isizeMax)
    (empty : EmptyHeld build ctx file address dataset.elementSize dataset.shape slab caches)
    (out last : Bytes) :
    ReadsRuns build ctx file address dataset.elementSize (Answered file caches.io.isSome) walked out last ↔
      ReadsRuns build ctx file address dataset.elementSize (fun range => file.Holds range.1 range.2) walked out
        last := by
  have rank := (Hyperslab.within_of_validate same.valid).1.lengths.2
  unfold ReadsRuns
  refine exists_congr fun runs => exists_congr fun ranges => and_congr_right fun collected =>
    and_congr_right fun ranged => and_congr_left fun _ => forall₂_congr fun range member => ?_
  refine ⟨fun answered => answered.elim (fun nothing => ?_) id, .inr⟩
  obtain ⟨run, among, here⟩ := Outcome.exists_of_mem_mapM ranged range member
  obtain ⟨next, inside, rfl⟩ := Outcome.exists_of_mem_mapM collected run among
  obtain ⟨-, positive, -⟩ := run_range rank found fits small inside here
  have zero : dataset.elementSize = 0 := by
    by_contra some_
    exact absurd nothing.2 (Nat.pos_iff_ne_zero.mp (positive (Nat.pos_of_ne_zero some_)))
  exact empty nothing.1 zero walked runs ranges found collected ranged range member

/-- A read of a written contiguous dataset, in terms of the runs that are answered. -/
theorem contiguous_async_iff (layout : dataset.layout = .contiguous (some address) width) :
    (∃ after, readHyperslabAsyncWith build remote codecs dataset slab caches = (.ok raw, after)) ↔
      dataset.datatype.isDecodable = true ∧ ∃ total last walked,
        (checkedMul slab.elementCount dataset.elementSize = some total ∧ total ≤ isizeMax ∧
          forEachRun build dataset.shape slab = .ok walked) ∧
        ReadsRuns build ctx file address dataset.elementSize (Answered file caches.io.isSome) walked
          (List.replicate total 0) last ∧
        raw = ⟨nativeOrder dataset last dataset.elementSize, dataset.elementSize, slab.count⟩ := by
  have rank := (Hyperslab.within_of_validate same.valid).1.lengths.2
  have start (out : Bytes) : startBuffer dataset dataset.chunks slab out dataset.elementSize = out := by
    rw [startBuffer, selectionIsCovered, layout]
    rfl
  have stored (out : Bytes) : fetchStored build remote codecs dataset slab dataset.elementSize out =
      fetchContiguous build remote address out dataset.shape slab dataset.elementSize := by
    rw [fetchStored, layout]
  simp only [readHyperslabAsyncWith_eq_ok same.valid, start, stored]
  constructor
  · rintro ⟨after, decodable, total, last, fits, small, done, rfl⟩
    obtain ⟨walked, found, runs⟩ :=
      (fetchContiguous_iff same.answers same.batches same.base same.pages rank fits
      small _ _).mp (congrArg Prod.fst done)
    exact ⟨decodable, total, last, walked, ⟨fits, small, found⟩, runs, rfl⟩
  · rintro ⟨decodable, total, last, walked, ⟨fits, small, found⟩, runs, rfl⟩
    obtain ⟨after, done⟩ := fst_eq_ok.mpr
      ((fetchContiguous_iff same.answers same.batches same.base same.pages rank
      fits small _ _).mpr ⟨walked, found, runs⟩)
    exact ⟨after, decodable, total, last, fits, small, done, rfl⟩

theorem contiguous_direct_iff (layout : dataset.layout = .contiguous (some address) width) :
    (∃ after, readHyperslab build ctx codecs dataset slab ⟨none, none⟩ = (.ok raw, after)) ↔
      dataset.datatype.isDecodable = true ∧ ∃ total last walked,
        (checkedMul slab.elementCount dataset.elementSize = some total ∧ total ≤ isizeMax ∧
          forEachRun build dataset.shape slab = .ok walked) ∧
        ReadsRuns build ctx file address dataset.elementSize (fun range => file.Holds range.1 range.2) walked
          (List.replicate total 0) last ∧
        raw = ⟨nativeOrder dataset last dataset.elementSize, dataset.elementSize, slab.count⟩ := by
  have rank := (Hyperslab.within_of_validate same.valid).1.lengths.2
  have indexed : resolvedIndex dataset = .ok none := by rw [resolvedIndex, layout]
  have start (out : Bytes) : startBuffer dataset none slab out dataset.elementSize = out := by
    rw [startBuffer, selectionIsCovered, layout]
    rfl
  have stored (out : Bytes) : readStored build ctx codecs dataset none slab dataset.elementSize out =
      readContiguous build ctx address out dataset.shape slab dataset.elementSize := by
    rw [readStored, layout]
  simp only [readHyperslab_eq_ok same.valid indexed, start, stored]
  constructor
  · rintro ⟨after, decodable, total, last, fits, small, done, rfl⟩
    obtain ⟨walked, found, runs⟩ := (readContiguous_direct_iff same.serves rank fits small _ _).mp
      (congrArg Prod.fst done)
    exact ⟨decodable, total, last, walked, ⟨fits, small, found⟩, runs, rfl⟩
  · rintro ⟨decodable, total, last, walked, ⟨fits, small, found⟩, runs, rfl⟩
    obtain ⟨after, done⟩ := fst_eq_ok.mpr ((readContiguous_direct_iff same.serves rank fits small _ _).mpr
      ⟨walked, found, runs⟩)
    exact ⟨after, decodable, total, last, fits, small, done, rfl⟩

theorem contiguous_agree_iff (layout : dataset.layout = .contiguous (some address) width) :
    Agree build ctx remote codecs dataset slab caches ↔ (dataset.datatype.isDecodable = true →
      EmptyHeld build ctx file address dataset.elementSize dataset.shape slab caches) := by
  have rank := (Hyperslab.within_of_validate same.valid).1.lengths.2
  unfold Agree
  simp only [contiguous_async_iff same layout, contiguous_direct_iff same layout]
  constructor
  · intro agree decodable paged zero walked runs ranges found collected ranged
    have fits : checkedMul slab.elementCount dataset.elementSize = some 0 := by
      rw [zero, checkedMul, Nat.mul_zero, if_pos wordSize_pos]
    have answered : ∀ range ∈ ranges, Answered file caches.io.isSome (ctx.resolve range.1, range.2) := by
      intro range member
      obtain ⟨run, among, here⟩ := Outcome.exists_of_mem_mapM ranged range member
      obtain ⟨next, inside, rfl⟩ := Outcome.exists_of_mem_mapM collected run among
      exact .inl ⟨paged, ((run_range rank found fits (Nat.zero_le _) inside here).2.2 zero).1⟩
    -- With no bytes to place, the asynchronous read succeeds, and then so does the other.
    obtain ⟨-, total, last, walked', ⟨-, -, found'⟩, ⟨runs', ranges', collected', ranged', held, -⟩, -⟩ :=
      (agree _).mp ⟨decodable, 0, _, walked, ⟨fits, Nat.zero_le _, found⟩,
        ⟨runs, ranges, collected, ranged, answered, by rw [zero]; exact placeRuns_empty _ _⟩, rfl⟩
    cases found.symm.trans found'
    cases collected.symm.trans collected'
    cases ranged.symm.trans ranged'
    exact held
  · intro empty raw
    refine and_congr_right fun decodable => exists_congr fun total => exists_congr fun last =>
      exists_congr fun walked => and_congr_right fun known => and_congr_left fun _ => ?_
    exact readsRuns_iff same known.2.2 known.1 known.2.1 (empty decodable) _ _

/-- Where nothing has to be fetched, both reads do the same. -/
theorem agree_of_stored (indexed : resolvedIndex dataset = .ok none)
    (start : ∀ out, startBuffer dataset dataset.chunks slab out dataset.elementSize =
      startBuffer dataset none slab out dataset.elementSize)
    (stored : ∀ out, (fetchStored build remote codecs dataset slab dataset.elementSize out caches).1 =
      (readStored build ctx codecs dataset none slab dataset.elementSize out ⟨none, none⟩).1) :
    Agree build ctx remote codecs dataset slab caches := by
  intro raw
  simp only [readHyperslabAsyncWith_eq_ok same.valid, readHyperslab_eq_ok same.valid indexed, start]
  constructor
  · rintro ⟨after, decodable, total, last, fits, small, done, rfl⟩
    obtain ⟨later, done⟩ := fst_eq_ok.mpr ((stored _).symm.trans (congrArg Prod.fst done))
    exact ⟨later, decodable, total, last, fits, small, done, rfl⟩
  · rintro ⟨after, decodable, total, last, fits, small, done, rfl⟩
    obtain ⟨later, done⟩ := fst_eq_ok.mpr ((stored _).trans (congrArg Prod.fst done))
    exact ⟨later, decodable, total, last, fits, small, done, rfl⟩

theorem chunked_agree_iff {chunkDims : List Nat}
    (layout : dataset.layout = .chunked place chunkDims width index)
    (resolved : dataset.chunks = some chunks) :
    Agree build ctx remote codecs dataset slab caches ↔
      ((∃ raw, ReadsAlone build ctx codecs file dataset chunks chunkDims false slab raw) →
        AheadFine build ctx codecs file dataset chunks chunkDims slab caches) := by
  obtain ⟨starts, counts⟩ := (Hyperslab.within_of_validate same.valid).1.lengths
  obtain ⟨_, same', records, entries⟩ := same.resolved place chunkDims width index layout
  cases resolved.symm.trans same'
  have stored (out : Bytes) : fetchStored build remote codecs dataset slab dataset.elementSize out =
      fetchChunked build remote codecs dataset chunks chunkDims out slab dataset.elementSize := by
    simp only [fetchStored, layout, resolved]
  have sound : DatasetSound build ctx codecs file dataset chunks chunkDims false ⟨none, none⟩ :=
    fun _ _ => ⟨rfl, nofun, nofun, nofun⟩
  have direct (raw : RawData) : (∃ after, readHyperslab build ctx codecs dataset slab ⟨none, none⟩ =
      (.ok raw, after)) ↔ ReadsAlone build ctx codecs file dataset chunks chunkDims false slab raw := by
    rw [readHyperslab_ok_iff same.serves same.ranges records.sizes sound layout resolved same.valid]
    exact and_iff_left fun _ _ _ _ _ _ _ none => nomatch none
  have async (raw : RawData) : (∃ after, readHyperslabAsyncWith build remote codecs dataset slab caches =
      (.ok raw, after)) ↔ ReadsAlone build ctx codecs file dataset chunks chunkDims false slab raw ∧
        AheadFine build ctx codecs file dataset chunks chunkDims slab caches := by
    simp only [readHyperslabAsyncWith_eq_ok same.valid, stored, resolved]
    have whole (out last : Bytes) :=
      @fetchChunked_ok_iff build ctx remote codecs file dataset chunks chunkDims slab
      caches same.base same.serves same.answers same.batches records starts counts same.pages entries out last
    constructor
    · rintro ⟨after, decodable, total, last, fits, small, done, rfl⟩
      obtain ⟨decodedLen, dstStrides, chunkStrides, needed, planned, fine, plainly⟩ :=
        (whole _ _).mp ⟨after, done⟩
      refine ⟨⟨decodable, total, last, decodedLen, dstStrides, chunkStrides, needed, fits, small,
        planned, plainly, rfl⟩, fun decodedLen dstStrides chunkStrides needed end_ other ends => ?_⟩
      -- What a read works out first is determined, so one plan stands for all.
      cases planned.decoded.symm.trans other.decoded
      cases planned.needed.symm.trans other.needed
      exact fine end_ ends
    · rintro ⟨⟨decodable, total, last, decodedLen, dstStrides, chunkStrides, needed, fits, small,
        planned, plainly, rfl⟩, fine⟩
      obtain ⟨after, done⟩ := (whole _ _).mpr ⟨decodedLen, dstStrides, chunkStrides, needed, planned,
        fun end_ ends => fine _ _ _ _ end_ planned ends, plainly⟩
      exact ⟨after, decodable, total, last, fits, small, done, rfl⟩
  unfold Agree
  simp only [direct, async]
  constructor
  · rintro agree ⟨raw, alone⟩
    exact ((agree raw).mpr alone).2
  · exact fun fine raw => ⟨And.left, fun alone => ⟨alone, fine ⟨raw, alone⟩⟩⟩

/-- The asynchronous read returns what the synchronous one returns without caches exactly when what it asks for
beyond that is no obstacle. -/
theorem async_agrees_iff : Agree build ctx remote codecs dataset slab caches ↔
    AsyncFine build ctx codecs file dataset slab caches := by
  unfold AsyncFine
  split
  · next data layout =>
    refine iff_of_true (agree_of_stored same ?_ ?_ ?_) trivial
    · rw [resolvedIndex, layout]
    · intro out
      rw [startBuffer, startBuffer, selectionIsCovered, selectionIsCovered, layout]
    · intro out
      rw [fetchStored, readStored, layout]
      rfl
  · next layout =>
    refine iff_of_true (agree_of_stored same ?_ ?_ ?_) trivial
    · rw [resolvedIndex, layout]
    · intro out
      rw [startBuffer, startBuffer, selectionIsCovered, selectionIsCovered, layout]
    · intro out
      rw [fetchStored, readStored, layout]
      rfl
  · next address width layout => exact contiguous_agree_iff same layout
  · next place chunkDims width index layout =>
    obtain ⟨chunks, resolved, -⟩ := same.resolved place chunkDims width index layout
    rw [chunked_agree_iff same layout resolved]
    constructor
    · intro fine others also
      cases resolved.symm.trans also
      exact fine
    · exact fun fine => fine chunks resolved

end Whole

/-- The four bytes of a file, as an asynchronous source. -/
def fourRemote : AsyncCtx where
  source := syncAsAsync fourBytes.source
  baseAddress := 0
  io := .localFile

/-- A cache that holds the first of two chunks, and drops it when it is told to. -/
def firstHeld (keep : Nat → Bool) : ChunkCache where
  inner := { held := fun address => if address = 0 then some [1, 2] else none, keep :=
    fun call _ => keep call, calls := 0 }
  readahead := 0

theorem firstHeld_comparable {slab : Hyperslab} (valid : slab.validate twoChunks.shape = .ok ())
    (keep : Nat → Bool) :
    Comparable .debug fourBytes fourRemote .refusing ⟨[1, 2, 3, 4], by decide⟩ twoChunks slab
      ⟨some (firstHeld keep), none⟩ where
  valid := valid
  base := rfl
  serves := fileSource_serves _
  ranges := fileSource_servesRanges _
  answers := syncAsAsync_serves _
  batches := syncAsAsync_servesRanges _
  pages := nofun
  resolved := by
    intro place chunkDims width index layout
    cases layout
    refine ⟨_, rfl, ⟨by decide, by unfold Distinct; decide, by decide⟩, fun decodedLen decoded other same => ?_⟩
    cases same
    cases decoded
    intro address bytes found record member here
    simp only [firstHeld, Option.ite_none_right_eq_some, Option.some.injEq] at found
    obtain ⟨rfl, rfl⟩ := found
    simp only [List.mem_cons, List.not_mem_nil, or_false] at member
    rcases member with rfl | rfl
    · rfl
    · cases here

/-- A cache that drops nothing holds the first chunk until the copy, and the second one is fetched. -/
theorem async_agrees_kept : Agree .debug fourBytes fourRemote .refusing twoChunks ⟨[1], [2]⟩
    ⟨some (firstHeld fun _ => true), none⟩ := by
  refine (async_agrees_iff (firstHeld_comparable (by decide) fun _ => true)).mpr ?_
  intro chunks same _ decodedLen dstStrides chunkStrides needed end_ planned ends
  cases same
  have touched : neededChunks [⟨2, 0, [0], 0⟩, ⟨2, 0, [2], 2⟩] [2] ⟨[1], [2]⟩ 1 = .ok [0, 1] := rfl
  cases touched.symm.trans planned.needed
  cases Eq.trans (show some 1 = [0, 1].getLast? from rfl) ends
  cases planned.decoded
  have batch : fetchedBatch .debug [⟨2, 0, [0], 0⟩, ⟨2, 0, [2], 2⟩]
    ⟨some (firstHeld fun _ => true), none⟩ [0, 1] 1 =
      [⟨2, 0, [2], 2⟩] := rfl
  refine ⟨by decide, ?_, ?_, ?_⟩
  · rw [batch]
    decide
  · rw [batch]
    simp only [List.mem_singleton, forall_eq]
    rintro ⟨p, impossible⟩
    cases impossible
  · rw [batch]
    intro place record here
    match place, here with
    | 0, here =>
      cases here
      exact .inr ⟨_, rfl, rfl, fun _ _ => rfl⟩
    | 1, here =>
      cases here
      exact .inl List.mem_cons_self

/-- The first chunk is held when the batch is put together, and dropped before the copy. -/
theorem async_loses_held :
    Comparable .debug fourBytes fourRemote .refusing ⟨[1, 2, 3, 4], by decide⟩ twoChunks ⟨[0], [2]⟩
        ⟨some (firstHeld fun call => call = 0), none⟩ ∧
      readHyperslab .debug fourBytes .refusing twoChunks ⟨[0], [2]⟩ ⟨none, none⟩ =
        (.ok ⟨[1, 2], 1, [2]⟩, ⟨none, none⟩) ∧
      (readHyperslabAsyncWith .debug fourRemote .refusing twoChunks ⟨[0], [2]⟩
        ⟨some (firstHeld fun call => call = 0), none⟩).1 =
          .error (.malformed "chunk at [0] of /v was neither cached nor fetched") ∧
      ¬ Agree .debug fourBytes fourRemote .refusing twoChunks ⟨[0], [2]⟩
        ⟨some (firstHeld fun call => call = 0), none⟩ := by
  have direct : readHyperslab .debug fourBytes .refusing twoChunks ⟨[0], [2]⟩ ⟨none, none⟩ =
      (.ok ⟨[1, 2], 1, [2]⟩, ⟨none, none⟩) := rfl
  have lost : (readHyperslabAsyncWith .debug fourRemote .refusing twoChunks ⟨[0], [2]⟩
      ⟨some (firstHeld fun call => call = 0), none⟩).1 =
        .error (.malformed "chunk at [0] of /v was neither cached nor fetched") := rfl
  refine ⟨firstHeld_comparable (by decide) _, direct, lost, fun agree => ?_⟩
  obtain ⟨after, done⟩ := (agree _).mpr ⟨_, direct⟩
  rw [done] at lost
  cases lost

end Oxcdf.Read
