import Oxcdf.Read

/-! The asynchronous read of a hyperslab.

It fetches all it needs in one batch and copies afterwards. A chunk that the cache held
when the batch was put together is not fetched, and is looked up again for the copy.
-/

set_option autoImplicit false

namespace Oxcdf

open Foundation Foundation.Buffer

/-- Where an asynchronous read gets its bytes: the source, the base address of the file
in it, and how neighbouring ranges are merged. -/
structure AsyncCtx where
  source : AsyncByteSource
  baseAddress : Nat
  io : IoConfig

/-- `Superblock::resolve`. -/
def AsyncCtx.resolve (ctx : AsyncCtx) (address : Nat) : Nat := wrappingAdd ctx.baseAddress address

namespace Read

variable (build : Build) (ctx : AsyncCtx)

/-- Fetch ranges, through the page cache when there is one. -/
def fetchBytes (ranges : List (Nat × Nat)) : Session Caches Error (List Bytes) :=
  Caches.throughIo (ranges.mapM fun range => IoCache.readAsync ctx.source range.1 range.2) do
    let plan ← Io.plan build ranges ctx.io
    let fetched ← ctx.source.readRanges (plan.map fun request => (request.offset, request.len))
    Io.scatter build plan fetched ranges.length

section Dense

/-- The range of the source that one run is read from. -/
def fetchRange (address elementSize : Nat) (run : ElementRun) : Code (Nat × Nat) := do
  let skip ← build.mul run.src elementSize
  let at_ ← build.add address skip
  let len ← build.mul run.run elementSize
  .ok (ctx.resolve at_, len)

/-- The asynchronous read computes the same range of a run, and resolves it. -/
theorem fetchRange_eq (address elementSize : Nat) (run : ElementRun) :
    fetchRange build ctx address elementSize run =
      (fun range => (ctx.resolve range.1, range.2)) <$> runRange build address elementSize run := by
  unfold fetchRange runRange Build.mul Build.add
  have inner (skip : Nat) := Build.word_bind_comm build (address + skip) (run.run * elementSize)
    fun at_ len => (.ok (ctx.resolve at_, len) : Code (Nat × Nat))
  simp only [inner]
  rw [Build.word_bind_comm build (run.src * elementSize) (run.run * elementSize)
    fun skip len => build.word (address + skip) >>= fun at_ => .ok (ctx.resolve at_, len)]
  simp only [map_bind, Outcome.map_ok]

def shortRead : Error := .malformed "contiguous read returned fewer bytes than requested"

def placeFetched (elementSize : Nat) (run : ElementRun) (bytes out : Bytes) : Code Bytes := do
  let db ← build.mul run.dst elementSize
  let len ← build.mul run.run elementSize
  if bytes.length < len then .error shortRead
  else
    let stop ← build.add db len
    let piece ← range bytes 0 len
    copyInto out db stop piece

def placeRuns (elementSize : Nat) : List (ElementRun × Bytes) → Bytes → Code Bytes
  | [], out => .ok out
  | (run, bytes) :: rest, out => do
    let out ← placeFetched build elementSize run bytes out
    placeRuns elementSize rest out

/-- Gather the runs of a contiguous dataset, fetch them all at once and place them. -/
def fetchContiguous (address : Nat) (out : Bytes) (shape : List Nat) (slab : Hyperslab)
    (elementSize : Nat) : Session Caches Error Bytes := do
  let walked ← Session.lift (forEachRun build shape slab)
  let runs ← Session.lift (walked.mapM id)
  let ranges ← Session.lift (runs.mapM (fetchRange build ctx address elementSize))
  let blobs ← fetchBytes build ctx ranges
  Session.lift (placeRuns build elementSize (runs.zip blobs) out)

end Dense

section Chunked

/-- `intersects` on the first axes of a chunk, which need not have as many. -/
def intersectsOn : Nat → List Nat → List Nat → List Nat → List Nat → Code Bool
  | 0, _, _, _, _ => .ok true
  | rank + 1, offset :: offsets, width :: widths, s :: start, c :: count =>
    if max offset s < min (saturatingAdd offset width) (s + c) then
      intersectsOn rank offsets widths start count
    else .ok false
  | _, _, _, _, _ => .panic .index

/-- Whether a chunk at this address is one that the read needs. -/
def isNeeded (chunkShape : List Nat) (slab : Hyperslab) (rank address : Nat) :
    List ChunkRecord → Code Bool
  | [] => .ok false
  | record :: chunks =>
    if record.address = address then do
      let needed ← intersectsOn rank record.offset chunkShape slab.start slab.count
      if needed then .ok true else isNeeded chunkShape slab rank address chunks
    else isNeeded chunkShape slab rank address chunks

/-- The indices of the chunks a read touches. A chunk of another rank is passed over. -/
def touchedChunks (chunks : List ChunkRecord) (chunkShape : List Nat) (slab : Hyperslab) (rank : Nat) :
    List Nat :=
  (chunks.zipIdx.filter fun indexed => indexed.1.offset.length = rank &&
    intersects indexed.1.offset chunkShape slab.start slab.count).map Prod.snd

/-- The candidates that are stored and not yet decoded. Without a cache none is. -/
def wantedChunks (records : List ChunkRecord) : Session Caches Error (List ChunkRecord) :=
  onChunkCache (records.filter fun record => record.size ≠ 0) (uncached records)

/-- The chunks to fetch in one batch: the touched ones, then the read-ahead window. -/
def gatherWanted (chunks : List ChunkRecord) (needed : List Nat) :
    Session Caches Error (List ChunkRecord) :=
  match needed.getLast? with
  | none => pure []
  | some last => do
    let lookahead ← Session.run fun caches => ((caches.chunk.map ChunkCache.readahead).getD 0, caches)
    let candidates ← Session.lift (prefetchCandidates build chunks.length lookahead last needed)
    wantedChunks (candidates.filterMap fun i => chunks[i]?)

/-- Decode what was fetched, into the cache and into a table of this read. A chunk that
does not decode fails the read only if the read needs it. -/
def decodeWanted (codecs : Codecs) (dataset : DatasetIndex) (chunks : List ChunkRecord)
    (chunkShape : List Nat) (slab : Hyperslab) (decodedLen : Nat) :
    List (ChunkRecord × Bytes) → List (Nat × Bytes) → Session Caches Error (List (Nat × Bytes))
  | [], fetched => pure fetched
  | (record, raw) :: rest, fetched =>
    match Filters.decodeChunk build codecs dataset.pipeline record.filterMask raw decodedLen with
    | .ok decoded => do
      onChunkCache () (Session.modify fun cache =>
        { cache with inner := cache.inner.insert record.address decoded })
      decodeWanted codecs dataset chunks chunkShape slab decodedLen rest
        ((record.address, decoded) :: fetched)
    | .error e => do
      let needed ← Session.lift (isNeeded chunkShape slab dataset.shape.length record.address chunks)
      if needed then Session.throw e
      else decodeWanted codecs dataset chunks chunkShape slab decodedLen rest fetched
    | .panic p => Session.lift (.panic p)

def notFetched (dataset : DatasetIndex) (record : ChunkRecord) : Error :=
  .malformed s!"chunk at {record.offset} of {dataset.path} was neither cached nor fetched"

/-- The part of the selection that lies in a chunk, on each axis. -/
def overlap : List Nat → List Nat → List Nat → List Nat → List (Nat × Nat)
  | offset :: offsets, width :: widths, s :: start, c :: count =>
    (max offset s, min (saturatingAdd offset width) (s + c)) :: overlap offsets widths start count
  | _, _, _, _ => []

def copyChunk (out decoded : Bytes) (record : ChunkRecord) (chunkShape chunkStrides : List Nat)
    (slab : Hyperslab) (dstStrides : List Nat) (elementSize : Nat) : Code Bytes := do
  let part := overlap record.offset chunkShape slab.start slab.count
  let writes ← chunkWrites build decoded record.offset part chunkStrides dstStrides slab elementSize
  storeEach writes out

/-- A decoded chunk, out of the cache or out of what was fetched. -/
def hitOrFetched (dataset : DatasetIndex) (fetched : List (Nat × Bytes)) (record : ChunkRecord) :
    Option Bytes → Code Bytes
  | some decoded => .ok decoded
  | none => Outcome.ofOption (notFetched dataset record) (fetched.lookup record.address)

def copyFetched (dataset : DatasetIndex) (decodedLen : Nat)
    (chunkShape chunkStrides dstStrides : List Nat) (slab : Hyperslab) (elementSize : Nat)
    (fetched : List (Nat × Bytes)) : List ChunkRecord → Bytes → Session Caches Error Bytes
  | [], out => pure out
  | record :: records, out => do
    let hit ← onChunkCache none (Session.run fun cache =>
      let (found, inner) := cache.inner.get record.address
      (found, { cache with inner }))
    let decoded ← Session.lift (hitOrFetched dataset fetched record hit)
    if decoded.length < decodedLen then
      Session.throw (shortChunk dataset record decoded.length decodedLen)
    else
      let out ← Session.lift
        (copyChunk build out decoded record chunkShape chunkStrides slab dstStrides elementSize)
      copyFetched dataset decodedLen chunkShape chunkStrides dstStrides slab elementSize fetched
        records out

/-- Fetch a batch of chunks, if there is any, and decode them. -/
def fetchWanted (codecs : Codecs) (dataset : DatasetIndex) (chunks : List ChunkRecord)
    (chunkDims : List Nat) (slab : Hyperslab) (decodedLen : Nat) (wanted : List ChunkRecord) :
    Session Caches Error (List (Nat × Bytes)) :=
  if wanted = [] then pure []
  else do
    let blobs ← fetchBytes build ctx
      (wanted.map fun record => (ctx.resolve record.address, record.size))
    decodeWanted build codecs dataset chunks chunkDims slab decodedLen (wanted.zip blobs) []

/-- Read a selection out of a chunked dataset, all of it fetched at once. -/
def fetchChunked (codecs : Codecs) (dataset : DatasetIndex) (chunks : List ChunkRecord)
    (chunkDims : List Nat) (out : Bytes) (slab : Hyperslab) (elementSize : Nat) :
    Session Caches Error Bytes := do
  if chunkDims.length ≠ dataset.shape.length then Session.throw (rankMismatch dataset chunkDims)
  else
    let decodedLen ← Session.lift (decodedChunkLen chunkDims elementSize dataset.path)
    let needed := touchedChunks chunks chunkDims slab dataset.shape.length
    let wanted ← gatherWanted build chunks needed
    let fetched ← fetchWanted build ctx codecs dataset chunks chunkDims slab decodedLen wanted
    let dstStrides ← Session.lift (strides build slab.count)
    let chunkStrides ← Session.lift (strides build chunkDims)
    copyFetched build dataset decodedLen chunkDims chunkStrides dstStrides slab elementSize fetched
      (needed.filterMap fun i => chunks[i]?) out

end Chunked

def unresolvedIndex (dataset : DatasetIndex) : Error :=
  .badRequest s!"dataset {dataset.path} has no resolved chunk index; read it through `AsyncNetcdfFile`, which resolves the index itself"

/-- Fetch the stored data of a selection and copy it over a buffer. -/
def fetchStored (codecs : Codecs) (dataset : DatasetIndex) (slab : Hyperslab) (elementSize : Nat)
    (out : Bytes) : Session Caches Error Bytes :=
  match dataset.layout with
  | .compact data => Session.lift (copyFromDense build out data dataset.shape slab elementSize)
  | .contiguous none _ => pure out
  | .contiguous (some address) _ =>
    fetchContiguous build ctx address out dataset.shape slab elementSize
  | .chunked _ chunkDims _ _ =>
    match dataset.chunks with
    | none => Session.throw (unresolvedIndex dataset)
    | some chunks => fetchChunked build ctx codecs dataset chunks chunkDims out slab elementSize

def readHyperslabAsyncWith (codecs : Codecs) (dataset : DatasetIndex) (slab : Hyperslab) :
    Session Caches Error RawData := do
  Session.lift (slab.validate dataset.shape)
  if !dataset.datatype.isDecodable then Session.throw (undecodable dataset)
  else
    let elementSize := dataset.elementSize
    let total ← Session.lift (Outcome.ofOption tooLarge (checkedMul slab.elementCount elementSize))
    let out ← Session.lift (zeroed total)
    let out := startBuffer dataset dataset.chunks slab out elementSize
    let out ← fetchStored build ctx codecs dataset slab elementSize out
    let out := nativeOrder dataset out elementSize
    pure { bytes := out, elementSize, shape := slab.count }

end Read

end Oxcdf
