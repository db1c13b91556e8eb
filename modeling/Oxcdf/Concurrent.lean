import Oxcdf.Foundation.Interleaving
import Oxcdf.Index.Chunks
import Oxcdf.Read

/-! Reads of one open file by many threads.

The threads share its caches and the chunk indexes that have been resolved. A call on
one of these is a single step, and no lock holds two of them together. All else that
a read does is its own.
-/

set_option autoImplicit false

namespace Oxcdf

open Foundation Foundation.Buffer

variable {δ : Type}

inductive SharedCall (δ : Type) where
  | page (index : Nat)
  | putPage (index : Nat) (bytes : Bytes)
  | containsChunk (address : Nat)
  | chunk (address : Nat)
  | insertChunk (address : Nat) (bytes : Bytes)
  | index (dataset : δ)
  | setIndex (dataset : δ) (resolved : Option (List ChunkRecord))

def SharedCall.Value : SharedCall δ → Type
  | .page _ => Option Bytes
  | .putPage _ _ => Unit
  | .containsChunk _ => Bool
  | .chunk _ => Option Bytes
  | .insertChunk _ _ => Unit
  | .index _ => Option (Option (List ChunkRecord))
  | .setIndex _ _ => Unit

abbrev sharedCalls (δ : Type) : Signature := ⟨SharedCall δ, SharedCall.Value⟩

/-- The caches of an open file, and the chunk indexes of its datasets where they are resolved. -/
structure Sharing (δ : Type) where
  caches : Caches
  indexes : δ → Option (Option (List ChunkRecord))

namespace Sharing

def onCaches {α : Type} (step : Session Caches Error α) : Session (Sharing δ) Error α := fun sharing =>
  let (outcome, caches) := step sharing.caches
  (outcome, { sharing with caches })

/-- A cell that is set keeps what it holds. -/
def setIndex [DecidableEq δ] (sharing : Sharing δ) (dataset : δ) (resolved : Option (List ChunkRecord)) :
    Sharing δ :=
  { sharing with
    indexes := Function.update sharing.indexes dataset (some ((sharing.indexes dataset).getD resolved)) }

def answer [DecidableEq δ] : Handler Error (sharedCalls δ) (Sharing δ)
  | .page index => onCaches (Caches.throughIo (Session.run fun cache => cache.page index) (.ok none))
  | .putPage index bytes =>
    onCaches (Caches.throughIo (Session.modify fun cache => cache.putPage index bytes) (.ok ()))
  | .containsChunk address =>
    onCaches (Read.onChunkCache false (Session.run fun cache => cache.contains address))
  | .chunk address => onCaches (Read.onChunkCache none (Session.run fun cache => cache.get address))
  | .insertChunk address bytes =>
    onCaches (Read.onChunkCache () (Session.modify fun cache => cache.insert address bytes))
  | .index dataset => fun sharing => (.ok (sharing.indexes dataset), sharing)
  | .setIndex dataset resolved => fun sharing => (.ok (), sharing.setIndex dataset resolved)

end Sharing

/-- An open file as its readers see it. Of the caches they know without a call which there are,
the size of a page and how far to read ahead. -/
structure OpenFile (δ : Type) where
  view : View
  source : ByteSource
  io : IoConfig
  codecs : Codecs
  own : Caches
  datasets : δ → DatasetIndex

def OpenFile.ctx (file : OpenFile δ) : Ctx := ⟨file.source, file.view.baseAddress, file.io⟩

/-- What one thread does, up to its calls on what is shared. -/
abbrev Thread (δ α : Type) := Dialogue Error (sharedCalls δ) α

namespace Thread

def lift {α : Type} (outcome : Code α) : Thread δ α := Dialogue.lift outcome

def throw {α : Type} (e : Error) : Thread δ α := lift (.error e)

def page (index : Nat) : Thread δ (Option Bytes) := Dialogue.query (I := sharedCalls δ) (.page index)

def putPage (index : Nat) (bytes : Bytes) : Thread δ Unit :=
  Dialogue.query (I := sharedCalls δ) (.putPage index bytes)

def containsChunk (address : Nat) : Thread δ Bool :=
  Dialogue.query (I := sharedCalls δ) (.containsChunk address)

def chunk (address : Nat) : Thread δ (Option Bytes) := Dialogue.query (I := sharedCalls δ) (.chunk address)

def insertChunk (address : Nat) (bytes : Bytes) : Thread δ Unit :=
  Dialogue.query (I := sharedCalls δ) (.insertChunk address bytes)

def index (dataset : δ) : Thread δ (Option (Option (List ChunkRecord))) :=
  Dialogue.query (I := sharedCalls δ) (.index dataset)

def setIndex (dataset : δ) (resolved : Option (List ChunkRecord)) : Thread δ Unit :=
  Dialogue.query (I := sharedCalls δ) (.setIndex dataset resolved)

end Thread

namespace Concurrent

open Thread

section Pages

variable (self : IoCache)

/-- Whatever of the pages from `first` on is already held. -/
def cached (first : Nat) : Nat → Thread δ (List (Option Bytes))
  | 0 => pure []
  | count + 1 => do
    let found ← page first
    let others ← cached (first + 1) count
    pure (found :: others)

/-- Split a fetched run into pages and record them. -/
def storeRun (start first : Nat) (bytes : Bytes) :
    List Nat → List (Option Bytes) → Thread δ (List (Option Bytes))
  | [], pages => pure pages
  | index :: indices, pages =>
    let at_ := (index - start) * self.pageSize
    if bytes.length ≤ at_ then pure pages
    else do
      let page := slice bytes at_ (min self.pageSize (bytes.length - at_))
      putPage index page
      storeRun start first bytes indices (pages.set (index - first) (some page))

def fetchRuns (fetch : Nat → Nat → Code Bytes) (size first : Nat) :
    List (Nat × Nat) → List (Option Bytes) → Thread δ (List (Option Bytes))
  | [], pages => pure pages
  | (start, stop) :: runs, pages => do
    let (begin, want) := self.runExtent start stop size
    let bytes ← lift (fetch begin want)
    let pages ← storeRun self start first bytes (List.range' start (stop + 1 - start)) pages
    fetchRuns fetch size first runs pages

/-- `IoCache::read` and `IoCache::read_async`. -/
def readThrough (fetch : Nat → Nat → Code Bytes) (size offset len : Nat) : Thread δ Bytes := do
  match ← lift (self.bounds size offset len) with
  | none => pure []
  | some (first, last) =>
    let pages ← cached first (last + 1 - first)
    let pages ← fetchRuns self fetch size first (IoCache.missingRuns pages first none) pages
    lift (self.assemble offset len first pages)

end Pages

variable (build : Build) (file : OpenFile δ)

section Context

/-- `Ctx::read`. -/
def read (address len : Nat) : Thread δ Bytes :=
  let offset := file.ctx.resolve address
  match file.own.io with
  | some self => readThrough self file.source.readVec file.source.size offset len
  | none => lift (file.source.readVec offset len)

/-- `Ctx::read_ranges`. -/
def readRanges (ranges : List (Nat × Nat)) : Thread δ (List Bytes) :=
  let resolved := ranges.map fun range => (file.ctx.resolve range.1, range.2)
  match file.own.io with
  | some self =>
    resolved.mapM fun range => readThrough self file.source.readVec file.source.size range.1 range.2
  | none => lift (file.ctx.readMerged build resolved)

end Context

section Dense

def readRuns (address elementSize : Nat) : List (Code Read.ElementRun) → Bytes → Thread δ Bytes
  | [], out => pure out
  | next :: runs, out => do
    let run ← lift next
    let (at_, len) ← lift (Read.runRange build address elementSize run)
    let bytes ← read file at_ len
    let out ← lift (Read.placeRun build elementSize run len bytes out)
    readRuns address elementSize runs out

def readContiguous (address : Nat) (out : Bytes) (shape : List Nat) (slab : Hyperslab) (elementSize : Nat) :
    Thread δ Bytes := do
  let runs ← lift (Read.forEachRun build shape slab)
  readRuns build file address elementSize runs out

end Dense

section Chunked

/-- The candidates that are stored and not yet decoded. -/
def uncached : List ChunkRecord → Thread δ (List ChunkRecord)
  | [] => pure []
  | record :: rest =>
    if record.size = 0 then uncached rest
    else do
      let held ← containsChunk record.address
      if held then uncached rest
      else do
        let others ← uncached rest
        pure (record :: others)

def insertDecoded (dataset : DatasetIndex) (decodedLen : Nat) : List (ChunkRecord × Bytes) → Thread δ Unit
  | [] => pure ()
  | (record, raw) :: rest =>
    match Filters.decodeChunk build file.codecs dataset.pipeline record.filterMask raw decodedLen with
    | .ok decoded => do
      insertChunk record.address decoded
      insertDecoded dataset decodedLen rest
    | .error _ => insertDecoded dataset decodedLen rest
    | .panic p => lift (.panic p)

def prefetchChunks (dataset : DatasetIndex) (chunks : List ChunkRecord) (needed : List Nat)
    (decodedLen : Nat) : Thread δ Unit :=
  match file.own.chunk, needed.getLast? with
  | some self, some last => do
    let candidates ← lift (Read.prefetchCandidates build chunks.length self.readahead last needed)
    let wanted ← uncached (candidates.filterMap fun i => chunks[i]?)
    if wanted = [] then pure ()
    else do
      let blobs ← readRanges build file (wanted.map fun record => (record.address, record.size))
      insertDecoded build file dataset decodedLen (wanted.zip blobs)
  | _, _ => pure ()

/-- `ChunkCache::get_or_decode`. -/
def getOrDecode (address : Nat) (decode : Thread δ Bytes) : Thread δ Bytes := do
  match ← chunk address with
  | some hit => pure hit
  | none => do
    let decoded ← decode
    insertChunk address decoded
    pure decoded

def decodeStored (dataset : DatasetIndex) (decodedLen : Nat) (record : ChunkRecord) : Thread δ Bytes := do
  let raw ← read file record.address record.size
  lift (Filters.decodeChunk build file.codecs dataset.pipeline record.filterMask raw decodedLen)

/-- One decoded chunk, out of the cache if there is one. -/
def fetchDecoded (dataset : DatasetIndex) (decodedLen : Nat) (record : ChunkRecord) : Thread δ Bytes :=
  match file.own.chunk with
  | some _ => getOrDecode record.address (decodeStored build file dataset decodedLen record)
  | none => decodeStored build file dataset decodedLen record

/-- Fetch, decode and copy the needed chunks, one after the other. -/
def copyChunks (dataset : DatasetIndex) (decodedLen : Nat) (chunkShape chunkStrides dstStrides : List Nat)
    (slab : Hyperslab) (elementSize : Nat) : List ChunkRecord → Bytes → Thread δ Bytes
  | [], out => pure out
  | record :: records, out =>
    match Read.clip record.offset chunkShape slab.start slab.count with
    | none =>
      copyChunks dataset decodedLen chunkShape chunkStrides dstStrides slab elementSize records out
    | some part => do
      let decoded ← fetchDecoded build file dataset decodedLen record
      if decoded.length < decodedLen then
        throw (Read.shortChunk dataset record decoded.length decodedLen)
      else
        let writes ← lift
          (Read.chunkWrites build decoded record.offset part chunkStrides dstStrides slab elementSize)
        let out ← lift (storeEach writes out)
        copyChunks dataset decodedLen chunkShape chunkStrides dstStrides slab elementSize records out

def readChunked (dataset : DatasetIndex) (chunks : List ChunkRecord) (chunkDims : List Nat) (out : Bytes)
    (slab : Hyperslab) (elementSize : Nat) : Thread δ Bytes := do
  let rank := dataset.shape.length
  if chunkDims.length ≠ rank then throw (Read.rankMismatch dataset chunkDims)
  else
    let dstStrides ← lift (Read.strides build slab.count)
    let decodedLen ← lift (Read.decodedChunkLen chunkDims elementSize dataset.path)
    let chunkStrides ← lift (Read.strides build chunkDims)
    let needed ← lift (Read.neededChunks chunks chunkDims slab rank)
    prefetchChunks build file dataset chunks needed decodedLen
    copyChunks build file dataset decodedLen chunkDims chunkStrides dstStrides slab elementSize
      (needed.filterMap fun i => chunks[i]?) out

end Chunked

section Resolving

/-- `Option::expect`. -/
def expect {α : Type} : Option α → Code α
  | some a => .ok a
  | none => .panic .index

/-- `DatasetIndex::chunks`: the chunk index, resolved on first use. Two threads that race both
walk it, and the cell keeps what the first of them stores. -/
def chunks (dataset : δ) : Thread δ (Option (List ChunkRecord)) := do
  match ← index dataset with
  | some resolved => pure resolved
  | none => do
    let resolved ← lift ((file.datasets dataset).resolveChunks build file.view)
    setIndex dataset resolved
    lift (expect (← index dataset))

def prepare (dataset : δ) : Thread δ Unit := do
  let _ ← chunks build file dataset
  pure ()

def isPrepared (dataset : δ) : Thread δ Bool := do
  let resolved ← index dataset
  pure resolved.isSome

/-- The chunk index that a read needs: that of a chunked dataset. -/
def neededIndex (dataset : δ) : Thread δ (Option (List ChunkRecord)) :=
  match (file.datasets dataset).layout with
  | .chunked .. => do
    match ← chunks build file dataset with
    | some chunks => pure (some chunks)
    | none => throw Read.noChunkIndex
  | _ => pure none

end Resolving

/-- Copy the stored data of a selection over a buffer. -/
def readStored (dataset : DatasetIndex) (chunks : Option (List ChunkRecord)) (slab : Hyperslab)
    (elementSize : Nat) (out : Bytes) : Thread δ Bytes :=
  match dataset.layout with
  | .compact data => lift (Read.copyFromDense build out data dataset.shape slab elementSize)
  | .contiguous none _ => pure out
  | .contiguous (some address) _ => readContiguous build file address out dataset.shape slab elementSize
  | .chunked _ chunkDims _ _ =>
    match chunks with
    | none => throw Read.noChunkIndex
    | some chunks => readChunked build file dataset chunks chunkDims out slab elementSize

def readHyperslab (dataset : δ) (slab : Hyperslab) : Thread δ RawData := do
  let entry := file.datasets dataset
  lift (slab.validate entry.shape)
  if !entry.datatype.isDecodable then throw (Read.undecodable entry)
  else
    let elementSize := entry.elementSize
    let total ← lift (Outcome.ofOption Read.tooLarge (checkedMul slab.elementCount elementSize))
    let chunks ← neededIndex build file dataset
    let out ← lift (zeroed total)
    let out := Read.startBuffer entry chunks slab out elementSize
    let out ← readStored build file entry chunks slab elementSize out
    let out := Read.nativeOrder entry out elementSize
    pure { bytes := out, elementSize, shape := slab.count }

end Concurrent

end Oxcdf
