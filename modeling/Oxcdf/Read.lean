import Oxcdf.Context
import Oxcdf.Dataset
import Oxcdf.Foundation.RowMajor

/-! Reading a hyperslab of a dataset.

A dense dataset is read as runs that are contiguous on both sides; a chunked one
chunk by chunk, through a cache of decoded chunks when there is one. The output
starts from the fill value unless stored data covers all of it.
-/

set_option autoImplicit false

namespace Oxcdf

open Foundation Foundation.Buffer

/-- A block read from a dataset, in native byte order. -/
structure RawData where
  bytes : Bytes
  elementSize : Nat
  shape : List Nat
  deriving DecidableEq, Repr

namespace Read

variable (build : Build)

section Covered

/-- The grid cells that a selection touches, as their first index and their number
on each axis. There is none when the grid holds more cells than the index holds
chunks. -/
def gridBlock (chunks : Nat) : List Nat → List Nat → List Nat → Nat → Option (List (Nat × Nat) × Nat)
  | width :: widths, s :: start, c :: count, cells =>
    if width = 0 then none
    else
      let lo := s / width
      let hi := (s + c - 1) / width
      let span := hi - lo + 1
      match checkedMul cells span with
      | some n =>
        if n ≤ chunks then
          (gridBlock chunks widths start count n).map fun block => ((lo, span) :: block.1, block.2)
        else none
      | none => none
  | _, _, _, cells => some ([], cells)

/-- The position of a chunk in the block of cells, when it lies on the grid and in
the block. -/
def blockCell : List Nat → List Nat → List (Nat × Nat) → Nat → Option Nat
  | offset :: offsets, width :: widths, (first, span) :: block, cell =>
    if offset % width ≠ 0 then none
    else
      let index := offset / width
      if index < first ∨ index ≥ first + span then none
      else blockCell offsets widths block (cell * span + (index - first))
  | _, _, _, cell => some cell

/-- Mark the cells of the stored chunks until none is missing. -/
def markCells (chunkShape : List Nat) (block : List (Nat × Nat)) (rank : Nat) :
    List ChunkRecord → List Bool → Nat → Bool
  | [], _, _ => false
  | record :: chunks, seen, missing =>
    -- Never written, or not this dataset's shape.
    if record.size = 0 ∨ record.offset.length ≠ rank then
      markCells chunkShape block rank chunks seen missing
    else
      match blockCell record.offset chunkShape block 0 with
      | none => markCells chunkShape block rank chunks seen missing
      | some cell =>
        if seen.getD cell true then markCells chunkShape block rank chunks seen missing
        else if missing - 1 = 0 then true
        else markCells chunkShape block rank chunks (seen.set cell true) (missing - 1)

def chunksCover (chunks : List ChunkRecord) (chunkShape : List Nat) (slab : Hyperslab) (rank : Nat) :
    Bool :=
  if slab.elementCount = 0 then true
  else
    match gridBlock chunks.length chunkShape slab.start slab.count 1 with
    | none => false
    | some (block, cells) => markCells chunkShape block rank chunks (List.replicate cells false) cells

/-- Whether the data a read is about to copy covers every byte of its output. -/
def selectionIsCovered (dataset : DatasetIndex) (chunks : Option (List ChunkRecord))
    (slab : Hyperslab) : Bool :=
  match dataset.layout with
  | .compact _ => true
  | .contiguous address _ => address.isSome
  | .chunked _ chunkDims _ _ =>
    let rank := dataset.shape.length
    if rank = 0 ∨ chunkDims.length ≠ rank then false
    else chunks.any fun chunks => chunksCover chunks chunkDims slab rank

end Covered

section Runs

/-- Row-major strides, in elements, for a shape. -/
def strides (shape : List Nat) : Code (List Nat) := stridesOf build shape

/-- A block that is contiguous in the dataset and in the output: the elements it
starts at, and its length. -/
structure ElementRun where
  src : Nat
  dst : Nat
  run : Nat
  deriving DecidableEq, Repr

/-- Grow a run outwards while each trailing axis is taken in full. -/
def growRun (slab : Hyperslab) (shape : List Nat) : Nat → Nat
  | 0 => 0
  | first + 1 =>
    if slab.start.getD (first + 1) 0 = 0 ∧ slab.count.getD (first + 1) 0 = shape.getD (first + 1) 0
    then growRun slab shape first
    else first + 1

/-- Walk every contiguous run of the selection. -/
def forEachRun (shape : List Nat) (slab : Hyperslab) : Code (List (Code ElementRun)) :=
  let rank := shape.length
  if rank = 0 then .ok [.ok { src := 0, dst := 0, run := 1 }]
  else if slab.elementCount = 0 then .ok []
  else do
    let srcStrides ← strides build shape
    let dstStrides ← strides build slab.count
    let first := growRun slab shape (rank - 1)
    let run := elementCount (slab.count.drop first)
    if run = 0 then .ok []
    else
      let box := slab.count.take first
      .ok ((RowMajor.orbit box (elementCount box) (RowMajor.origin box)).map fun index => do
        let (src, dst) ← position build slab.start index srcStrides dstStrides (0, 0)
        let lead ← build.mul (slab.start.getD first 0) (srcStrides.getD first 0)
        let src ← build.add src lead
        .ok { src, dst, run })

end Runs

section Dense

def shortData : Error := .malformed "stored data is shorter than the dataset's shape implies"

/-- The copy of one run out of an image of the whole dataset. -/
def denseWrite (src : Bytes) (elementSize : Nat) (run : ElementRun) : Code (Write UInt8) := do
  let sb ← build.mul run.src elementSize
  let db ← build.mul run.dst elementSize
  let len ← build.mul run.run elementSize
  let stop ← build.add sb len
  if stop > src.length then .error shortData
  else do
    let _ ← build.add db len
    let bytes ← range src sb stop
    .ok { start := db, entries := bytes }

/-- Copy a selection out of an in-memory image of the whole dataset. -/
def copyFromDense (out src : Bytes) (shape : List Nat) (slab : Hyperslab) (elementSize : Nat) :
    Code Bytes := do
  let runs ← forEachRun build shape slab
  storeEach (runs.map fun next => next >>= denseWrite build src elementSize) out

/-- One run of a contiguous dataset: the address it is read at, and its length. -/
def runRange (address elementSize : Nat) (run : ElementRun) : Code (Nat × Nat) := do
  let len ← build.mul run.run elementSize
  let skip ← build.mul run.src elementSize
  let at_ ← build.add address skip
  .ok (at_, len)

def placeRun (elementSize : Nat) (run : ElementRun) (len : Nat) (bytes out : Bytes) : Code Bytes := do
  let db ← build.mul run.dst elementSize
  let stop ← build.add db len
  copyInto out db stop bytes

def readRuns (ctx : Ctx) (address elementSize : Nat) :
    List (Code ElementRun) → Bytes → Session Caches Error Bytes
  | [], out => pure out
  | next :: runs, out => do
    let run ← Session.lift next
    let (at_, len) ← Session.lift (runRange build address elementSize run)
    let bytes ← ctx.read at_ len
    let out ← Session.lift (placeRun build elementSize run len bytes out)
    readRuns ctx address elementSize runs out

/-- Read a selection out of a contiguous dataset, one run per read. -/
def readContiguous (ctx : Ctx) (address : Nat) (out : Bytes) (shape : List Nat) (slab : Hyperslab)
    (elementSize : Nat) : Session Caches Error Bytes := do
  let runs ← Session.lift (forEachRun build shape slab)
  readRuns build ctx address elementSize runs out

end Dense

section Chunked

def decodedChunkLen (chunkShape : List Nat) (elementSize : Nat) (what : String) : Code Nat :=
  Outcome.ofOption
    (.malformed s!"one chunk of dataset {what} claims more bytes than this reader can hold")
    (checkedMul (elementCount chunkShape) elementSize)

/-- Whether a chunk overlaps the selection. Validation bounds the far edge of the
selection, and the far edge of the chunk saturates. -/
def intersects : List Nat → List Nat → List Nat → List Nat → Bool
  | offset :: offsets, width :: widths, s :: start, c :: count =>
    max offset s < min (saturatingAdd offset width) (s + c) && intersects offsets widths start count
  | _, _, _, _ => true

def wrongRank : Error := .malformed "chunk index entry has the wrong rank"

/-- The indices of the chunks a read touches. -/
def neededChunks (chunks : List ChunkRecord) (chunkShape : List Nat) (slab : Hyperslab) (rank : Nat) :
    Code (List Nat) :=
  if chunks.any fun record => record.offset.length ≠ rank then .error wrongRank
  else .ok ((chunks.zipIdx.filter fun indexed =>
    intersects indexed.1.offset chunkShape slab.start slab.count).map Prod.snd)

/-- What a prefetch looks at: the needed chunks, then the read-ahead window. -/
def prefetchCandidates (chunks : Nat) (readahead last : Nat) (needed : List Nat) : Code (List Nat) := do
  let reach ← build.add (last + 1) readahead
  let stop := min reach chunks
  .ok (needed ++ List.range' (last + 1) (stop - (last + 1)))

/-- The candidates that are stored and not yet decoded. -/
def uncached : List ChunkRecord → Session ChunkCache Error (List ChunkRecord)
  | [] => pure []
  | record :: rest => fun cache =>
    if record.size = 0 then uncached rest cache
    else
      let (held, inner) := cache.inner.containsKey record.address
      let cache := { cache with inner }
      if held then uncached rest cache
      else (do
        let others ← uncached rest
        pure (record :: others) : Session ChunkCache Error (List ChunkRecord)) cache

/-- Keep the chunks that decode. A prefetched chunk that does not is reported by
the read itself, if the read needs it. -/
def insertDecoded (codecs : Codecs) (pipeline : FilterPipeline) (decodedLen : Nat) :
    List (ChunkRecord × Bytes) → Session ChunkCache Error Unit
  | [] => pure ()
  | (record, raw) :: rest => fun cache =>
    match Filters.decodeChunk build codecs pipeline record.filterMask raw decodedLen with
    | .ok decoded =>
      insertDecoded codecs pipeline decodedLen rest
        { cache with inner := cache.inner.insert record.address decoded }
    | .error _ => insertDecoded codecs pipeline decodedLen rest cache
    | .panic p => (.panic p, cache)

/-- A step on the chunk cache, when there is one. -/
def onChunkCache {α : Type} (none_ : α) (step : Session ChunkCache Error α) : Session Caches Error α :=
  fun caches =>
    match caches.chunk with
    | some cache =>
      let (outcome, cache) := step cache
      (outcome, { caches with chunk := some cache })
    | none => (.ok none_, caches)

/-- Fetch and decode the chunks a read needs, plus a few beyond them. -/
def prefetchChunks (ctx : Ctx) (codecs : Codecs) (dataset : DatasetIndex) (chunks : List ChunkRecord)
    (needed : List Nat) (decodedLen : Nat) : Session Caches Error Unit := fun caches =>
  match caches.chunk, needed.getLast? with
  | some cache, some last =>
    (do
      let candidates ← Session.lift
        (prefetchCandidates build chunks.length cache.readahead last needed)
      let wanted ← onChunkCache [] (uncached (candidates.filterMap fun i => chunks[i]?))
      if wanted = [] then pure ()
      else
        let blobs ← ctx.readRanges build (wanted.map fun record => (record.address, record.size))
        onChunkCache () (insertDecoded build codecs dataset.pipeline decodedLen (wanted.zip blobs)) :
      Session Caches Error Unit) caches
  | _, _ => (.ok (), caches)

def decodeStored (ctx : Ctx) (codecs : Codecs) (dataset : DatasetIndex) (decodedLen : Nat)
    (record : ChunkRecord) : Session Caches Error Bytes := do
  let raw ← ctx.read record.address record.size
  Session.lift (Filters.decodeChunk build codecs dataset.pipeline record.filterMask raw decodedLen)

/-- `ChunkCache::get_or_decode`, or a plain decode when there is no cache. -/
def fetchDecoded (ctx : Ctx) (codecs : Codecs) (dataset : DatasetIndex) (decodedLen : Nat)
    (record : ChunkRecord) : Session Caches Error Bytes := do
  let hit ← onChunkCache none (Session.run fun cache =>
    let (found, inner) := cache.inner.get record.address
    (found, { cache with inner }))
  match hit with
  | some decoded => pure decoded
  | none => do
    let decoded ← decodeStored build ctx codecs dataset decodedLen record
    onChunkCache () (Session.modify fun cache =>
      { cache with inner := cache.inner.insert record.address decoded })
    pure decoded

/-- On each axis, the part of a chunk that lies in the selection; none when some
axis has no such part. -/
def clip : List Nat → List Nat → List Nat → List Nat → Option (List (Nat × Nat))
  | offset :: offsets, width :: widths, s :: start, c :: count =>
    let lo := max offset s
    let hi := min (saturatingAdd offset width) (s + c)
    if lo ≥ hi then none else (clip offsets widths start count).map ((lo, hi) :: ·)
  | _, _, _, _ => some []

/-- The element of the chunk and of the output that a row starts at, summed over the
axes that the odometer runs over. -/
def rowPosition : List (Nat × Nat) → List Nat → List Nat → List Nat → List Nat → List Nat →
    Nat × Nat → Code (Nat × Nat)
  | (lo, _) :: part, i :: index, offset :: offsets, s :: start, chunkStride :: chunkStrides,
      dstStride :: dstStrides, (src, dst) => do
    let coord ← build.add lo i
    let srcStep ← build.mul (coord - offset) chunkStride
    let src ← build.add src srcStep
    let dstStep ← build.mul (coord - s) dstStride
    let dst ← build.add dst dstStep
    rowPosition part index offsets start chunkStrides dstStrides (src, dst)
  | _, _, _, _, _, _, found => .ok found

/-- The copy of one row of a decoded chunk. -/
def rowWrite (decoded : Bytes) (elementSize src dst run : Nat) : Code (Write UInt8) := do
  let sb ← build.mul src elementSize
  let db ← build.mul dst elementSize
  let len ← build.mul run elementSize
  let _ ← build.add db len
  let stop ← build.add sb len
  let bytes ← range decoded sb stop
  .ok { start := db, entries := bytes }

/-- The copies of a decoded chunk's intersection with the selection, innermost axis
at a time. Without any axis there is no innermost one. -/
def chunkWrites (decoded : Bytes) (offset : List Nat) (part : List (Nat × Nat))
    (chunkStrides dstStrides : List Nat) (slab : Hyperslab) (elementSize : Nat) :
    Code (List (Code (Write UInt8))) :=
  match part.getLast? with
  | none =>
    match build with
    | .debug => .panic .overflow
    | .release => .panic .index
  | some (lo, hi) =>
    let rank := part.length
    let run := hi - lo
    let box := part.dropLast.map fun axis => axis.2 - axis.1
    let passes := max (elementCount box) (if rank = 1 then 1 else 0)
    .ok ((RowMajor.orbit box passes (RowMajor.origin box)).map fun index => do
      let (src, dst) ← rowPosition build part index offset slab.start chunkStrides dstStrides (0, 0)
      let srcStep ← build.mul (lo - offset.getLastD 0) (chunkStrides.getLastD 0)
      let src ← build.add src srcStep
      let dstStep ← build.mul (lo - slab.start.getLastD 0) (dstStrides.getLastD 0)
      let dst ← build.add dst dstStep
      rowWrite build decoded elementSize src dst run)

def shortChunk (dataset : DatasetIndex) (record : ChunkRecord) (decoded decodedLen : Nat) : Error :=
  .malformed
    s!"chunk at {record.offset} of dataset {dataset.path} decoded to {decoded} bytes, expected {decodedLen}"

/-- Fetch, decode and copy the needed chunks, one after the other. -/
def copyChunks (ctx : Ctx) (codecs : Codecs) (dataset : DatasetIndex) (decodedLen : Nat)
    (chunkShape chunkStrides dstStrides : List Nat) (slab : Hyperslab) (elementSize : Nat) :
    List ChunkRecord → Bytes → Session Caches Error Bytes
  | [], out => pure out
  | record :: records, out =>
    match clip record.offset chunkShape slab.start slab.count with
    | none =>
      copyChunks ctx codecs dataset decodedLen chunkShape chunkStrides dstStrides slab elementSize
        records out
    | some part => do
      let decoded ← fetchDecoded build ctx codecs dataset decodedLen record
      if decoded.length < decodedLen then
        Session.throw (shortChunk dataset record decoded.length decodedLen)
      else
        let writes ← Session.lift
          (chunkWrites build decoded record.offset part chunkStrides dstStrides slab elementSize)
        let out ← Session.lift (storeEach writes out)
        copyChunks ctx codecs dataset decodedLen chunkShape chunkStrides dstStrides slab elementSize
          records out

def rankMismatch (dataset : DatasetIndex) (chunkDims : List Nat) : Error :=
  let rank := dataset.shape.length
  let chunkRank := chunkDims.length
  .malformed s!"dataset {dataset.path} has rank {rank} but its chunk shape has rank {chunkRank}"

def readChunked (ctx : Ctx) (codecs : Codecs) (dataset : DatasetIndex) (chunks : List ChunkRecord)
    (chunkDims : List Nat) (out : Bytes) (slab : Hyperslab) (elementSize : Nat) :
    Session Caches Error Bytes := do
  let rank := dataset.shape.length
  if chunkDims.length ≠ rank then Session.throw (rankMismatch dataset chunkDims)
  else
    let dstStrides ← Session.lift (strides build slab.count)
    let decodedLen ← Session.lift (decodedChunkLen chunkDims elementSize dataset.path)
    let chunkStrides ← Session.lift (strides build chunkDims)
    let needed ← Session.lift (neededChunks chunks chunkDims slab rank)
    prefetchChunks build ctx codecs dataset chunks needed decodedLen
    copyChunks build ctx codecs dataset decodedLen chunkDims chunkStrides dstStrides slab elementSize
      (needed.filterMap fun i => chunks[i]?) out

end Chunked

def undecodable (dataset : DatasetIndex) : Error :=
  -- The source prints the class of the type as well.
  .unsupported s!"datatype of dataset {dataset.path}"

def tooLarge : Error := .badRequest "selection is too large to hold in memory"

def noChunkIndex : Error := .malformed "chunked dataset has no chunk index"

/-- Byte-swap every element, turning big-endian values into native ones. -/
def swapBytesInPlace (buf : Bytes) (elementSize : Nat) : Bytes :=
  if elementSize ≤ 1 then buf else reverseBlocks elementSize buf

/-- Variable-length elements are descriptors and always little-endian. -/
def nativeOrder (dataset : DatasetIndex) (out : Bytes) (elementSize : Nat) : Bytes :=
  if !dataset.datatype.class_.isVariableLength ∧ dataset.datatype.byteOrder = some .big then
    swapBytesInPlace out elementSize
  else out

/-- Copy the stored data of a selection over a buffer. -/
def readStored (ctx : Ctx) (codecs : Codecs) (dataset : DatasetIndex) (chunks : Option (List ChunkRecord))
    (slab : Hyperslab) (elementSize : Nat) (out : Bytes) : Session Caches Error Bytes :=
  match dataset.layout with
  | .compact data => Session.lift (copyFromDense build out data dataset.shape slab elementSize)
  | .contiguous none _ => pure out
  | .contiguous (some address) _ =>
    readContiguous build ctx address out dataset.shape slab elementSize
  | .chunked _ chunkDims _ _ =>
    match chunks with
    | none => Session.throw noChunkIndex
    | some chunks => readChunked build ctx codecs dataset chunks chunkDims out slab elementSize

def resolvedIndex (dataset : DatasetIndex) : Code (Option (List ChunkRecord)) :=
  match dataset.layout with
  | .chunked .. =>
    match dataset.chunks with
    | some chunks => .ok (some chunks)
    | none => .error noChunkIndex
  | _ => .ok none

/-- Start from the fill value, unless stored data covers the whole selection. -/
def startBuffer (dataset : DatasetIndex) (chunks : Option (List ChunkRecord)) (slab : Hyperslab)
    (out : Bytes) (elementSize : Nat) : Bytes :=
  if !selectionIsCovered dataset chunks slab then dataset.fillValue.fill out elementSize else out

/-- Read a hyperslab of a dataset whose chunk index is resolved. -/
def readHyperslab (ctx : Ctx) (codecs : Codecs) (dataset : DatasetIndex) (slab : Hyperslab) :
    Session Caches Error RawData := do
  Session.lift (slab.validate dataset.shape)
  if !dataset.datatype.isDecodable then Session.throw (undecodable dataset)
  else
    let elementSize := dataset.elementSize
    let total ← Session.lift (Outcome.ofOption tooLarge (checkedMul slab.elementCount elementSize))
    let chunks ← Session.lift (resolvedIndex dataset)
    let out ← Session.lift (zeroed total)
    let out := startBuffer dataset chunks slab out elementSize
    let out ← readStored build ctx codecs dataset chunks slab elementSize out
    let out := nativeOrder dataset out elementSize
    pure { bytes := out, elementSize, shape := slab.count }

end Read

end Oxcdf
