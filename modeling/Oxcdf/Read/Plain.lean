import Oxcdf.Read.Cached

/-! What a read returns as a function of the file: of what its bytes are fetched as, what its
chunks decode to and what its chunk index resolves to. -/

set_option autoImplicit false

namespace Oxcdf.Read

open Foundation Foundation.Buffer

variable (build : Build)

/-- The runs of a selection, each copied out of what is fetched for it. -/
def plainRuns (fetch : Nat → Nat → Code Bytes) (address elementSize : Nat) :
    List (Code ElementRun) → Bytes → Code Bytes
  | [], out => .ok out
  | next :: runs, out => do
    let run ← next
    let (at_, len) ← runRange build address elementSize run
    let bytes ← fetch at_ len
    let out ← placeRun build elementSize run len bytes out
    plainRuns fetch address elementSize runs out

/-- The needed chunks of a selection, each copied as it is decoded. -/
def plainChunked (plain : ChunkRecord → Code Bytes) (dataset : DatasetIndex) (chunks : List ChunkRecord)
    (chunkDims : List Nat) (out : Bytes) (slab : Hyperslab) : Code Bytes := do
  let rank := dataset.shape.length
  if chunkDims.length ≠ rank then .error (rankMismatch dataset chunkDims)
  else
    let dstStrides ← strides build slab.count
    let decodedLen ← decodedChunkLen chunkDims dataset.elementSize dataset.path
    let chunkStrides ← strides build chunkDims
    let needed ← neededChunks chunks chunkDims slab rank
    copyPlain build plain dataset decodedLen chunkDims chunkStrides dstStrides slab
      (needed.filterMap fun i => chunks[i]?) out

variable (fetch : Nat → Nat → Code Bytes) (plain : ChunkRecord → Code Bytes) (dataset : DatasetIndex)

def plainStored (chunks : Option (List ChunkRecord)) (slab : Hyperslab) (out : Bytes) : Code Bytes :=
  match dataset.layout with
  | .compact data => copyFromDense build out data dataset.shape slab dataset.elementSize
  | .contiguous none _ => .ok out
  | .contiguous (some address) _ => do
    let runs ← forEachRun build dataset.shape slab
    plainRuns build fetch address dataset.elementSize runs out
  | .chunked _ chunkDims _ _ =>
    match chunks with
    | none => .error noChunkIndex
    | some chunks => plainChunked build plain dataset chunks chunkDims out slab

/-- The index that a read needs, given what the dataset's resolves to. -/
def plainIndex (resolved : Code (Option (List ChunkRecord))) : Code (Option (List ChunkRecord)) :=
  match dataset.layout with
  | .chunked .. => do
    match ← resolved with
    | some chunks => .ok (some chunks)
    | none => .error noChunkIndex
  | _ => .ok none

/-- A read, given what its bytes are fetched as, what its chunks decode to and what the chunk
index resolves to. -/
def plainHyperslab (resolved : Code (Option (List ChunkRecord))) (slab : Hyperslab) : Code RawData := do
  slab.validate dataset.shape
  if !dataset.datatype.isDecodable then .error (undecodable dataset)
  else
    let elementSize := dataset.elementSize
    let total ← Outcome.ofOption tooLarge (checkedMul slab.elementCount elementSize)
    let chunks ← plainIndex dataset resolved
    let out ← zeroed total
    let out := startBuffer dataset chunks slab out elementSize
    let out ← plainStored build fetch plain dataset chunks slab out
    .ok { bytes := nativeOrder dataset out elementSize, elementSize, shape := slab.count }

/-- What a chunk of a dataset decodes to, as it is read without a cache of chunks. -/
def decodedChunk (ctx : Ctx) (codecs : Codecs) (file : FileImage) (paged : Bool) (record : ChunkRecord) :
    Code Bytes :=
  match dataset.layout with
  | .chunked _ chunkDims _ _ => do
    let decodedLen ← decodedChunkLen chunkDims dataset.elementSize dataset.path
    plainChunk build ctx codecs file dataset decodedLen paged record
  | _ => .error noChunkIndex

/-- The needed chunks are chunks of the index, in its order. -/
theorem neededChunks_sublist {chunks : List ChunkRecord} {chunkShape : List Nat} {slab : Hyperslab} {rank : Nat}
    {needed : List Nat} (found : neededChunks chunks chunkShape slab rank = .ok needed) :
    needed.Sublist (List.range chunks.length) := by
  unfold neededChunks at found
  split at found
  · cases found
  · cases found
    have all := List.filter_sublist (l := chunks.zipIdx)
      (p := fun indexed => intersects indexed.1.offset chunkShape slab.start slab.count)
    simpa [List.range_eq_range'] using all.map Prod.snd

section Carried

variable {build fetch plain dataset} {resolved : Code (Option (List ChunkRecord))} {slab : Hyperslab}
  (carried : Option (List ChunkRecord))

/-- What is read does not depend on a chunk index that a dataset carries along. -/
theorem copyPlain_carried {decodedLen : Nat} {chunkShape chunkStrides dstStrides : List Nat}
    (records : List ChunkRecord) : ∀ out : Bytes,
    copyPlain build plain { dataset with chunks := carried } decodedLen chunkShape chunkStrides dstStrides slab
        records out =
      copyPlain build plain dataset decodedLen chunkShape chunkStrides dstStrides slab records out := by
  induction records with
  | nil => exact fun out => rfl
  | cons record records ih =>
    intro out
    simp only [copyPlain, ih]
    rfl

theorem plainChunked_carried (chunks : List ChunkRecord) (chunkDims : List Nat) (out : Bytes) :
    plainChunked build plain { dataset with chunks := carried } chunks chunkDims out slab =
      plainChunked build plain dataset chunks chunkDims out slab := by
  simp only [plainChunked, copyPlain_carried]
  rfl

theorem plainStored_carried (chunks : Option (List ChunkRecord)) (out : Bytes) :
    plainStored build fetch plain { dataset with chunks := carried } chunks slab out =
      plainStored build fetch plain dataset chunks slab out := by
  unfold plainStored
  simp only [plainChunked_carried]
  rfl

theorem plainHyperslab_carried :
    plainHyperslab build fetch plain { dataset with chunks := carried } resolved slab =
      plainHyperslab build fetch plain dataset resolved slab := by
  simp only [plainHyperslab, plainStored_carried]
  rfl

end Carried

section Bare

variable {build} {dataset} {ctx : Ctx} {codecs : Codecs} {file : FileImage} {paged : Bool}

/-- There is no cache of chunks, and the pages that are held are the file's. -/
structure Bare (file : FileImage) (paged : Bool) (caches : Caches) : Prop where
  chunk : caches.chunk = none
  paged : caches.io.isSome = paged
  pages : PagesSound file caches

variable (serves : ctx.source.Serves file)

include serves

theorem read_bare (address len : Nat) :
    (ctx.read address len).Returns (Bare file paged) (fetched ctx file paged address len) := by
  intro caches bare
  have sound : CachesSound file paged (fun _ => .error noChunkIndex) [] caches := by
    refine ⟨bare.paged, bare.pages, fun _ => List.nodup_nil, fun cache held => ?_⟩
    rw [bare.chunk] at held
    cases held
  obtain ⟨returned, kept⟩ := read_returns serves address len caches sound
  exact ⟨returned, (throughIo_chunk _ _ _).trans bare.chunk, kept.paged, kept.pages⟩

theorem readRuns_bare (address elementSize : Nat) (runs : List (Code ElementRun)) : ∀ out : Bytes,
    (readRuns build ctx address elementSize runs out).Returns (Bare file paged)
      (plainRuns build (fetched ctx file paged) address elementSize runs out) := by
  induction runs with
  | nil => exact fun out => Session.Returns.lift (.ok out)
  | cons next runs ih =>
    intro out
    refine (Session.Returns.lift _).bind fun run _ => ?_
    refine (Session.Returns.lift _).bind fun place _ => ?_
    refine (read_bare serves place.1 place.2).bind fun bytes _ => ?_
    exact (Session.Returns.lift _).bind fun out _ => ih out

theorem fetchDecoded_bare (decodedLen : Nat) (record : ChunkRecord) :
    (fetchDecoded build ctx codecs dataset decodedLen record).Returns (Bare file paged)
      (plainChunk build ctx codecs file dataset decodedLen paged record) := by
  intro caches bare
  have missed (look : Session ChunkCache Error (Option Bytes)) : onChunkCache none look caches = (.ok none, caches) := by
    simp [onChunkCache, bare.chunk]
  have decodes : (decodeStored build ctx codecs dataset decodedLen record).Returns (Bare file paged)
      (plainChunk build ctx codecs file dataset decodedLen paged record) :=
    (read_bare serves record.address record.size).bind fun raw _ => Session.Returns.lift _
  have ignored (keep : Session ChunkCache Error Unit) :
      (onChunkCache () keep).Returns (Bare file paged) (.ok ()) := by
    intro caches bare
    simp [onChunkCache, bare.chunk, bare]
  have whole := decodes.bind fun bytes _ => (ignored (Session.modify fun cache =>
    { cache with inner := cache.inner.insert record.address bytes })).bind fun _ _ => Session.Returns.lift (.ok bytes)
  unfold fetchDecoded
  rw [Session.bind_ok (missed _)]
  obtain ⟨returned, kept⟩ := whole caches bare
  exact ⟨returned.trans (bind_pure _), kept⟩

theorem copyChunks_bare {decodedLen : Nat} {chunkShape chunkStrides dstStrides : List Nat} {slab : Hyperslab}
    (records : List ChunkRecord) : ∀ out : Bytes,
    (copyChunks build ctx codecs dataset decodedLen chunkShape chunkStrides dstStrides slab dataset.elementSize
        records out).Returns (Bare file paged)
      (copyPlain build (plainChunk build ctx codecs file dataset decodedLen paged) dataset decodedLen chunkShape
        chunkStrides dstStrides slab records out) := by
  induction records with
  | nil => exact fun out => Session.Returns.lift (.ok out)
  | cons record records ih =>
    intro out
    unfold copyChunks copyPlain
    cases clip record.offset chunkShape slab.start slab.count with
    | none => exact ih out
    | some part =>
      refine (fetchDecoded_bare serves decodedLen record).bind fun decoded _ => ?_
      split
      · exact Session.Returns.lift _
      · exact (Session.Returns.lift _).bind fun writes _ => (Session.Returns.lift _).bind fun out _ => ih out

omit serves in
theorem prefetchChunks_bare (chunks : List ChunkRecord) (needed : List Nat) (decodedLen : Nat) :
    (prefetchChunks build ctx codecs dataset chunks needed decodedLen).Returns (Bare file paged) (.ok ()) := by
  intro caches bare
  simp [prefetchChunks, bare.chunk, bare]

theorem readChunked_bare {address : Option Nat} {chunkDims : List Nat} {width : Nat} {index : ChunkIndex}
    (layout : dataset.layout = .chunked address chunkDims width index) (chunks : List ChunkRecord)
    (slab : Hyperslab) (out : Bytes) :
    (readChunked build ctx codecs dataset chunks chunkDims out slab dataset.elementSize).Returns (Bare file paged)
      (plainChunked build (decodedChunk build dataset ctx codecs file paged) dataset chunks chunkDims out slab) := by
  unfold readChunked plainChunked
  dsimp only
  split
  · exact Session.Returns.lift _
  · refine (Session.Returns.lift _).bind fun dstStrides _ => ?_
    refine (Session.Returns.lift _).bind fun decodedLen decoded => ?_
    have same : decodedChunk build dataset ctx codecs file paged =
        plainChunk build ctx codecs file dataset decodedLen paged := by
      funext record
      simp only [decodedChunk, layout, decoded, Outcome.ok_bind]
    rw [same]
    refine (Session.Returns.lift _).bind fun chunkStrides _ => ?_
    refine (Session.Returns.lift _).bind fun needed _ => ?_
    exact (prefetchChunks_bare chunks needed decodedLen).bind fun _ _ => copyChunks_bare serves _ out

/-- A read without a cache of chunks is a function of the file. -/
theorem readHyperslab_bare (slab : Hyperslab) :
    (readHyperslab build ctx codecs dataset slab).Returns (Bare file paged)
      (plainHyperslab build (fetched ctx file paged) (decodedChunk build dataset ctx codecs file paged) dataset
        (.ok dataset.chunks) slab) := by
  have indexed : resolvedIndex dataset = plainIndex dataset (.ok dataset.chunks) := by
    unfold resolvedIndex plainIndex
    cases dataset.layout with
    | chunked => cases dataset.chunks <;> rfl
    | _ => rfl
  unfold readHyperslab plainHyperslab
  refine (Session.Returns.lift _).bind fun _ _ => ?_
  split
  · exact Session.Returns.lift _
  · rw [indexed]
    refine (Session.Returns.lift _).bind fun total _ => ?_
    refine (Session.Returns.lift _).bind fun chunks _ => ?_
    refine (Session.Returns.lift _).bind fun out _ => ?_
    refine Session.Returns.bind ?_ fun out _ => Session.Returns.lift _
    unfold readStored plainStored
    cases layout : dataset.layout with
    | compact data => exact Session.Returns.lift _
    | contiguous address size =>
      cases address with
      | none => exact Session.Returns.lift _
      | some address => exact (Session.Returns.lift _).bind fun runs _ => readRuns_bare serves address _ runs _
    | chunked address chunkDims width index =>
      cases chunks with
      | none => exact Session.Returns.lift _
      | some chunks => exact readChunked_bare serves layout chunks slab _

end Bare

end Oxcdf.Read
