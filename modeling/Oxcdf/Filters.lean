import Mathlib.Data.List.Range
import Oxcdf.Error
import Oxcdf.Foundation.Buffer
import Oxcdf.Foundation.Format

/-! Chunk filters, undone in reverse order of writing.

The decompressors are libraries of their own: a `Codecs` value stands for them.
Everything around them is modelled: the pipeline with its mask, the byte and bit
shuffles, the Fletcher-32 checksum, the Blosc container and its own codec.
-/

set_option autoImplicit false

namespace Oxcdf

open Foundation Foundation.Buffer

structure Filter where
  id : Nat
  name : String
  flags : Nat
  clientData : List Nat
  deriving DecidableEq, Repr

structure FilterPipeline where
  filters : List Filter
  deriving DecidableEq, Repr

/-- The decompressors: the bytes of a whole stream, or what the library says is
wrong with it. The last takes the size of its output. -/
structure Codecs where
  zlib : Bytes → Except String Bytes
  zstd : Bytes → Except String Bytes
  lz4 : Bytes → Nat → Except String Bytes

/-- Decompressors that refuse every stream. -/
def Codecs.refusing : Codecs where
  zlib _ := .error "corrupt deflate stream"
  zstd _ := .error "corrupt zstd frame"
  lz4 _ _ := .error "corrupt lz4 block"

namespace Filters

def deflateId : Nat := 1
def shuffleId : Nat := 2
def fletcher32Id : Nat := 3
def zstdId : Nat := 32015
def bloscId : Nat := 32001

def word32 : Nat := 2 ^ 32

/-- The Fletcher-32 fold of one 32-bit sum. -/
def fold16 (sum : Nat) : Nat := sum % 2 ^ 16 + sum / 2 ^ 16

/-- Add one block of 16-bit words to the two sums. -/
def sumBlock : Bytes → Nat × Nat → Nat × Nat
  | high :: low :: rest, (sum1, sum2) =>
    let sum1 := (sum1 + (high.toNat * 2 ^ 8 + low.toNat)) % word32
    sumBlock rest (sum1, (sum2 + sum1) % word32)
  | _, sums => sums

/-- Blocks of 360 words, after which the sums are folded. The budget bounds the
number of blocks. -/
def sumBlocks : Nat → Bytes → Nat × Nat → Nat × Nat
  | 0, _, sums => sums
  | budget + 1, data, sums =>
    if data.length < 2 then sums
    else
      let (sum1, sum2) := sumBlock (data.take 720) sums
      sumBlocks budget (data.drop 720) (fold16 sum1, fold16 sum2)

def fletcher32 (data : Bytes) : Nat :=
  let even := data.take (data.length / 2 * 2)
  let (sum1, sum2) := sumBlocks (even.length / 2) even (0, 0)
  let (sum1, sum2) :=
    match data.drop (data.length / 2 * 2) with
    | odd :: _ =>
      let sum1 := (sum1 + odd.toNat * 2 ^ 8) % word32
      let sum2 := (sum2 + sum1) % word32
      (fold16 sum1, fold16 sum2)
    | [] => (sum1, sum2)
  fold16 sum2 * 2 ^ 16 ||| fold16 sum1

def verifyAndStripFletcher32 (data : Bytes) : Code Bytes :=
  if data.length < 4 then .error (.malformed "chunk is too short to carry a fletcher32 checksum")
  else
    let split := data.length - 4
    let tail := data.drop split
    let storedLe := Format.ofLittleEndian tail
    let storedBe := Format.ofBigEndian tail
    let computed := fletcher32 (data.take split)
    if computed ≠ storedLe ∧ computed ≠ storedBe then
      .error (.checksumMismatch "chunk fletcher32" storedLe computed)
    else .ok (data.take split)

/-- Undo the byte shuffle; bytes past the last whole element stay in place. -/
def unshuffle (data : Bytes) (elementSize : Nat) : Bytes :=
  if elementSize ≤ 1 ∨ data.length ≤ elementSize then data
  else
    let count := data.length / elementSize
    (List.range count).flatMap (fun element =>
      (List.range elementSize).map fun byteIndex => data.getD (byteIndex * count + element) 0) ++
      data.drop (count * elementSize)

/-- Bit `i` of a byte string, least significant bit of each byte first. -/
def bitAt (data : Bytes) (i : Nat) : Bool := (data.getD (i / 8) 0).toNat.testBit (i % 8)

def byteOfBits (bit : Nat → Bool) : UInt8 :=
  UInt8.ofNat ((List.range 8).foldl (fun total i => total + if bit i then 2 ^ i else 0) 0)

/-- Undo Blosc's bit shuffle: transpose the bit matrix back. -/
def unbitshuffle (data : Bytes) (typesize : Nat) : Bytes :=
  if typesize = 0 ∨ data.length % typesize ≠ 0 then data
  else
    let elements := data.length / typesize
    let bitRows := typesize * 8
    if elements = 0 then data
    else (List.range data.length).map fun byte => byteOfBits fun i =>
      let dst := byte * 8 + i
      bitAt data (dst % bitRows * elements + dst / bitRows)

variable (build : Build)

/-- `Vec::with_capacity`, which panics when no allocation may be that large. -/
def withCapacity (len : Nat) : Code Unit := if len ≤ isizeMax then .ok () else .panic .capacity

def inflate (codecs : Codecs) (data : Bytes) (expectedLen : Nat) : Code Bytes := do
  withCapacity expectedLen
  match codecs.zlib data with
  | .ok out => .ok out
  | .error e => .error (.malformed s!"failed to inflate a chunk: {e}")

def unzstd (codecs : Codecs) (data : Bytes) (expectedLen : Nat) : Code Bytes := do
  withCapacity expectedLen
  match codecs.zstd data with
  | .ok out => .ok out
  -- A decoder that does not even start fails under a message of its own in the source.
  | .error e => .error (.malformed s!"failed to decompress a zstd chunk: {e}")

/-- The rest of a match length, 255 at a time. -/
def matchLength : Bytes → Nat → Code (Nat × Bytes)
  | [], _ => .error (.malformed "blosclz match length runs past the block")
  | extra :: rest, length =>
    if extra.toNat = 255 then matchLength rest (length + 255) else .ok (length + extra.toNat, rest)

/-- Copy a match byte by byte: it may overlap what it produces. -/
def copyMatch (start : Nat) : Nat → Nat → Bytes → Bytes
  | 0, _, out => out
  | length + 1, i, out => copyMatch start length (i + 1) (out ++ [out.getD (start + i) 0])

/-- One token of a blosclz stream: the rest of the stream and the output so far. -/
def blosclzToken (first : Bool) (token : Nat) (rest out : Bytes) : Code (Bytes × Bytes) :=
  if first ∨ token / 2 ^ 5 = 0 then
    let count := token % 2 ^ 5 + 1
    if count > rest.length then .error (.malformed "blosclz literal run runs past the block")
    else .ok (rest.drop count, out ++ rest.take count)
  else do
    let (length, rest) ←
      if token / 2 ^ 5 = 7 then matchLength rest 7 else .ok (token / 2 ^ 5, rest)
    let length := length + 2
    match rest with
    | [] => .error (.malformed "blosclz match offset runs past the block")
    | low :: rest => do
      let distance := token % 2 ^ 5 * 2 ^ 8 + low.toNat
      let (distance, rest) ←
        if distance = 0x1fff then
          match rest with
          | high :: low :: rest => .ok (distance + (high.toNat * 2 ^ 8 + low.toNat), rest)
          | _ => .error (.malformed "blosclz extended match offset runs past the block")
        else .ok (distance, rest)
      if out.length < distance + 1 then
        .error (.malformed "blosclz match points before the start of the block")
      else .ok (rest, copyMatch (out.length - (distance + 1)) length 0 out)

/-- The tokens of a blosclz stream. The budget bounds their number. -/
def blosclzTokens : Nat → Bool → Bytes → Bytes → Code Bytes
  | 0, _, _, out => .ok out
  | _ + 1, _, [], out => .ok out
  | budget + 1, first, token :: rest, out => do
    let (rest, out) ← blosclzToken first token.toNat rest out
    blosclzTokens budget false rest out

def unblosclz (data : Bytes) (expectedLen : Nat) : Code Bytes := do
  withCapacity expectedLen
  blosclzTokens data.length true data []

def u32At (data : Bytes) (at_ : Nat) : Nat := Format.ofLittleEndian (slice data at_ 4)

/-- `u32::from_le_bytes` of the four bytes at a place, each of them indexed. -/
def readU32 (data : Bytes) (at_ : Nat) : Code Nat :=
  if at_ + 4 ≤ data.length then .ok (u32At data at_) else .panic .index

def readByte (data : Bytes) (at_ : Nat) : Code Nat :=
  if at_ < data.length then .ok (data.getD at_ 0).toNat else .panic .index

theorem readU32_of_le {data : Bytes} {at_ : Nat} (inside : at_ + 4 ≤ data.length) :
    readU32 data at_ = .ok (u32At data at_) := if_pos inside

theorem readByte_of_lt {data : Bytes} {at_ : Nat} (inside : at_ < data.length) :
    readByte data at_ = .ok (data.getD at_ 0).toNat := if_pos inside

/-- The fields of a Blosc header that is there are read. -/
theorem header_reads {data : Bytes} (header : 16 ≤ data.length) :
    readByte data 0 = .ok (data.getD 0 0).toNat ∧ readByte data 2 = .ok (data.getD 2 0).toNat ∧
      readByte data 3 = .ok (data.getD 3 0).toNat ∧ readU32 data 4 = .ok (u32At data 4) ∧
      readU32 data 8 = .ok (u32At data 8) ∧ readU32 data 12 = .ok (u32At data 12) :=
  ⟨readByte_of_lt (by omega), readByte_of_lt (by omega), readByte_of_lt (by omega), readU32_of_le (by omega),
    readU32_of_le (by omega), readU32_of_le (by omega)⟩

/-- Decompress the body of one block by the sub-codec the header names. -/
def unbloscBlock (codecs : Codecs) (codec : Nat) (body : Bytes) (want : Nat) : Code Bytes :=
  match codec with
  | 0 => unblosclz body want
  | 1 | 2 =>
    match codecs.lz4 body want with
    | .ok out => .ok out
    | .error e => .error (.malformed s!"failed to decompress an lz4 block: {e}")
  | 3 => .error (.unsupported "blosc chunk using the snappy sub-codec")
  | 4 => inflate codecs body want
  | 5 => unzstd codecs body want
  | other => .error (.unsupported s!"blosc sub-codec {other}")

/-- The blocks of a Blosc container, one after the other. -/
def unbloscBlocks (codecs : Codecs) (data : Bytes) (codec nbytes blocksize : Nat) :
    List Nat → Bytes → Code Bytes
  | [], out => .ok out
  | block :: blocks, out => do
    let start ← readU32 data (16 + block * 4)
    if start + 4 > data.length then .error (.malformed "blosc block offset points past the chunk")
    else do
      let clen ← readU32 data start
      let bodyStart := start + 4
      if bodyStart + clen > data.length then .error (.malformed "blosc block runs past the chunk")
      else do
        let body ← range data bodyStart (bodyStart + clen)
        -- A block that decompresses to more than it should leaves this below zero.
        let left ← build.sub nbytes out.length
        let decoded ← unbloscBlock codecs codec body (min blocksize left)
        unbloscBlocks codecs data codec nbytes blocksize blocks (out ++ decoded)

/-- Decompress a Blosc container. -/
def unblosc (codecs : Codecs) (data : Bytes) : Code Bytes := do
  if data.length < 16 then .error (.malformed "blosc chunk is shorter than its 16-byte header")
  else do
    let version ← readByte data 0
    if version ≠ 2 then .error (.unsupported s!"blosc container format version {version}")
    else do
      let flags ← readByte data 2
      let typesize ← readByte data 3
      let nbytes ← readU32 data 4
      let blocksize ← readU32 data 8
      let cbytes ← readU32 data 12
      if cbytes > data.length then
        let held := data.length
        .error (.malformed
          s!"blosc header claims {cbytes} compressed bytes but the chunk holds {held}")
      else if blocksize = 0 then .error (.malformed "blosc header declares a zero block size")
      else
        let codec := flags / 2 ^ 5
        let blockCount := (nbytes + blocksize - 1) / blocksize
        if 16 + blockCount * 4 > data.length then
          .error (.malformed "blosc chunk is truncated before its block offset table")
        else
          let out ← unbloscBlocks build codecs data codec nbytes blocksize (List.range blockCount) []
          let out := out.take nbytes
          if flags.testBit 2 then .ok (unbitshuffle out typesize)
          else if flags.testBit 0 then .ok (unshuffle out typesize)
          else .ok out

/-- Undo a single filter. -/
def decodeOne (codecs : Codecs) (filter : Filter) (data : Bytes) (expectedLen : Nat) : Code Bytes :=
  if filter.id = deflateId then inflate codecs data expectedLen
  else if filter.id = shuffleId then .ok (unshuffle data (filter.clientData.headD 0))
  else if filter.id = fletcher32Id then verifyAndStripFletcher32 data
  else if filter.id = zstdId then unzstd codecs data expectedLen
  else if filter.id = bloscId then unblosc build codecs data
  else
    let name := if filter.name = "" then "" else s!" ({filter.name})"
    .error (.unsupported s!"chunk filter {filter.id}{name}")

/-- `1u32 << index`: a checked build refuses to shift by 32 or more, an unchecked
one shifts by the remainder. -/
def maskBit (index : Nat) : Code Nat :=
  if index < 32 then .ok index
  else match build with
    | .debug => .panic .overflow
    | .release => .ok (index % 32)

/-- Undo the filters from the last to the first, with their positions. -/
def decodeEach (codecs : Codecs) (filterMask expectedLen : Nat) :
    List (Filter × Nat) → Bytes → Code Bytes
  | [], buf => .ok buf
  | (filter, index) :: filters, buf => do
    let bit ← maskBit build index
    if filterMask.testBit bit then decodeEach codecs filterMask expectedLen filters buf
    else
      let buf ← decodeOne build codecs filter buf expectedLen
      decodeEach codecs filterMask expectedLen filters buf

/-- Undo a whole pipeline for one chunk. -/
def decodeChunk (codecs : Codecs) (pipeline : FilterPipeline) (filterMask : Nat) (data : Bytes)
    (expectedLen : Nat) : Code Bytes :=
  decodeEach build codecs filterMask expectedLen pipeline.filters.zipIdx.reverse data

end Filters

end Oxcdf
