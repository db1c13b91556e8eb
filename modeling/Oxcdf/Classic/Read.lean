import Oxcdf.Classic.Header
import Oxcdf.Foundation.RowMajor
import Oxcdf.Replay

/-! Reading a selection of a netCDF classic variable.

A fixed-size variable is one array; a record variable is cut into records with
the other record variables between them. Either way a read is a list of runs of
consecutive elements, each fetched by one request. The asynchronous read runs
the synchronous one by replay.
-/

set_option autoImplicit false

namespace Oxcdf

open Foundation Foundation.Buffer

namespace Classic

/-- An open classic file: the parsed header and the source it was parsed from. -/
structure ClassicFile extends Header where
  source : ByteSource
  container : Container

def containerOf (magic : Bytes) : Code Container :=
  if magic = [0x43, 0x44, 0x46, 1] then .ok .cdf1
  else if magic = [0x43, 0x44, 0x46, 2] then .ok .cdf2
  else if magic = [0x43, 0x44, 0x46, 5] then .ok .cdf5
  else .error (.malformed "not a netCDF classic file")

/-- Parse the header in a window at the front, which grows while the header
runs out of it. -/
def parseWindow (build : Build) (source : ByteSource) (container : Container) :
    Nat → Nat → Code Header
  | budget, window => do
    let buf ← source.readVec 0 window
    match Header.parse build buf container with
    | .error (.outOfBounds what offset len available) =>
      if window < source.size then
        match budget with
        | 0 => .error (.outOfBounds what offset len available)
        | budget + 1 => do
          let wider ← build.mul window 4
          parseWindow build source container budget (min wider source.size)
      else .error (.outOfBounds what offset len available)
    | outcome => outcome

namespace ClassicFile

/-- Open a classic file over any byte source. -/
def fromSource (build : Build) (source : ByteSource) : Code ClassicFile := do
  let magic ← source.readExactAt 0 4
  let container ← containerOf magic
  -- From 2^16 on, a window grown fourfold 24 times reaches every size there is.
  let header ← parseWindow build source container 24 (min source.size (2 ^ 16))
  .ok { header with source, container }

def variableNamed (file : ClassicFile) (name : String) : Option ClassicVariable :=
  file.vars.find? fun v => v.name = name

end ClassicFile

def rowMajorStrides (build : Build) (shape : List Nat) : Code (List Nat) := stridesOf build shape

/-- One request: where it reads, how many bytes, and the element of the output
that they go to. -/
structure Run where
  offset : Nat
  len : Nat
  dst : Nat
  deriving DecidableEq, Repr

def runAt (build : Build) (base src run dst elementSize : Nat) : Code Run := do
  let len ← build.mul run elementSize
  let skip ← build.mul src elementSize
  let offset ← build.add base skip
  .ok { offset, len, dst }

/-- A fixed-size variable is one contiguous array; a scalar is one run of it. -/
def fixedRuns (build : Build) (var : ClassicVariable) (slab : Hyperslab) (elementSize : Nat) :
    Code (List (Code Run)) := do
  let strides ← rowMajorStrides build var.shape
  let dstStrides ← rowMajorStrides build slab.count
  let rank := var.shape.length
  if rank = 0 then .ok [.ok { offset := var.begin, len := elementSize, dst := 0 }]
  else
    let run := slab.count.getLastD 0
    let box := slab.count.dropLast
    let passes := max (elementCount box) (if rank = 1 then 1 else 0)
    .ok ((RowMajor.orbit box passes (RowMajor.origin box)).map fun index => do
      let (src, dst) ← position build slab.start index strides dstStrides (0, 0)
      let src ← build.add src (slab.start.getLastD 0)
      runAt build var.begin src run dst elementSize)

/-- A record variable is strided: one record's worth, then a gap covering every
other record variable, then the next record. -/
def recordRuns (build : Build) (recordStride : Nat) (var : ClassicVariable) (slab : Hyperslab)
    (elementSize : Nat) : Code (List (Code Run)) := do
  let rank := var.shape.length
  let innerShape ← range var.shape 1 rank
  let innerStrides ← rowMajorStrides build innerShape
  let dstStrides ← rowMajorStrides build slab.count
  let run := if rank = 1 then 1 else slab.count.getLastD 0
  let box := (slab.count.drop 1).dropLast
  let passes := if innerShape.length ≤ 1 then 1 else elementCount box
  .ok ((List.range (slab.count.headD 0)).flatMap fun record => Outcome.steps do
    let recordIndex ← build.add (slab.start.headD 0) record
    let skip ← build.mul recordIndex recordStride
    let base ← build.add var.begin skip
    .ok ((RowMajor.orbit box passes (RowMajor.origin box)).map fun index => do
      let first ← build.mul record (dstStrides.headD 0)
      let (src, dst) ← position build (slab.start.drop 1) index innerStrides (dstStrides.drop 1)
        (0, first)
      let src ← if innerShape.length > 0 then build.add src (slab.start.getLastD 0) else .ok src
      runAt build base src run dst elementSize))

/-- Copy the bytes of a run to their place in the output. -/
def place (build : Build) (elementSize : Nat) (run : Run) (bytes out : Bytes) : Code Bytes := do
  let db ← build.mul run.dst elementSize
  let stop ← build.add db run.len
  copyInto out db stop bytes

def readRuns (build : Build) (elementSize : Nat) (read : Nat → Nat → Walk Bytes) :
    List (Code Run) → Bytes → Walk Bytes
  | [], out => pure out
  | next :: runs, out => do
    let run ← Walk.lift next
    let bytes ← read run.offset run.len
    let out ← Walk.lift (place build elementSize run bytes out)
    readRuns build elementSize read runs out

namespace ClassicFile

def readFixedVariable (build : Build) (file : ClassicFile) (var : ClassicVariable)
    (slab : Hyperslab) (out : Bytes) (elementSize : Nat) : Walk Bytes := do
  let runs ← Walk.lift (fixedRuns build var slab elementSize)
  if var.shape.length = 0 then readRuns build elementSize Walk.readVec runs out
  else
    -- The loop reads from the source of the file, not from the one passed in.
    let stored := fun offset len => Walk.lift (file.source.readVec offset len)
    readRuns build elementSize stored runs out

def readRecordVariable (build : Build) (file : ClassicFile) (var : ClassicVariable)
    (slab : Hyperslab) (out : Bytes) (elementSize : Nat) : Walk Bytes := do
  let runs ← Walk.lift (recordRuns build file.recordStride var slab elementSize)
  readRuns build elementSize Walk.readVec runs out

def selectionTooLarge : Error := .badRequest "selection is too large"

def readSelectionWith (build : Build) (file : ClassicFile) (var : ClassicVariable)
    (slab : Hyperslab) : Walk Bytes := do
  let _ ← Walk.lift (slab.validate var.shape)
  let elementSize := var.ncType.size
  let total ← Walk.lift
    (Outcome.ofOption selectionTooLarge (checkedMul slab.elementCount elementSize))
  let out ← Walk.lift (zeroed total)
  let out ←
    if var.isRecord then readRecordVariable build file var slab out elementSize
    else readFixedVariable build file var slab out elementSize
  -- Classic files are always big-endian.
  pure (if elementSize > 1 then reverseElements elementSize out else out)

def readSelection (build : Build) (file : ClassicFile) (var : ClassicVariable)
    (slab : Hyperslab) : Code Bytes :=
  (file.readSelectionWith build var slab).against file.source

/-- The asynchronous read of a classic variable: the synchronous one by replay.
A classic file has no page cache to share. -/
def readClassicSelection (build : Build) (file : ClassicFile) (source : AsyncByteSource)
    (requestSize : Nat) (name : String) (slab : Hyperslab) : Code Bytes := do
  let var ← Outcome.ofOption (.notFound s!"classic variable {name}") (file.variableNamed name)
  let _ ← slab.validate var.shape
  (replay source none requestSize requestSize (file.readSelectionWith build var slab)).1

end ClassicFile

end Classic

end Oxcdf
