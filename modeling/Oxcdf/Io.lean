import Mathlib.Data.List.Sort
import Oxcdf.Error
import Oxcdf.Foundation.Buffer

/-! Merging of byte-range requests: neighbouring ranges are fetched by one
request, whose buffer is then cut back into the ranges asked for. -/

set_option autoImplicit false

namespace Oxcdf

open Foundation Foundation.Buffer

/-- How aggressively to merge neighbouring ranges. -/
structure IoConfig where
  maxGap : Nat
  maxRequestSize : Nat
  deriving DecidableEq, Repr

namespace IoConfig

def remote : IoConfig := { maxGap := 2 ^ 20, maxRequestSize := 2 ^ 23 }

def localFile : IoConfig := { maxGap := 2 ^ 14, maxRequestSize := 2 ^ 22 }

/-- Merge nothing that does not touch. -/
def none : IoConfig := { maxGap := 0, maxRequestSize := wordSize - 1 }

end IoConfig

/-- One original range within a request: its index, where it starts in the
request's buffer, and its length. -/
structure Part where
  index : Nat
  start : Nat
  len : Nat
  deriving DecidableEq, Repr

structure Request where
  offset : Nat
  len : Nat
  parts : List Part
  deriving DecidableEq, Repr

namespace Io

/-- Put one range into the plan, which is kept with its last request first. -/
def planRange (build : Build) (config : IoConfig) (index : Nat) (range : Nat × Nat) :
    List Request → Code (List Request)
  | [] => do
    let (offset, len) := range
    if len = 0 then .ok [{ offset, len := 0, parts := [⟨index, 0, 0⟩] }]
    else
      let _ ← build.add offset len
      .ok [{ offset, len, parts := [⟨index, 0, len⟩] }]
  | last :: before => do
    let (offset, len) := range
    -- A zero-length range needs no bytes; it joins whatever request is current.
    if len = 0 then .ok ({ last with parts := last.parts ++ [⟨index, 0, 0⟩] } :: before)
    else
      let stop ← build.add offset len
      let lastStop ← build.add last.offset last.len
      let gap := offset - lastStop
      let mergedLen ← build.sub (max stop lastStop) last.offset
      if offset ≥ last.offset ∧ gap ≤ config.maxGap ∧ mergedLen ≤ config.maxRequestSize then
        let part := ⟨index, offset - last.offset, len⟩
        .ok ({ last with len := mergedLen, parts := last.parts ++ [part] } :: before)
      else .ok ({ offset, len, parts := [⟨index, 0, len⟩] } :: last :: before)

def planEach (build : Build) (config : IoConfig) :
    List (Nat × (Nat × Nat)) → List Request → Code (List Request)
  | [], requests => .ok requests
  | (index, range) :: rest, requests => do
    let requests ← planRange build config index range requests
    planEach build config rest requests

/-- The ranges with their indices, in ascending order of offset; ranges of one
offset keep their order. -/
def ordered (ranges : List (Nat × Nat)) : List (Nat × (Nat × Nat)) :=
  (ranges.zipIdx.map fun indexed => (indexed.2, indexed.1)).insertionSort
    fun first second => first.2.1 ≤ second.2.1

/-- Plan the reads for some ranges. -/
def plan (build : Build) (ranges : List (Nat × Nat)) (config : IoConfig) : Code (List Request) := do
  let requests ← planEach build config (ordered ranges) []
  .ok requests.reverse

/-- Cut the parts of one request out of its buffer. -/
def scatterParts (build : Build) (count : Nat) (buffer : Bytes) :
    List Part → List Bytes → Code (List Bytes)
  | [], out => .ok out
  | part :: parts, out => do
    if part.index ≥ count then
      .error (.malformed "coalesced plan names a range that was not requested")
    else
      let stop ← build.add part.start part.len
      if stop > buffer.length then
        let available := buffer.length
        .error (.malformed
          s!"coalesced request returned {available} bytes, too few for a part at {part.start}+{part.len}")
      else
        let bytes ← range buffer part.start stop
        scatterParts build count buffer parts (out.set part.index bytes)

def scatterEach (build : Build) (count : Nat) :
    List (Request × Bytes) → List Bytes → Code (List Bytes)
  | [], out => .ok out
  | (request, buffer) :: rest, out => do
    let out ← scatterParts build count buffer request.parts out
    scatterEach build count rest out

/-- Cut fetched buffers back into one buffer per original range. -/
def scatter (build : Build) (requests : List Request) (fetched : List Bytes) (count : Nat) :
    Code (List Bytes) :=
  if requests.length ≠ fetched.length then
    let buffers := fetched.length
    let asked := requests.length
    .error (.malformed s!"fetched {buffers} buffers for {asked} requests")
  else scatterEach build count (requests.zip fetched) (List.replicate count [])

end Io

end Oxcdf
