import Oxcdf.Cache
import Oxcdf.Io

/-! The read context: a byte source, the base address of the file in it, and the
caches of the open file, which reads pass along as their state. -/

set_option autoImplicit false

namespace Oxcdf

open Foundation Foundation.Buffer

structure Caches where
  chunk : Option ChunkCache
  io : Option IoCache

/-- The cache-independent part of a read context. -/
structure Ctx where
  source : ByteSource
  baseAddress : Nat
  io : IoConfig

namespace Caches

variable {α : Type}

/-- A step through the page cache, or its stand-in when there is none. -/
def throughIo (step : Session IoCache Error α) (direct : Code α) : Session Caches Error α :=
  fun caches =>
    match caches.io with
    | some cache =>
      let (outcome, cache) := step cache
      (outcome, { caches with io := some cache })
    | none => (direct, caches)

end Caches

namespace Ctx

/-- `Superblock::resolve`: stored addresses count from the base address. -/
def resolve (ctx : Ctx) (address : Nat) : Nat := wrappingAdd ctx.baseAddress address

def read (ctx : Ctx) (address len : Nat) : Session Caches Error Bytes :=
  let offset := ctx.resolve address
  Caches.throughIo (IoCache.read ctx.source offset len) (ctx.source.readVec offset len)

/-- Merge the ranges, read the merged ones in one call and cut them apart. -/
def readMerged (build : Build) (ctx : Ctx) (ranges : List (Nat × Nat)) : Code (List Bytes) := do
  let plan ← Io.plan build ranges ctx.io
  let fetched ← ctx.source.readRanges (plan.map fun request => (request.offset, request.len))
  Io.scatter build plan fetched ranges.length

def readRanges (build : Build) (ctx : Ctx) (ranges : List (Nat × Nat)) :
    Session Caches Error (List Bytes) :=
  let resolved := ranges.map fun range => (ctx.resolve range.1, range.2)
  Caches.throughIo (resolved.mapM fun range => IoCache.read ctx.source range.1 range.2)
    (ctx.readMerged build resolved)

end Ctx

end Oxcdf
