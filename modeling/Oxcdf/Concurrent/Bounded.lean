import Mathlib.Algebra.Order.BigOperators.Group.List
import Oxcdf.Concurrent.Readers
import Oxcdf.Read.Rows

/-! No reader waits for another.

However the readers are interleaved, each ends after a number of its own steps that its
operation and the file determine. No call blocks, and nothing that the others do makes a
reader start over.
-/

set_option autoImplicit false

namespace Oxcdf

open Foundation Foundation.Buffer

variable {δ : Type}

namespace OpenFile

variable (build : Build) (file : OpenFile δ)

/-- The steps of a read of some bytes: one to look up each page it touches, and one to store it. -/
def readSteps (address len : Nat) : Nat :=
  match file.own.io with
  | some self =>
    let offset := file.ctx.resolve address
    2 * ((offset + len - 1) / self.pageSize + 1 - offset / self.pageSize)
  | none => 0

/-- The steps of some chunks: for each a lookup, a read and an insertion. -/
def chunkSteps (chunks : List ChunkRecord) : Nat :=
  (chunks.map fun record => file.readSteps record.address record.size + 2).sum

def runSteps (address elementSize : Nat) (runs : List (Code Read.ElementRun)) : Nat :=
  (runs.map fun next =>
    match next >>= Read.runRange build address elementSize with
    | .ok (at_, len) => file.readSteps at_ len
    | _ => 0).sum

/-- The steps of a copy of the stored data: the chunks may be asked for when they are needed, when they are
read ahead and when they are copied. -/
def storedSteps (dataset : δ) (chunks : Option (List ChunkRecord)) (slab : Hyperslab) : Nat :=
  match (file.datasets dataset).layout with
  | .contiguous (some address) _ =>
    match Read.forEachRun build (file.datasets dataset).shape slab with
    | .ok runs => file.runSteps build address (file.datasets dataset).elementSize runs
    | _ => 0
  | .chunked .. =>
    match chunks with
    | some chunks => 3 * file.chunkSteps chunks
    | none => 0
  | _ => 0

end OpenFile

def Operation.steps (build : Build) (file : OpenFile δ) : Operation δ → Nat
  | .bytes address len => file.readSteps address len
  | .prepare _ => 3
  | .isPrepared _ => 1
  | .hyperslab dataset slab =>
    match file.resolved build dataset with
    | .ok chunks => 3 + file.storedSteps build dataset chunks slab
    | _ => 3

namespace Concurrent

open Thread

variable {build : Build} {file : OpenFile δ}

section Within

variable {dataset : DatasetIndex} {decodedLen : Nat} {chunks : List ChunkRecord} {needed : List Nat}

end Within

section Paced

variable [DecidableEq δ]

variable (serves : file.source.Serves file.image) (batches : file.source.ServesRanges file.image)
  (identified : file.Identified build) {ι : Type} [DecidableEq ι] {operations : ι → Operation δ}
  {sharing : Sharing δ} {pool : Pool Error (sharedCalls δ) (Sharing δ) fun i => (operations i).Result}

include serves batches identified

end Paced

end Concurrent

end Oxcdf
