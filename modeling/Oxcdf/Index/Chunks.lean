import Oxcdf.Btree1
import Oxcdf.ChunkIndex.Btree

/-! The chunk index of a dataset, as it is resolved on first use. -/

set_option autoImplicit false

namespace Oxcdf

open Foundation

def FilterPipeline.isEmpty (pipeline : FilterPipeline) : Bool := pipeline.filters.isEmpty

namespace DatasetIndex

variable (build : Build) (view : View) (dataset : DatasetIndex)

/-- Walk the chunk index. There is none if the dataset is not chunked. -/
def resolveChunks : Code (Option (List ChunkRecord)) :=
  match dataset.layout with
  | .chunked address chunkDims elementSize index =>
    match index with
    | .btreeV1 =>
      match address with
      | none => .ok (some [])
      | some address => some <$> Btree1.readChunkIndex build view address chunkDims.length
    | other =>
      -- A version 4 layout does not repeat the element size.
      let width := if elementSize = 0 then dataset.elementSize else elementSize
      some <$> ChunkIndex.read (ChunkIndex.readBtree2Chunks build view) build view other address dataset.shape
        chunkDims width !dataset.pipeline.isEmpty
  | _ => .ok none

end DatasetIndex

end Oxcdf
