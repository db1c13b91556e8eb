import Oxcdf.Concurrent.Readers
import Oxcdf.Read.Arrays

/-! Readers of a file that holds arrays.

The arrays were written to the file, each in a layout of its own. However the readers of
it are interleaved, each that asks for a selection gets the elements of the array.
-/

set_option autoImplicit false

namespace Oxcdf

open Foundation Foundation.Buffer Foundation.RowMajor

variable {δ : Type}

/-- A file that holds an array as each of its datasets. Two chunks at one address decode alike, and the end of
a read-ahead is a word. -/
structure OpenFile.HoldsArrays (build : Build) (file : OpenFile δ)
    (arrays : (dataset : δ) → ElementArray (file.datasets dataset).elementSize) : Prop where
  decodable : ∀ dataset, (file.datasets dataset).datatype.isDecodable = true
  written : ∀ dataset, Read.Written file.ctx file.codecs file.image (file.datasets dataset)
    (file.resolved build dataset) (arrays dataset)
  identified : file.Identified build
  ahead : ∀ self dataset chunks, file.own.chunk = some self → file.resolved build dataset = .ok (some chunks) →
    build = .debug → chunks.length + self.readahead < wordSize

def Operation.Gets (file : OpenFile δ) (arrays : (dataset : δ) → ElementArray (file.datasets dataset).elementSize) :
    (operation : Operation δ) → Outcome Error operation.Result → Prop
  | .bytes address len, got => file.image.Holds (file.ctx.resolve address) len →
    got = .ok (file.image.part (file.ctx.resolve address) len)
  | .prepare _, got => got = .ok ()
  | .isPrepared _, got => ∃ prepared : Bool, got = .ok prepared
  | .hyperslab dataset slab, got => Read.Selects (file.datasets dataset) slab →
    got = .ok (Read.selected (file.datasets dataset) (arrays dataset) slab)

namespace OpenFile.HoldsArrays

variable {build : Build} {file : OpenFile δ}
  {arrays : (dataset : δ) → ElementArray (file.datasets dataset).elementSize}

theorem resolves (holds : file.HoldsArrays build arrays) (dataset : δ) :
    ∃ chunks, file.resolved build dataset = .ok chunks := by
  have written := holds.written dataset
  unfold Read.Written at written
  unfold OpenFile.resolved DatasetIndex.resolveChunks at written ⊢
  cases layout : (file.datasets dataset).layout with
  | chunked address chunkDims width index =>
    simp only [layout] at written
    obtain ⟨chunks, found, -⟩ := written
    exact ⟨some chunks, found⟩
  | compact data => exact ⟨none, rfl⟩
  | contiguous address size => exact ⟨none, rfl⟩

theorem chunks_written (holds : file.HoldsArrays build arrays) {dataset : δ} {chunks : List ChunkRecord}
    (resolved : file.resolved build dataset = .ok (some chunks)) :
    ∃ address chunkDims width index, (file.datasets dataset).layout = .chunked address chunkDims width index ∧
      Read.WrittenChunks file.ctx file.codecs file.image (file.datasets dataset) chunks chunkDims
        (arrays dataset) := by
  have written := holds.written dataset
  unfold Read.Written at written
  cases layout : (file.datasets dataset).layout with
  | chunked address chunkDims width index =>
    simp only [layout] at written
    obtain ⟨others, found, chunked⟩ := written
    cases resolved.symm.trans found
    exact ⟨address, chunkDims, width, index, rfl, chunked⟩
  | _ =>
    unfold OpenFile.resolved DatasetIndex.resolveChunks at resolved
    simp [layout] at resolved

theorem readable (holds : file.HoldsArrays build arrays) (serves : file.source.Serves file.image) (dataset : δ) :
    file.Readable build dataset where
  reach self chunks own resolved := holds.ahead self dataset chunks own resolved
  held self chunks own resolved record member _ := by
    obtain ⟨_, _, _, _, -, chunked⟩ := holds.chunks_written resolved
    exact chunked.held record member
  decodes self chunks own resolved record member _ := by
    obtain ⟨address, chunkDims, width, index, layout, chunked⟩ := holds.chunks_written resolved
    rw [OpenFile.chunkBytes_eq layout (Read.decodedChunkLen_eq chunked.gridded _),
      Read.plainChunk_written chunked serves member]
    exact Outcome.not_panics_ok _

end OpenFile.HoldsArrays

namespace Concurrent

variable {build : Build} {file : OpenFile δ} [DecidableEq δ]
  {arrays : (dataset : δ) → ElementArray (file.datasets dataset).elementSize}

omit [DecidableEq δ] in
theorem gets_of_ends (serves : file.source.Serves file.image) (holds : file.HoldsArrays build arrays)
    {operation : Operation δ} {got : Outcome Error operation.Result} {sharing : Sharing δ}
    (ends : operation.Ends build file got sharing) : operation.Gets file arrays got := by
  cases operation with
  | bytes address len => exact fun held => ends.trans (Read.fetched_of_held serves held)
  | prepare dataset =>
    obtain ⟨chunks, resolved⟩ := holds.resolves dataset
    exact ends.1.trans (by rw [resolved]; rfl)
  | isPrepared dataset =>
    obtain ⟨prepared, same, -⟩ := ends
    exact ⟨prepared, same⟩
  | hyperslab dataset slab =>
    intro selects
    obtain ⟨chunks, resolved⟩ := holds.resolves dataset
    have written := @Read.plainHyperslab_written build file.ctx file.codecs file.image (file.datasets dataset) slab
      (file.resolved build dataset) (arrays dataset) file.own.io.isSome serves (holds.written dataset)
      (holds.decodable dataset) selects
    rw [resolved] at written
    exact (ends.2 (holds.readable serves dataset) chunks resolved).trans ((alone_eq serves slab).trans written)

/-- However any number of readers of a file that holds arrays are interleaved, and whatever the caches drop,
each reader that ends has got the elements that it asked for. -/
theorem readers_get_arrays {ι : Type} [DecidableEq ι] {operations : ι → Operation δ} {sharing : Sharing δ}
    {pool : Pool Error (sharedCalls δ) (Sharing δ) fun i => (operations i).Result}
    (serves : file.source.Serves file.image) (batches : file.source.ServesRanges file.image)
    (holds : file.HoldsArrays build arrays) (sound : sharing.Sound build file)
    (run : Pool.Reaches Sharing.answer (Background build file) (started build file operations sharing) pool)
    {i : ι} {outcome : Outcome Error (operations i).Result} (ended : pool.threads i = .finish outcome) :
    (operations i).Gets file arrays outcome := by
  obtain ⟨-, kept⟩ := (started_kept serves batches holds.identified sound).reaches background_respects run
  obtain ⟨seen, -, ends⟩ := kept.ended ended
  exact gets_of_ends serves holds ends

section TwoReads

/-- The array that is stored in two chunks of two elements. -/
def fourElements : ElementArray 1 where
  element coord := [[10, 20, 30, 40].getD (coord.headD 0) 0]
  uniform _ := rfl

theorem fourStored_written : Read.WrittenChunks fourStored.ctx fourStored.codecs fourStored.image
    (fourStored.datasets ()) fourStoredChunks [2] fourElements where
  gridded :=
    { ranked := by decide
      rank := rfl
      positive := by decide
      aligned := by decide
      apart := by decide
      elements := by decide
      bytes := by decide }
  memory := by decide
  few := by decide
  held := by decide
  written := by
    rintro record (_ | ⟨_, _ | ⟨_, ⟨⟩⟩⟩)
    · exact .nil
    · exact .nil
  missing := by
    intro coord inside uncovered
    exfalso
    obtain ⟨i, rfl⟩ : ∃ i, coord = [i] := List.length_eq_one_iff.mp inside.length_eq
    have bound : i < 4 := inside.1
    rcases Nat.lt_or_ge i 2 with first | second
    · exact uncovered ⟨2, 0, [0], 0⟩ (by simp [fourStoredChunks]) ⟨⟨Nat.zero_le i, first⟩, trivial⟩
    · exact uncovered ⟨2, 0, [2], 2⟩ (by simp [fourStoredChunks]) ⟨⟨second, bound⟩, trivial⟩

theorem fourStored_holds : fourStored.HoldsArrays .debug fun _ => fourElements where
  decodable _ := rfl
  written _ := ⟨fourStoredChunks, fourStored_resolved, fourStored_written⟩
  identified := fourStored_identified
  ahead self dataset chunks own resolved _ := by
    cases resolved.symm.trans fourStored_resolved
    cases own
    decide

theorem readers_get_arrays_twoReads :
    Read.Selects (fourStored.datasets ()) ⟨[1], [3]⟩ ∧
      (twoReads 1).Gets fourStored (fun _ => fourElements) (.ok (⟨[20, 30, 40], 1, [3]⟩ : RawData)) :=
  ⟨⟨by decide, by decide, by decide, by decide⟩,
    @readers_get_arrays Unit .debug fourStored _ (fun _ => fourElements) (Fin 2) _ twoReads indexed twoReadsPlayed
    (memorySource_serves _) (memorySource_servesRanges _) fourStored_holds indexed_sound (Pool.reaches_play _ _) 1 _ rfl⟩

end TwoReads

end Concurrent

end Oxcdf
