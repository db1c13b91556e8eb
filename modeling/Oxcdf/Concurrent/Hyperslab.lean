import Oxcdf.ChunkIndex.Sizes
import Oxcdf.Concurrent.Chunks

/-! Concurrent reads of a selection, and the chunk indexes that they resolve.

Of several readers that find an index unresolved, each walks it and the first to store
its walk wins. All of them walked the same file, so that it does not matter which.
-/

set_option autoImplicit false

namespace Oxcdf.Concurrent

open Foundation Foundation.Buffer Thread

variable {δ : Type} [DecidableEq δ] {build : Build} {file : OpenFile δ} {proviso : Prop}

section Resolving

/-- An index that is found is the file's, and one that was resolved before is found. -/
theorem index_safe (dataset : δ) (seen : Sharing δ) :
    Dialogue.Safe Sharing.answer (agreement build file) (fun got sharing =>
      got = .ok (sharing.indexes dataset) ∧
      (∀ resolved, sharing.indexes dataset = some resolved → file.resolved build dataset = .ok resolved) ∧
      ∀ resolved, seen.indexes dataset = some resolved → sharing.indexes dataset = some resolved)
      (index dataset) seen := by
  refine Dialogue.Safe.query (I := sharedCalls δ) fun sharing moved sound => ?_
  exact ⟨fun _ _ => id, sound, rfl, sound.indexes dataset, moved dataset⟩

/-- An index of the file may be stored. It is resolved from then on. -/
theorem setIndex_safe {dataset : δ} {resolved : Option (List ChunkRecord)}
    (true_ : file.resolved build dataset = .ok resolved) (seen : Sharing δ) :
    Dialogue.Safe Sharing.answer (agreement build file)
      (fun got sharing => got = .ok () ∧ sharing.indexes dataset = some resolved) (setIndex dataset resolved)
      seen := by
  refine Dialogue.Safe.query (I := sharedCalls δ) fun sharing _ sound => ?_
  have now : (sharing.setIndex dataset resolved).indexes dataset = some resolved := by
    cases held : sharing.indexes dataset with
    | none => simp [Sharing.setIndex, held]
    | some other =>
      -- Another reader was first, and walked the same file.
      have same := (sound.indexes dataset other held).symm.trans true_
      cases same
      simp [Sharing.setIndex, held]
  have elsewhere {other : δ} (apart : other ≠ dataset) :
      (sharing.setIndex dataset resolved).indexes other = sharing.indexes other :=
    Function.update_of_ne apart _ _
  refine ⟨fun other value found => ?_, ⟨sound.alike, sound.pages, sound.chunks, fun other value found => ?_⟩,
    rfl, now⟩
  · by_cases here : other = dataset
    · subst here
      have same := (sound.indexes other value found).symm.trans true_
      cases same
      exact now
    · exact (elsewhere here).trans found
  · by_cases here : other = dataset
    · subst here
      change (sharing.setIndex other resolved).indexes other = some value at found
      rw [now] at found
      cases found
      exact true_
    · exact sound.indexes other value ((elsewhere here).symm.trans found)

/-- Whoever resolves an index gets that of the file, and it is resolved from then on. What was just
set is found. -/
theorem chunks_safe (dataset : δ) (seen : Sharing δ) :
    Dialogue.Safe Sharing.answer (agreement build file) (fun got sharing => got = file.resolved build dataset ∧
      ∀ resolved, got = .ok resolved → sharing.indexes dataset = some resolved)
      (chunks build file dataset) seen := by
  unfold chunks
  refine (index_safe dataset seen).bind ?_ (by simp) (by simp)
  rintro found sharing ⟨same, true_, -⟩
  cases same
  cases held : sharing.indexes dataset with
  | some resolved =>
    refine ⟨(true_ resolved held).symm, fun other same => ?_⟩
    cases same
    exact held
  | none =>
    cases walked : file.resolved build dataset with
    | ok resolved =>
      have sets : Dialogue.Safe Sharing.answer (agreement build file)
          (fun got sharing => got = .ok resolved ∧ ∀ other, got = .ok other → sharing.indexes dataset = some other)
          (do
            setIndex dataset resolved
            let found ← index dataset
            lift (expect found)) sharing := by
        refine (setIndex_safe walked sharing).bind ?_ (by simp) (by simp)
        rintro ⟨⟩ after ⟨-, set⟩
        refine (index_safe dataset after).bind ?_ (by simp) (by simp)
        rintro found last ⟨same, -, stays⟩
        cases same
        have here := stays resolved set
        simp only [here]
        refine ⟨rfl, fun other same => ?_⟩
        cases same
        exact here
      have begins : (file.datasets dataset).resolveChunks build file.view = .ok resolved := walked
      simp only [begins]
      exact sets
    | error e =>
      have begins : (file.datasets dataset).resolveChunks build file.view = .error e := walked
      simp only [begins]
      exact ⟨rfl, by simp⟩
    | panic p =>
      have begins : (file.datasets dataset).resolveChunks build file.view = .panic p := walked
      simp only [begins]
      exact ⟨rfl, by simp⟩

theorem chunks_gives (dataset : δ) :
    Dialogue.Gives Sharing.answer (agreement build file) proviso (file.resolved build dataset)
      (chunks build file dataset) :=
  fun seen => (chunks_safe dataset seen).mono fun _ _ got => .inl got.1

/-- A dataset whose index resolves is prepared from then on. -/
theorem prepare_safe (dataset : δ) (seen : Sharing δ) :
    Dialogue.Safe Sharing.answer (agreement build file) (fun got sharing =>
      got = (fun _ => ()) <$> file.resolved build dataset ∧ (got = .ok () → (sharing.indexes dataset).isSome))
      (prepare build file dataset) seen := by
  refine (chunks_safe dataset seen).bind ?_ ?_ ?_
  · rintro resolved sharing ⟨same, held⟩
    exact ⟨by simp [← same], fun _ => by simp [held resolved rfl]⟩
  · rintro e sharing ⟨same, -⟩
    exact ⟨by simp [← same], by simp⟩
  · rintro p sharing ⟨same, -⟩
    exact ⟨by simp [← same], by simp⟩

omit [DecidableEq δ] in
/-- A read that comes by the index it needs has that of the file. -/
theorem resolved_of_plainIndex {dataset : δ} {chunks : Option (List ChunkRecord)}
    (indexed : Read.plainIndex (file.datasets dataset) (file.resolved build dataset) = .ok chunks) :
    file.resolved build dataset = .ok chunks := by
  cases layout : (file.datasets dataset).layout with
  | chunked =>
    simp only [Read.plainIndex, layout] at indexed
    obtain ⟨found, walked, same⟩ := Outcome.bind_eq_ok.mp indexed
    cases found with
    | none => cases same
    | some found =>
      cases same
      exact walked
  | _ =>
    simp only [Read.plainIndex, layout] at indexed
    cases indexed
    simp [OpenFile.resolved, DatasetIndex.resolveChunks, layout]

theorem neededIndex_gives (dataset : δ) :
    Dialogue.Gives Sharing.answer (agreement build file) proviso
      (Read.plainIndex (file.datasets dataset) (file.resolved build dataset)) (neededIndex build file dataset) := by
  unfold neededIndex Read.plainIndex
  cases (file.datasets dataset).layout with
  | chunked =>
    refine (chunks_gives dataset).bind fun found _ => ?_
    cases found with
    | none => exact Dialogue.Gives.lift proviso _
    | some chunks => exact Dialogue.Gives.pure proviso _
  | _ => exact Dialogue.Gives.pure proviso none

end Resolving

section Reading

variable (serves : file.source.Serves file.image)

include serves

/-- Every run is copied out of what the file holds there. -/
theorem readRuns_gives (address elementSize : Nat) (runs : List (Code Read.ElementRun)) : ∀ out : Bytes,
    Dialogue.Gives Sharing.answer (agreement build file) proviso
      (Read.plainRuns build (Read.fetched file.ctx file.image file.own.io.isSome) address elementSize runs out)
      (readRuns build file address elementSize runs out) := by
  induction runs with
  | nil => exact fun out => Dialogue.Gives.pure proviso out
  | cons next runs ih =>
    intro out
    refine (Dialogue.Gives.lift proviso _).bind fun run _ => ?_
    refine (Dialogue.Gives.lift proviso _).bind fun place _ => ?_
    refine (read_gives serves place.1 place.2).bind fun bytes _ => ?_
    exact (Dialogue.Gives.lift proviso _).bind fun out _ => ih out

variable (batches : file.source.ServesRanges file.image) (identified : file.Identified build) {dataset : δ}

include batches identified

theorem readStored_gives {chunks : Option (List ChunkRecord)}
    (indexed : Read.plainIndex (file.datasets dataset) (file.resolved build dataset) = .ok chunks)
    (slab : Hyperslab) (out : Bytes) :
    Dialogue.Gives Sharing.answer (agreement build file) (file.Readable build dataset)
      (Read.plainStored build (Read.fetched file.ctx file.image file.own.io.isSome)
        (file.chunkBytes build dataset) (file.datasets dataset) chunks slab out)
      (readStored build file (file.datasets dataset) chunks slab (file.datasets dataset).elementSize out) := by
  unfold readStored Read.plainStored
  cases layout : (file.datasets dataset).layout with
  | compact data => exact Dialogue.Gives.lift _ _
  | contiguous address size =>
    cases address with
    | none => exact Dialogue.Gives.pure _ out
    | some address => exact (Dialogue.Gives.lift _ _).bind fun runs _ => readRuns_gives serves address _ runs out
  | chunked address chunkDims width index =>
    cases chunks with
    | none => exact Dialogue.Gives.lift _ _
    | some chunks =>
      have resolved := resolved_of_plainIndex indexed
      have sizes : ∀ record ∈ chunks, record.size < wordSize := fun record member =>
        (DatasetIndex.narrow_of_resolveChunks resolved record member).trans (by decide)
      exact readChunked_gives identified resolved serves batches layout sizes slab out

/-- In every interleaving, a read of a selection returns what the file has there, or fails with what it
fetches ahead. -/
theorem readHyperslab_gives (slab : Hyperslab) :
    Dialogue.Gives Sharing.answer (agreement build file) (file.Readable build dataset)
      (Read.plainHyperslab build (Read.fetched file.ctx file.image file.own.io.isSome)
        (file.chunkBytes build dataset) (file.datasets dataset) (file.resolved build dataset) slab)
      (readHyperslab build file dataset slab) := by
  unfold readHyperslab Read.plainHyperslab
  refine (Dialogue.Gives.lift _ _).bind fun _ _ => ?_
  dsimp only
  split
  · exact Dialogue.Gives.lift _ _
  · refine (Dialogue.Gives.lift _ _).bind fun total _ => ?_
    refine (neededIndex_gives dataset).bind fun chunks indexed => ?_
    refine (Dialogue.Gives.lift _ _).bind fun out _ => ?_
    refine (readStored_gives serves batches identified indexed slab _).bind fun out _ => ?_
    exact Dialogue.Gives.pure _ _

end Reading

end Oxcdf.Concurrent
