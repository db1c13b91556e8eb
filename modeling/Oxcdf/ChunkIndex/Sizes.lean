import Oxcdf.Cursor.Steady
import Oxcdf.Index.Chunks

/-! The sizes of chunks: every chunk index stores them in 32 bits, or cuts them to as many. -/

set_option autoImplicit false

namespace Oxcdf

open Foundation

/-- The size of a record fits the field that the file has for it. -/
def ChunkRecord.Narrow (record : ChunkRecord) : Prop := record.size < 2 ^ 32

def ChunkIndex.Element.Narrow (element : ChunkIndex.Element) : Prop := element.size < 2 ^ 32

namespace ChunkIndex

section Elements

variable {build : Build} {view : View} {sizes : Sizes} {elements : List Element}

theorem yields_element (entrySize clientId : Nat) :
    (readElement sizes entrySize clientId).Yields Element.Narrow := by
  unfold readElement
  split
  · refine Session.Yields.last fun address => Session.Yields.last fun width => Session.Yields.last fun size =>
      Session.Yields.last fun mask => Session.Yields.pure ?_
    exact Nat.mod_lt _ (Nat.two_pow_pos 32)
  · exact Session.Yields.last fun address => Session.Yields.pure (Nat.two_pow_pos 32)

theorem yields_elements (count entrySize clientId : Nat) :
    (readElements sizes count entrySize clientId).Yields fun elements => ∀ element ∈ elements, element.Narrow :=
  Session.Yields.last fun _ => Format.yields_times (yields_element entrySize clientId) count

theorem narrow_of_readElements {count entrySize clientId : Nat} {cursor : Cursor}
    (read : (readElements sizes count entrySize clientId cursor).1 = .ok elements) :
    ∀ element ∈ elements, element.Narrow :=
  yields_elements count entrySize clientId cursor elements _ (Prod.ext read rfl)

theorem narrow_of_readFixedArray {address expected : Nat}
    (read : readFixedArray build view address expected = .ok elements) : ∀ element ∈ elements, element.Narrow := by
  obtain ⟨buf, -, read⟩ := Outcome.bind_eq_ok.mp read
  obtain ⟨header, -, read⟩ := Outcome.bind_eq_ok.mp read
  obtain ⟨-, -, read⟩ := Outcome.bind_eq_ok.mp read
  cases here : header.dataBlockAddress with
  | none =>
    simp only [here] at read
    cases read
    nofun
  | some dataBlockAddress =>
    simp only [here] at read
    obtain ⟨-, -, read⟩ := Outcome.bind_eq_ok.mp read
    obtain ⟨entries, -, read⟩ := Outcome.bind_eq_ok.mp read
    obtain ⟨before, -, read⟩ := Outcome.bind_eq_ok.mp read
    obtain ⟨blockLen, -, read⟩ := Outcome.bind_eq_ok.mp read
    obtain ⟨block, -, read⟩ := Outcome.bind_eq_ok.mp read
    obtain ⟨-, -, read⟩ := Outcome.bind_eq_ok.mp read
    obtain ⟨-, -, read⟩ := Outcome.bind_eq_ok.mp read
    exact narrow_of_readElements read

theorem narrow_of_readDataBlock {header : ExtensibleArrayHeader} {address wanted capacity : Nat}
    (read : readDataBlock view header address wanted capacity = .ok elements) :
    ∀ element ∈ elements, element.Narrow := by
  obtain ⟨block, -, read⟩ := Outcome.bind_eq_ok.mp read
  obtain ⟨-, -, read⟩ := Outcome.bind_eq_ok.mp read
  obtain ⟨-, -, read⟩ := Outcome.bind_eq_ok.mp read
  exact narrow_of_readElements read

theorem narrow_of_appendDataBlock {header : ExtensibleArrayHeader} {out : List Element} {sblk : Nat}
    {address : Option Nat} (before : ∀ element ∈ out, element.Narrow)
    (read : appendDataBlock view header out sblk address = .ok elements) :
    ∀ element ∈ elements, element.Narrow := by
  unfold appendDataBlock at read
  split at read
  · cases read
    exact before
  · cases address with
    | none =>
      cases read
      simp only [List.forall_mem_append]
      refine ⟨before, fun element member => ?_⟩
      rw [List.eq_of_mem_replicate member]
      exact Nat.two_pow_pos 32
    | some address =>
      obtain ⟨found, block, same⟩ := Outcome.bind_eq_ok.mp read
      cases same
      simp only [List.forall_mem_append]
      exact ⟨before, narrow_of_readDataBlock block⟩

theorem narrow_of_readDataBlocks {header : ExtensibleArrayHeader} {out : List Element}
    {addresses : List (Option Nat)} (before : ∀ element ∈ out, element.Narrow)
    (read : readDataBlocks view header out addresses = .ok elements) : ∀ element ∈ elements, element.Narrow := by
  have appended (places : List (Option Nat × Nat)) : ∀ {out last : List Element},
      (∀ element ∈ out, element.Narrow) →
      places.foldlM (fun out place => appendDataBlock view header out place.2 place.1) out = .ok last →
      ∀ element ∈ last, element.Narrow := by
    induction places with
    | nil =>
      intro out last before done
      cases done
      exact before
    | cons place places ih =>
      intro out last before done
      obtain ⟨next, step, done⟩ := Outcome.bind_eq_ok.mp done
      exact ih (narrow_of_appendDataBlock before step) done
  obtain ⟨last, done, read⟩ := Outcome.bind_eq_ok.mp read
  split at read
  · cases read
  · cases read
    exact appended _ before done

theorem narrow_of_readExtensibleArray {address : Nat}
    (read : readExtensibleArray build view address = .ok elements) : ∀ element ∈ elements, element.Narrow := by
  obtain ⟨buf, -, read⟩ := Outcome.bind_eq_ok.mp read
  obtain ⟨header, -, read⟩ := Outcome.bind_eq_ok.mp read
  obtain ⟨-, -, read⟩ := Outcome.bind_eq_ok.mp read
  cases here : header.indexBlockAddress with
  | none =>
    simp only [here] at read
    cases read
    nofun
  | some indexBlockAddress =>
    simp only [here] at read
    split at read
    · cases read
    · obtain ⟨indexLen, -, read⟩ := Outcome.bind_eq_ok.mp read
      obtain ⟨block, -, read⟩ := Outcome.bind_eq_ok.mp read
      obtain ⟨-, -, read⟩ := Outcome.bind_eq_ok.mp read
      obtain ⟨-, -, read⟩ := Outcome.bind_eq_ok.mp read
      obtain ⟨out, inline, read⟩ := Outcome.bind_eq_ok.mp read
      have narrow : ∀ element ∈ out, element.Narrow := by
        have yields : (readInline view.sizes header).Yields fun elements => ∀ element ∈ elements, element.Narrow :=
          (yields_elements _ _ _).bind fun out narrow => Session.Yields.last fun _ => Session.Yields.pure narrow
        exact yields _ out _ (Prod.ext inline rfl)
      split at read
      · cases read
        exact narrow
      · obtain ⟨addresses, -, read⟩ := Outcome.bind_eq_ok.mp read
        exact narrow_of_readDataBlocks narrow read

theorem narrow_of_elementsToRecords {grid chunkDims : List Nat} {unfilteredSize : Nat}
    (before : ∀ element ∈ elements, element.Narrow) :
    ∀ record ∈ elementsToRecords elements grid chunkDims unfilteredSize, record.Narrow := by
  intro record member
  obtain ⟨⟨element, i⟩, among, found⟩ := List.mem_filterMap.mp member
  obtain ⟨address, -, rfl⟩ := Option.map_eq_some_iff.mp found
  change (if element.size = 0 then unfilteredSize % 2 ^ 32 else element.size) < 2 ^ 32
  split
  · exact Nat.mod_lt _ (Nat.two_pow_pos 32)
  · exact before element (List.fst_mem_of_mem_zipIdx among)

end Elements

section Records

variable {build : Build} {view : View} {records : List ChunkRecord}

theorem narrow_of_readBtree2Chunks {address : Nat} {chunkDims : List Nat} {filtered : Bool}
    (read : readBtree2Chunks build view address chunkDims filtered = .ok records) :
    ∀ record ∈ records, record.Narrow := by
  obtain ⟨btree, -, read⟩ := Outcome.bind_eq_ok.mp read
  dsimp only at read
  split at read
  · cases read
  · intro record member
    obtain ⟨bytes, -, found⟩ := Outcome.exists_of_mem_mapM read record member
    have place (width : Nat) : (readPlace view.sizes filtered width).Yields fun place => place.2.1 < 2 ^ 32 := by
      unfold readPlace
      refine Session.Yields.last fun address => ?_
      split
      · exact Session.Yields.last fun size => Session.Yields.last fun mask =>
          Session.Yields.pure (Nat.mod_lt _ (Nat.two_pow_pos 32))
      · exact Session.Yields.pure (Nat.two_pow_pos 32)
    have yields (dims width : Nat) :
        (readChunkRecord build view.sizes chunkDims filtered dims width).Yields ChunkRecord.Narrow :=
      (place width).bind fun found narrow => Session.Yields.last fun offset => Session.Yields.pure narrow
    exact yields _ _ _ record _ (Prod.ext found rfl)

theorem narrow_of_readAt {index : ChunkIndex} {address width : Nat} {shape chunkDims : List Nat} {filtered : Bool}
    (read : readAt (readBtree2Chunks build view) build view index address shape chunkDims width filtered =
      .ok records) : ∀ record ∈ records, record.Narrow := by
  have small (n : Nat) : min n (2 ^ 32 - 1) < 2 ^ 32 :=
    (Nat.min_le_right _ _).trans_lt (Nat.sub_lt (Nat.two_pow_pos 32) Nat.one_pos)
  cases index with
  | singleChunk filteredSize filterMask =>
    cases read
    simp only [List.forall_mem_singleton, singleRecord, ChunkRecord.Narrow]
    split
    · exact Nat.mod_lt _ (Nat.two_pow_pos 32)
    · exact small _
  | implicit =>
    obtain ⟨count, -, same⟩ := Outcome.bind_eq_ok.mp read
    cases same
    exact List.forall_mem_map.mpr fun i _ => small _
  | fixedArray bits =>
    obtain ⟨expected, -, read⟩ := Outcome.bind_eq_ok.mp read
    obtain ⟨elements, array, same⟩ := Outcome.bind_eq_ok.mp read
    cases same
    exact narrow_of_elementsToRecords (narrow_of_readFixedArray array)
  | extensibleArray =>
    obtain ⟨elements, array, same⟩ := Outcome.bind_eq_ok.mp read
    cases same
    exact narrow_of_elementsToRecords (narrow_of_readExtensibleArray array)
  | btreeV2 =>
    obtain ⟨stored, tree, same⟩ := Outcome.bind_eq_ok.mp read
    cases same
    refine List.forall_mem_map.mpr fun record member => ?_
    unfold fillSize
    split
    · exact small _
    · exact narrow_of_readBtree2Chunks tree record member
  | btreeV1 => cases read

end Records

end ChunkIndex

section Resolved

variable {build : Build} {view : View}

theorem Btree1.narrow_of_readNode {rank address : Nat} {node : Btree1.Node}
    (read : Btree1.readNode build view rank address = .ok node) : ∀ key ∈ node.chunkKeys, key.size < 2 ^ 32 := by
  have chunkKey : (Btree1.parseChunkKey rank).Yields fun key => key.size < 2 ^ 32 := by
    refine Cursor.yields_u32.bind fun size narrow => ?_
    iterate 4 refine Session.Yields.last fun _ => ?_
    exact Session.Yields.pure narrow
  have key (keyLen nodeType : Nat) : (Btree1.parseKey rank keyLen nodeType).Yields
      fun found => ∀ key : Btree1.ChunkKey, found = some key → key.size < 2 ^ 32 := by
    unfold Btree1.parseKey
    split
    · exact Session.Yields.last fun _ => Session.Yields.pure nofun
    · refine chunkKey.bind fun key narrow => Session.Yields.pure fun other same => ?_
      cases same
      exact narrow
  have entry (keyLen nodeType : Nat) : (Btree1.parseEntry view.sizes rank keyLen nodeType).Yields
      fun entry => ∀ key : Btree1.ChunkKey, entry.1 = some key → key.size < 2 ^ 32 :=
    (key keyLen nodeType).bind fun key narrow => Session.Yields.last fun child => Session.Yields.pure narrow
  obtain ⟨header, -, read⟩ := Outcome.bind_eq_ok.mp read
  obtain ⟨⟨nodeType, level, entriesUsed⟩, -, read⟩ := Outcome.bind_eq_ok.mp read
  obtain ⟨keyLen, -, read⟩ := Outcome.bind_eq_ok.mp read
  iterate 5 obtain ⟨_, -, read⟩ := Outcome.bind_eq_ok.mp read
  obtain ⟨entries, found, same⟩ := Outcome.bind_eq_ok.mp read
  cases same
  intro key member
  obtain ⟨pair, among, here⟩ := List.mem_filterMap.mp member
  exact Format.yields_times (entry keyLen nodeType) entriesUsed _ entries _ (Prod.ext found rfl) pair among key here

theorem Btree1.narrow_of_readChunkIndex {address rank : Nat} {records : List ChunkRecord}
    (read : Btree1.readChunkIndex build view address rank = .ok records) : ∀ record ∈ records, record.Narrow := by
  obtain ⟨out, walked, same⟩ := Outcome.bind_eq_ok.mp read
  cases same
  have visited (node : Nat) (found : List ChunkRecord) (below : List Nat)
      (visit : Btree1.visitChunkNode build view rank node = .ok (found, below)) :
      ∀ record ∈ found, record.Narrow := by
    obtain ⟨node, here, visit⟩ := Outcome.bind_eq_ok.mp visit
    split at visit
    · cases visit
    · split at visit
      · cases visit
        rw [← List.map_uncurry_zip_eq_zipWith]
        exact List.forall_mem_map.mpr fun pair member =>
          Btree1.narrow_of_readNode here pair.1 (List.of_mem_zip member).1
      · cases visit
        simp
  intro record member
  rw [ChunkIndex.sortByOffset, List.mem_mergeSort] at member
  exact Explore.walk_all visited (by simp) walked record member

/-- Whichever way the chunks of a dataset are indexed, their sizes are words of 32 bits. -/
theorem DatasetIndex.narrow_of_resolveChunks {dataset : DatasetIndex} {chunks : List ChunkRecord}
    (resolved : dataset.resolveChunks build view = .ok (some chunks)) : ∀ record ∈ chunks, record.Narrow := by
  unfold DatasetIndex.resolveChunks at resolved
  split at resolved
  · next address chunkDims stored index layout =>
    have v4 {index : ChunkIndex} {width : Nat} (read : some <$> ChunkIndex.read
        (ChunkIndex.readBtree2Chunks build view) build view index address dataset.shape chunkDims width
        (!dataset.pipeline.isEmpty) = .ok (some chunks)) : ∀ record ∈ chunks, record.Narrow := by
      obtain ⟨found, read, same⟩ := Outcome.map_eq_ok.mp read
      cases same
      cases address with
      | none =>
        cases read
        nofun
      | some address =>
        obtain ⟨records, unsorted, same⟩ := Outcome.bind_eq_ok.mp read
        cases same
        intro record member
        rw [ChunkIndex.sortByOffset, List.mem_mergeSort] at member
        exact ChunkIndex.narrow_of_readAt unsorted record member
    cases index with
    | btreeV1 =>
      cases address with
      | none =>
        cases resolved
        nofun
      | some address =>
        obtain ⟨found, read, same⟩ := Outcome.map_eq_ok.mp resolved
        cases same
        exact Btree1.narrow_of_readChunkIndex read
    | _ => exact v4 resolved
  · cases resolved

end Resolved

end Oxcdf
