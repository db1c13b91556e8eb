import Oxcdf.Btree2.Collected
import Oxcdf.ChunkIndex.Btree
import Oxcdf.ChunkIndex.Positions
import Oxcdf.Foundation.Addressing

/-! Records of version 2 B-tree chunk indexes as they are stored, and what is read of them.

How many offsets a record has, and how wide the size of a filtered chunk is, both follow
from the size of the record. A size of eight bytes is taken for one offset more: all fields
behind it are read a place too early.
-/

set_option autoImplicit false

namespace Oxcdf.ChunkIndex

open Foundation Foundation.Buffer Foundation.Format

/-- A chunk as its record names it. Only a filtered one has a size and a mask. -/
structure ChunkEntry where
  address : Nat
  size : Nat
  filterMask : Nat
  /-- Position of the chunk on each axis, in chunks. -/
  scaled : List Nat

namespace ChunkEntry

section Stored

variable (sizes : Sizes) (filtered : Bool) (width : Nat) (entry : ChunkEntry)

def encodePlace : Bytes :=
  encodeAddress sizes (some entry.address) ++
    if filtered then littleEndian width entry.size ++ littleEndian 4 entry.filterMask else []

def encode : Bytes := entry.encodePlace sizes filtered width ++ entry.scaled.flatMap (littleEndian 8)

/-- The length of a record, with so many offsets. -/
def recordLen (rank : Nat) : Nat := sizes.offset + ((if filtered then width + 4 else 0) + rank * 8)

/-- The fields hold what is stored in them. -/
structure Holds : Prop where
  address : entry.address < undefinedForWidth sizes.offset
  size : filtered → entry.size < 256 ^ width
  filterMask : filtered → entry.filterMask < 256 ^ 4
  scaled : ∀ position ∈ entry.scaled, position < 256 ^ 8

/-- A chunk of a dataset: it has a position on each axis, and the element it starts with has a number. -/
structure Fits (chunkDims : List Nat) : Prop extends entry.Holds sizes filtered width where
  axes : entry.scaled.length = chunkDims.length
  starts : ∀ start ∈ List.zipWith (· * ·) entry.scaled chunkDims, start < wordSize
  stored : filtered → 1 ≤ entry.size ∧ entry.size < 2 ^ 32

def record (chunkDims : List Nat) (wholeSize : Nat) : ChunkRecord where
  size := if filtered then entry.size else wholeSize
  filterMask := if filtered then entry.filterMask else 0
  offset := List.zipWith (· * ·) entry.scaled chunkDims
  address := entry.address

/-- The fields behind an eight-byte size a place too early: a size of no bytes, the size for the mask,
and the mask in the upper half of an offset. -/
def moved : ChunkEntry :=
  ⟨entry.address, 0, entry.size, entry.filterMask * 2 ^ 32 :: entry.scaled⟩

variable {sizes filtered width entry}

theorem littleEndian_mul_pow (width n : Nat) : littleEndian width (n * 256 ^ width) = littleEndian width 0 := by
  induction width with
  | zero => rfl
  | succ width ih =>
    have shift : n * 256 ^ (width + 1) = n * 256 ^ width * 256 := by rw [Nat.pow_succ, ← Nat.mul_assoc]
    have low : UInt8.ofNat (n * 256 ^ width * 256) = UInt8.ofNat 0 := by
      apply UInt8.toNat_inj.mp
      simp
    rw [littleEndian, littleEndian, shift, low, Nat.mul_div_cancel _ (by decide), ih]

theorem encode_moved (small : entry.size < 2 ^ 32) :
    entry.encode sizes true 8 = entry.moved.encode sizes true 0 := by
  have size : littleEndian 8 entry.size = littleEndian 4 entry.size ++ littleEndian 4 0 := by
    have none : entry.size / 256 ^ 4 = 0 := Nat.div_eq_of_lt small
    rw [littleEndian_add 4 4, none]
  have mask : littleEndian 8 (entry.filterMask * 2 ^ 32) =
    littleEndian 4 0 ++ littleEndian 4 entry.filterMask := by
    have high : entry.filterMask * 2 ^ 32 / 256 ^ 4 = entry.filterMask := Nat.mul_div_cancel _ (by decide)
    have low : littleEndian 4 (entry.filterMask * 2 ^ 32) = littleEndian 4 0 :=
      littleEndian_mul_pow 4 entry.filterMask
    rw [littleEndian_add 4 4, high, low]
  have none : littleEndian 0 0 = [] := rfl
  simp only [encode, encodePlace, moved, if_true, List.flatMap_cons, size, mask, none, List.nil_append,
    List.append_assoc]

theorem Holds.moved (holds : entry.Holds sizes true 8) (small : entry.size < 2 ^ 32) :
    entry.moved.Holds sizes true 0 where
  address := holds.address
  size _ := Nat.one_pos
  filterMask _ := small
  scaled := by
    have mask := holds.filterMask rfl
    refine List.forall_mem_cons.mpr ⟨?_, holds.scaled⟩
    omega

end Stored

section Read

variable {build : Build} {sizes : Sizes} {filtered : Bool} {width : Nat} {entry : ChunkEntry}

theorem reads_place (narrow : sizes.offset ≤ 8) (few : width ≤ 8) (holds : entry.Holds sizes filtered width) :
    Reads (readPlace sizes filtered width) (entry.encodePlace sizes filtered width)
      (entry.address, if filtered then (entry.size % 2 ^ 32, entry.filterMask) else (0, 0)) := by
  unfold readPlace encodePlace
  apply (reads_addressRequired narrow holds.address _).bind
  cases filtered with
  | false => exact Reads.pure _
  | true =>
    rw [Nat.mod_eq_of_lt (by omega)]
    apply (Cursor.reads_uint few (holds.size rfl)).bind
    exact (Cursor.reads_u32 (holds.filterMask rfl)).bind_pure fun mask =>
      (entry.address, entry.size % 2 ^ 32, mask)

/-- Scaled offsets are read as the words their products with the chunk shape are put into. -/
theorem readOffsets_eq {scaled : List Nat} (fits : ∀ position ∈ scaled, position < 256 ^ 8)
    {chunkDims : List Nat} (all : chunkDims.length ≤ scaled.length) (before : Bytes) :
    (readOffsets build scaled.length chunkDims ⟨before ++ scaled.flatMap (littleEndian 8), before.length⟩).1 =
      build.words (List.zipWith (· * ·) scaled chunkDims) := by
  induction scaled generalizing chunkDims before with
  | nil =>
    obtain rfl : chunkDims = [] := List.eq_nil_of_length_eq_zero (Nat.le_zero.mp all)
    rfl
  | cons position scaled ih =>
    obtain ⟨small, rest⟩ := List.forall_mem_cons.mp fits
    have first {α : Type} (next : Nat → Parse α) := (Cursor.reads_u64 small).step next before
      (scaled.flatMap (littleEndian 8))
    rw [List.flatMap_cons, List.length_cons]
    cases chunkDims with
    | nil =>
      have later := @ih rest [] (Nat.zero_le _) (before ++ littleEndian 8 position)
      rw [readOffsets, first]
      simpa using later
    | cons dim chunkDims =>
      have later := ih rest (Nat.le_of_succ_le_succ all) (before ++ littleEndian 8 position)
      rw [readOffsets, first, Session.fst_lift_bind, List.zipWith_cons_cons, Build.words_cons,
        ← later, Build.mul]
      apply congrArg
      funext start
      exact Session.fst_bind_pure _ _ _

theorem readChunkRecord_eq (narrow : sizes.offset ≤ 8) (few : width ≤ 8)
    (holds : entry.Holds sizes filtered width)
    {chunkDims : List Nat} (all : chunkDims.length ≤ entry.scaled.length) :
    (readChunkRecord build sizes chunkDims filtered entry.scaled.length width
        (Cursor.start (entry.encode sizes filtered width))).1 =
      (fun offset => ⟨if filtered then entry.size % 2 ^ 32 else 0, if filtered then entry.filterMask else 0,
        offset, entry.address⟩) <$> build.words (List.zipWith (· * ·) entry.scaled chunkDims) := by
  have offsets := @readOffsets_eq build _ holds.scaled chunkDims all (entry.encodePlace sizes filtered width)
  have place (next : Nat × Nat × Nat → Parse ChunkRecord) :=
    (reads_place narrow few holds).step next [] (entry.scaled.flatMap (littleEndian 8))
  unfold readChunkRecord
  simp only [List.nil_append, List.length_nil] at place
  rw [Cursor.start, encode, place, ← offsets]
  cases filtered <;> exact Session.fst_bind_pure _ _ _

end Read

end ChunkEntry

section Index

variable {build : Build} {view : View} {filtered : Bool} {width elementSize : Nat} {chunkDims shape : List Nat}
  {entries : List ChunkEntry}

/-- Each chunk once, sorted by offset. -/
def Returns (found : Code (List ChunkRecord)) (meant : List ChunkRecord) : Prop :=
  ∃ records, found = .ok records ∧ records.Perm meant ∧ records.Pairwise fun a b => a.offset ≤ b.offset

/-- A stored tree whose records are those of some chunks. -/
structure Indexes (view : View) (tree : BtreeV2.StoredTree) (layout : BtreeV2.NodeLayout) (filtered : Bool)
    (width rank : Nat) (entries : List ChunkEntry) : Prop where
  fits : tree.Fits view.sizes layout
  held : tree.Held layout view
  widths : BtreeV2.NodeLayout.derive .release tree.nodeSize tree.recordSize tree.depth
    view.sizes.offset = .ok layout
  nodes : tree.nodeCount ≤ BtreeV2.maxNodes
  recordSize : tree.recordSize = ChunkEntry.recordLen view.sizes filtered width rank
  records : tree.records = entries.map (ChunkEntry.encode view.sizes filtered width)

/-- The size of a whole chunk, cut to 32 bits. -/
def wholeSize (chunkDims : List Nat) (elementSize : Nat) : Nat :=
  min (chunkDims.prod * elementSize) (2 ^ 32 - 1)

theorem storedSize_eq :
    min (saturatingMul (elementCount chunkDims) elementSize) (2 ^ 32 - 1) =
      wholeSize chunkDims elementSize := by
  unfold wholeSize saturatingMul
  rw [elementCount_eq]
  rcases Nat.eq_zero_or_pos elementSize with rfl | positive
  · simp
  · rcases Nat.le_total chunkDims.prod (wordSize - 1) with small | large
    · rw [Nat.min_eq_left small, Nat.min_assoc]
      rfl
    · have beyond : wordSize - 1 ≤ chunkDims.prod * elementSize :=
        large.trans (Nat.le_mul_of_pos_right _ positive)
      have most : wordSize - 1 ≤ (wordSize - 1) * elementSize := Nat.le_mul_of_pos_right _ positive
      unfold wordSize at *
      rw [Nat.min_eq_right large]
      omega

theorem returns_iff {nodeSize splitPercent mergePercent address : Nat} {meant : List ChunkRecord} :
    Returns (read (readBtree2Chunks build view) build view (.btreeV2 nodeSize splitPercent mergePercent)
        (some address) shape chunkDims elementSize filtered) meant ↔
      ∃ records, readBtree2Chunks build view address chunkDims filtered = .ok records ∧
        (records.map (fillSize (wholeSize chunkDims elementSize))).Perm meant := by
  unfold read readAt
  dsimp only
  rw [storedSize_eq]
  cases readBtree2Chunks build view address chunkDims filtered with
  | ok records =>
    have same := sortByOffset_perm (records.map (fillSize (wholeSize chunkDims elementSize)))
    constructor
    · rintro ⟨_, ⟨⟩, once, -⟩
      exact ⟨records, rfl, same.symm.trans once⟩
    · rintro ⟨_, ⟨⟩, once⟩
      exact ⟨_, rfl, same.trans once, sortByOffset_sorted _⟩
  | error e => exact iff_of_false (fun ⟨_, found, _⟩ => nomatch found) fun ⟨_, found, _⟩ => nomatch found
  | panic why => exact iff_of_false (fun ⟨_, found, _⟩ => nomatch found) fun ⟨_, found, _⟩ => nomatch found

open ChunkEntry

/-- A size of up to seven bytes leaves no room for an offset more. -/
theorem storedDims_recordLen (sizes : Sizes) (rank : Nat) (narrow : filtered → width ≤ 7) :
    storedDims sizes (recordLen sizes filtered width rank) filtered = rank := by
  unfold storedDims recordLen
  cases filtered with
  | false => simp
  | true =>
    have few := narrow rfl
    simp only [if_true]
    omega

theorem readChunkRecord_aligned {sizes : Sizes} {entry : ChunkEntry} (offsetWidth : sizes.offset ≤ 8)
    (narrow : filtered → width ≤ 7) (fits : entry.Fits sizes filtered width chunkDims) :
    (readChunkRecord build sizes chunkDims filtered chunkDims.length
        (sizeWidth sizes (recordLen sizes filtered width chunkDims.length) chunkDims.length)
        (Cursor.start (entry.encode sizes filtered width))).1 = .ok (entry.record filtered chunkDims 0) := by
  have products := @Build.words_of_lt Error build _ fits.starts
  cases filtered with
  | false =>
    -- The width of the size is not looked at.
    have holds : entry.Holds sizes false 0 := ⟨fits.address, nofun, nofun, fits.scaled⟩
    have found := @readChunkRecord_eq build sizes false 0 entry offsetWidth
      (Nat.zero_le _) holds chunkDims fits.axes.ge
    rw [products, fits.axes] at found
    exact found
  | true =>
    have few := narrow rfl
    have whole : sizeWidth sizes (recordLen sizes true width chunkDims.length) chunkDims.length = width := by
      simp only [sizeWidth, recordLen, if_true]
      omega
    have found := @readChunkRecord_eq build sizes true width entry offsetWidth (by omega) fits.toHolds chunkDims
      fits.axes.ge
    rw [products, fits.axes, Nat.mod_eq_of_lt (fits.stored rfl).2] at found
    rw [whole]
    exact found

/-- The starts that a record with an eight-byte size is read as. -/
def movedStarts (chunkDims : List Nat) (entry : ChunkEntry) : List Nat :=
  List.zipWith (· * ·) entry.moved.scaled chunkDims

/-- What a record with an eight-byte size is read as: the size for the mask, and each position on the axis
after its own. -/
def movedRecord (chunkDims : List Nat) (size : Nat) (entry : ChunkEntry) : ChunkRecord :=
  ⟨size, entry.size, (movedStarts chunkDims entry).map (· % wordSize), entry.address⟩

theorem readChunkRecord_moved {sizes : Sizes} {entry : ChunkEntry} (offsetWidth : sizes.offset ≤ 8)
    (fits : entry.Fits sizes true 8 chunkDims) :
    (readChunkRecord build sizes chunkDims true (chunkDims.length + 1)
        (sizeWidth sizes (recordLen sizes true 8 chunkDims.length) (chunkDims.length + 1))
        (Cursor.start (entry.encode sizes true 8))).1 =
      (fun starts => ⟨0, entry.size, starts, entry.address⟩) <$> build.words (movedStarts chunkDims entry) := by
  have small := (fits.stored rfl).2
  have none : sizeWidth sizes (recordLen sizes true 8 chunkDims.length) (chunkDims.length + 1) = 0 := by
    simp only [sizeWidth, recordLen, if_true]
    omega
  have axes : entry.moved.scaled.length = chunkDims.length + 1 := congrArg (· + 1) fits.axes
  have read := @readChunkRecord_eq build sizes true 0 entry.moved offsetWidth (Nat.zero_le _)
    (fits.toHolds.moved small) chunkDims (by omega)
  rw [axes, ← encode_moved small] at read
  rw [none, read]
  rfl

theorem words_moved_eq_ok {entry : ChunkEntry} {found : ChunkRecord} :
    (fun starts => (⟨0, entry.size, starts, entry.address⟩ : ChunkRecord)) <$>
        (build.words (movedStarts chunkDims entry) : Code (List Nat)) = .ok found ↔
      (build = .debug → ∀ start ∈ movedStarts chunkDims entry, start < wordSize) ∧
        found = movedRecord chunkDims 0 entry := by
  rw [Outcome.map_eq_ok]
  simp only [Build.words_eq_ok]
  constructor
  · rintro ⟨_, ⟨words, rfl⟩, rfl⟩
    exact ⟨words, rfl⟩
  · rintro ⟨words, rfl⟩
    exact ⟨_, ⟨words, rfl⟩, rfl⟩

variable {tree : BtreeV2.StoredTree} {layout : BtreeV2.NodeLayout}

/-- Nothing is moved, or what was moved is the same records: no start overflows in a checked build. -/
def Unmoved (build : Build) (chunkDims : List Nat) (elementSize : Nat) (entries : List ChunkEntry) : Prop :=
  (∀ entry ∈ entries, build = .debug → ∀ start ∈ movedStarts chunkDims entry, start < wordSize) ∧
    (entries.map (movedRecord chunkDims (wholeSize chunkDims elementSize))).Perm
      (entries.map fun entry => entry.record true chunkDims 0)

/-- Which sizes the reader takes as they are meant. -/
def SizesKept (build : Build) (filtered : Bool) (width : Nat) (chunkDims : List Nat) (elementSize : Nat)
    (entries : List ChunkEntry) : Prop :=
  if filtered then width ≤ 7 ∨ Unmoved build chunkDims elementSize entries
  else entries = [] ∨ chunkDims.prod * elementSize ≤ 2 ^ 32 - 1

section Collected

variable {recordType : Nat} (offsetWidth : view.sizes.offset ≤ 8) {address : Nat}
  (chunks : ∀ entry ∈ entries, entry.Fits view.sizes filtered width chunkDims)
  (found : BtreeV2.read build view address =
    .ok ⟨recordType, recordLen view.sizes filtered width chunkDims.length,
    entries.map (encode view.sizes filtered width)⟩)

include offsetWidth chunks found

theorem readBtree2Chunks_aligned (narrow : filtered → width ≤ 7) :
    readBtree2Chunks build view address chunkDims filtered =
      .ok (entries.map fun entry => entry.record filtered chunkDims 0) := by
  unfold readBtree2Chunks
  rw [found, Outcome.ok_bind]
  dsimp only
  rw [storedDims_recordLen view.sizes chunkDims.length narrow, if_neg (Nat.lt_irrefl _), List.mapM_map]
  apply Outcome.mapM_of_ok
  intro entry member
  exact readChunkRecord_aligned offsetWidth narrow (chunks entry member)

theorem readBtree2Chunks_moved (wide : filtered = true ∧ width = 8) {records : List ChunkRecord} :
    readBtree2Chunks build view address chunkDims filtered = .ok records ↔
      (∀ entry ∈ entries, build = .debug → ∀ start ∈ movedStarts chunkDims entry, start < wordSize) ∧
        records = entries.map (movedRecord chunkDims 0) := by
  obtain ⟨rfl, rfl⟩ := wide
  have one : storedDims view.sizes (recordLen view.sizes true 8 chunkDims.length) true =
    chunkDims.length + 1 := by
    simp only [storedDims, recordLen, if_true]
    omega
  unfold readBtree2Chunks
  rw [found, Outcome.ok_bind]
  dsimp only
  rw [one, if_neg (Nat.not_lt.mpr (Nat.le_succ _)), List.mapM_map]
  have each := Outcome.mapM_congr fun entry member =>
    @readChunkRecord_moved build chunkDims _ entry offsetWidth (chunks entry member)
  exact (congrArg (· = .ok records) each).to_iff.trans (Outcome.mapM_eq_ok fun _ _ => words_moved_eq_ok)

end Collected

theorem fillSize_record {entry : ChunkEntry} (stored : filtered → 1 ≤ entry.size) (size : Nat) :
    fillSize size (entry.record filtered chunkDims 0) = entry.record filtered chunkDims size := by
  cases filtered with
  | false => rfl
  | true =>
    have positive := stored rfl
    exact if_neg (Nat.ne_of_gt positive)

/-- Chunks that are not filtered are as large as they are meant, if they are not cut to 32 bits. -/
theorem unfiltered_perm_iff :
    (entries.map fun entry => entry.record false chunkDims (wholeSize chunkDims elementSize)).Perm
        (entries.map fun entry => entry.record false chunkDims (chunkDims.prod * elementSize)) ↔
      entries = [] ∨ chunkDims.prod * elementSize ≤ 2 ^ 32 - 1 := by
  constructor
  · intro once
    cases entries with
    | nil => exact .inl rfl
    | cons entry entries =>
      right
      have member := once.subset List.mem_cons_self
      obtain ⟨other, -, same⟩ := List.mem_map.mp member
      have sizes : chunkDims.prod * elementSize = wholeSize chunkDims elementSize :=
        congrArg ChunkRecord.size same
      rw [sizes]
      exact Nat.min_le_right _ _
  · rintro (rfl | small)
    · exact List.Perm.refl _
    · rw [wholeSize, Nat.min_eq_left small]

/-- Once the tree is read, what is returned depends on the sizes alone. -/
theorem returns_found_iff {nodeSize splitPercent mergePercent address recordType : Nat} (few : width ≤ 8)
    (offsetWidth : view.sizes.offset ≤ 8)
    (chunks : ∀ entry ∈ entries, entry.Fits view.sizes filtered width chunkDims)
    (found : BtreeV2.read build view address = .ok ⟨recordType,
      recordLen view.sizes filtered width chunkDims.length, entries.map (encode view.sizes filtered width)⟩) :
    Returns (read (readBtree2Chunks build view) build view (.btreeV2 nodeSize splitPercent mergePercent)
        (some address) shape chunkDims elementSize filtered)
        (entries.map fun entry => entry.record filtered chunkDims (chunkDims.prod * elementSize)) ↔
      SizesKept build filtered width chunkDims elementSize entries := by
  rw [returns_iff]
  by_cases narrow : filtered → width ≤ 7
  · rw [readBtree2Chunks_aligned offsetWidth chunks found narrow]
    have filled : (entries.map fun entry => entry.record filtered chunkDims 0).map
        (fillSize (wholeSize chunkDims elementSize)) =
        entries.map fun entry => entry.record filtered chunkDims (wholeSize chunkDims elementSize) := by
      rw [List.map_map]
      apply List.map_congr_left
      intro entry member
      exact fillSize_record (fun held => ((chunks entry member).stored held).1) _
    simp only [Outcome.ok.injEq, exists_eq_left', filled]
    cases filtered with
    | false => exact unfiltered_perm_iff
    | true => exact iff_of_true (List.Perm.refl _) (.inl (narrow rfl))
  · obtain ⟨held, wide⟩ := Classical.not_imp.mp narrow
    have wide : filtered = true ∧ width = 8 := ⟨held, by omega⟩
    simp only [readBtree2Chunks_moved offsetWidth chunks found wide]
    obtain ⟨rfl, rfl⟩ := wide
    have filled : (entries.map (movedRecord chunkDims 0)).map (fillSize (wholeSize chunkDims elementSize)) =
        entries.map (movedRecord chunkDims (wholeSize chunkDims elementSize)) := List.map_map
    constructor
    · rintro ⟨_, ⟨starts, rfl⟩, once⟩
      rw [filled] at once
      exact .inr ⟨starts, once⟩
    · rintro (narrow | ⟨starts, once⟩)
      · omega
      · exact ⟨_, ⟨starts, rfl⟩, filled ▸ once⟩

/-- Each chunk of a stored index comes back as its record says, exactly if its tree can be counted and its
sizes are kept: a size of eight bytes has the fields behind it read a place too early. -/
theorem btree_records_iff {nodeSize splitPercent mergePercent : Nat} (few : width ≤ 8)
    (chunks : ∀ entry ∈ entries, entry.Fits view.sizes filtered width chunkDims)
    (indexes : Indexes view tree layout filtered width chunkDims.length entries) :
    Returns (read (readBtree2Chunks build view) build view (.btreeV2 nodeSize splitPercent mergePercent)
        (some tree.address) shape chunkDims elementSize filtered)
        (entries.map fun entry => entry.record filtered chunkDims (chunkDims.prod * elementSize)) ↔
      (build = .debug →
        (BtreeV2.derivedLevel tree.nodeSize tree.recordSize view.sizes.offset tree.depth).cumMaxNrec <
          wordSize) ∧
      SizesKept build filtered width chunkDims elementSize entries := by
  by_cases small : build = .debug →
      (BtreeV2.derivedLevel tree.nodeSize tree.recordSize view.sizes.offset tree.depth).cumMaxNrec < wordSize
  · have found := BtreeV2.read_of_countable indexes.fits indexes.held indexes.widths indexes.nodes small
    rw [indexes.recordSize, indexes.records] at found
    rw [and_iff_right small]
    exact returns_found_iff few indexes.fits.widths.offset_le chunks found
  · obtain ⟨rfl, large⟩ := Classical.not_imp.mp small
    have panics := BtreeV2.read_of_uncountable indexes.fits indexes.held (Nat.not_lt.mp large)
    refine iff_of_false ?_ fun kept => small kept.1
    rw [returns_iff]
    rintro ⟨records, found, -⟩
    obtain ⟨why, same⟩ := panics
    rw [readBtree2Chunks, same] at found
    cases found

end Index

section Sample

open ChunkEntry

/-- The second and the fourth chunk of a dataset with one axis, stored in six and in five bytes. -/
def sampleEntries : List ChunkEntry := [⟨8192, 6, 1, [1]⟩, ⟨4096, 5, 0, [3]⟩]

def sampleRecords (width : Nat) : List Bytes := sampleEntries.map fun entry => entry.encode ⟨8, 8⟩ true width

/-- A tree with one leaf of two records, whose size field has some width. -/
def sampleTree (width : Nat) : BtreeV2.StoredTree where
  address := 0
  recordType := 11
  nodeSize := 512
  recordSize := 20 + width
  depth := 0
  splitPercent := 100
  mergePercent := 40
  root := some ⟨38, sampleRecords width⟩

def sampleLayout : BtreeV2.NodeLayout := ⟨1, [0]⟩

def encodeSampleLeaf (width : Nat) : Bytes :=
  BtreeV2.Body.encode sampleLayout 8 11 0 (sampleRecords width)

variable {width : Nat}

theorem sampleRecords_length : ∀ record ∈ sampleRecords width, record.length = 20 + width := by
  simp [sampleRecords, sampleEntries, encode, encodePlace, encodeAddress]
  omega

theorem encodeSampleLeaf_length : (encodeSampleLeaf width).length = 50 + 2 * width := by
  have records : (sampleRecords width).flatten.length = 2 * (20 + width) := by
    simp [sampleRecords, sampleEntries, encode, encodePlace, encodeAddress]
    omega
  rw [encodeSampleLeaf, BtreeV2.encode_leaf_length, records]
  omega

theorem sampleHeader_length : ((sampleTree width).encodeHeader ⟨8, 8⟩).length = 38 :=
  BtreeV2.encodeHeader_length

/-- A file with nothing but the tree in it. -/
def sampleView (width : Nat) (few : width ≤ 8) : View where
  file := ⟨(sampleTree width).encodeHeader ⟨8, 8⟩ ++ encodeSampleLeaf width, by
    rw [List.length_append, sampleHeader_length, encodeSampleLeaf_length, isizeMax]
    omega⟩
  baseAddress := 0
  sizes := ⟨8, 8⟩

theorem sampleEntries_fit (positive : 1 ≤ width) :
    ∀ entry ∈ sampleEntries, entry.Fits ⟨8, 8⟩ true width [4] := by
  have wide : 256 ^ 1 ≤ 256 ^ width := Nat.pow_le_pow_right (by decide) positive
  refine List.forall_mem_cons.mpr ⟨?_, List.forall_mem_singleton.mpr ?_⟩ <;>
    exact ⟨⟨by decide, fun _ => lt_of_lt_of_le (by decide) wide, fun _ => by decide, by decide⟩, rfl, by decide,
      fun _ => by decide⟩

theorem sampleTree_fits (few : width ≤ 8) : (sampleTree width).Fits ⟨8, 8⟩ sampleLayout where
  widths := ⟨by decide, by decide⟩
  recordType := by
    change 11 < 256 ^ 1
    decide
  nodeSize := by
    change BtreeV2.nodeOverhead < 512 ∧ 512 < 256 ^ 4
    decide
  recordSize := by
    change 0 < 20 + width ∧ 20 + width < 256 ^ 2
    omega
  depth := by
    change 0 < 256 ^ 2
    decide
  rootAddress := by
    rintro a ⟨⟩
    change 38 < undefinedForWidth 8
    decide
  rootRecords := by
    change 2 < 256 ^ 2
    decide
  root := by
    rintro root ⟨⟩
    exact sampleRecords_length

theorem sampleTree_held (few : width ≤ 8) : (sampleTree width).Held sampleLayout (sampleView width few) := by
  have file : (sampleView width few).file.bytes =
    (sampleTree width).encodeHeader ⟨8, 8⟩ ++ encodeSampleLeaf width := rfl
  have header : (sampleView width few).Holds 0 ((sampleTree width).encodeHeader ⟨8, 8⟩) := by
    apply @View.holds_between (sampleView width few) [] _ (encodeSampleLeaf width) _ rfl
    rw [file, List.nil_append]
  have leaf : (sampleView width few).Holds 38 (encodeSampleLeaf width) := by
    rw [← @sampleHeader_length width]
    apply View.holds_between _ rfl
    · exact []
    · rw [file, List.append_nil]
  refine ⟨header, ?_⟩
  rintro root ⟨⟩
  exact leaf

theorem sampleTree_widths (few : width ≤ 8) :
    BtreeV2.NodeLayout.derive .release 512 (20 + width) 0 8 = .ok sampleLayout := by
  have each : ∀ width ≤ 8, BtreeV2.NodeLayout.derive .release 512 (20 + width) 0 8 =
    .ok sampleLayout := by decide
  exact each width few

theorem sample_indexes (few : width ≤ 8) :
    Indexes (sampleView width few) (sampleTree width) sampleLayout true width 1 sampleEntries where
  fits := sampleTree_fits few
  held := sampleTree_held few
  widths := sampleTree_widths few
  nodes := by
    change 1 ≤ BtreeV2.maxNodes
    decide
  recordSize := by
    change 20 + width = recordLen ⟨8, 8⟩ true width 1
    simp only [recordLen, if_true]
    omega
  records := rfl

def twoByteView : View := sampleView 2 (by decide)

theorem twoByte_indexes : Indexes twoByteView (sampleTree 2) sampleLayout true 2 1 sampleEntries :=
  sample_indexes (by decide)

theorem btree_records_two_bytes :
    Returns (read (readBtree2Chunks .debug twoByteView) .debug twoByteView (.btreeV2 512 100 40)
      (some 0) [16] [4] 2
      true) [⟨6, 1, [4], 8192⟩, ⟨5, 0, [12], 4096⟩] := by
  have fits := @sampleEntries_fit 2 (by decide)
  have kept : SizesKept .debug true 2 [4] 2 sampleEntries := .inl (by decide)
  have counted : (BtreeV2.derivedLevel (sampleTree 2).nodeSize
    (sampleTree 2).recordSize twoByteView.sizes.offset (sampleTree 2).depth).cumMaxNrec < wordSize := by
    change (BtreeV2.derivedLevel 512 22 8 0).cumMaxNrec < wordSize
    decide
  have read := @btree_records_iff .debug twoByteView true 2 2 [4] [16] sampleEntries
    (sampleTree 2) sampleLayout 512 100 40 (by decide) fits twoByte_indexes
  exact read.mpr ⟨fun _ => counted, kept⟩

def eightByteView : View := sampleView 8 (by decide)

theorem eightByte_indexes : Indexes eightByteView (sampleTree 8) sampleLayout true 8 1 sampleEntries :=
  sample_indexes (by decide)

theorem eightByte_read :
    BtreeV2.read .release eightByteView 0 = .ok ⟨11, 28, sampleRecords 8⟩ := by
  have found := @BtreeV2.read_of_countable (sampleTree 8) sampleLayout eightByteView .release
    eightByte_indexes.fits eightByte_indexes.held eightByte_indexes.widths eightByte_indexes.nodes nofun
  rwa [eightByte_indexes.records] at found

/-- The sizes come back as the masks, and the chunks as whole ones at the start of the dataset or behind its end. -/
theorem btree_records_eight_bytes : (∀ entry ∈ sampleEntries, entry.Fits ⟨8, 8⟩ true 8 [4]) ∧
    Indexes eightByteView (sampleTree 8) sampleLayout true 8 1 sampleEntries ∧
      readBtree2Chunks .release eightByteView 0 [4] true = .ok [⟨0, 6, [17179869184], 8192⟩, ⟨0, 5, [0], 4096⟩] ∧
      ¬ Returns (read (readBtree2Chunks .release eightByteView) .release eightByteView
      (.btreeV2 512 100 40) (some 0) [16]
        [4] 2 true) [⟨6, 1, [4], 8192⟩, ⟨5, 0, [12], 4096⟩] := by
  have fits := @sampleEntries_fit 8 (by decide)
  have records := (@readBtree2Chunks_moved .release eightByteView true 8 [4] sampleEntries 11 (by decide) 0 fits
    eightByte_read ⟨rfl, rfl⟩ [⟨0, 6, [17179869184], 8192⟩, ⟨0, 5, [0], 4096⟩]).mpr ⟨by decide, by decide⟩
  refine ⟨fits, eightByte_indexes, records, ?_⟩
  rw [returns_iff]
  rintro ⟨found, same, once⟩
  cases records.symm.trans same
  have place := once.mem_iff.mpr (List.mem_cons_self ..)
  revert place
  decide

end Sample

end Oxcdf.ChunkIndex
