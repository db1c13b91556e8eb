import Oxcdf.Btree2.Panic
import Oxcdf.ChunkIndex

/-! Chunk indexes that are version 2 B-trees.

Record type 10 holds unfiltered chunks and type 11 filtered ones. Both end with one scaled
offset per dimension: it counts chunks, not elements.
-/

set_option autoImplicit false

namespace Oxcdf.ChunkIndex

open Foundation Foundation.Buffer Foundation.Format Cursor

section Records

/-- How many offsets a record carries. It follows from the size of the record: the layout counts
a trailing axis as well. -/
def storedDims (sizes : Sizes) (recordSize : Nat) (filtered : Bool) : Nat :=
  let fixed := if filtered then sizes.offset + 4 else sizes.offset
  (recordSize - fixed) / 8

/-- The size of a filtered chunk takes whatever is left over. -/
def sizeWidth (sizes : Sizes) (recordSize storedDims : Nat) : Nat :=
  recordSize - (sizes.offset + 4 + storedDims * 8)

/-- The address of a chunk, and for a filtered one its size and its filter mask. -/
def readPlace (sizes : Sizes) (filtered : Bool) (sizeWidth : Nat) : Parse (Nat × Nat × Nat) := do
  let address ← Cursor.addressRequired sizes "chunk B-tree record"
  if filtered then do
    let size ← Cursor.uint (sizeWidth % 256)
    let mask ← Cursor.u32
    pure (address, size % 2 ^ 32, mask)
  else pure (address, 0, 0)

/-- So many scaled offsets. Those past the rank of the dataset are read and left. -/
def readOffsets (build : Build) : Nat → List Nat → Parse (List Nat)
  | 0, _ => pure []
  | storedDims + 1, [] => do
    let _ ← Cursor.u64
    readOffsets build storedDims []
  | storedDims + 1, dim :: chunkDims => do
    let scaled ← Cursor.u64
    let start ← Session.lift (build.mul scaled dim)
    let rest ← readOffsets build storedDims chunkDims
    pure (start :: rest)

def readChunkRecord (build : Build) (sizes : Sizes) (chunkDims : List Nat) (filtered : Bool)
    (storedDims sizeWidth : Nat) : Parse ChunkRecord := do
  let (address, size, filterMask) ← readPlace sizes filtered sizeWidth
  let offset ← readOffsets build storedDims chunkDims
  pure { size, filterMask, offset, address }

/-- Read a version 2 B-tree chunk index. -/
def readBtree2Chunks (build : Build) (view : View) (address : Nat) (chunkDims : List Nat) (filtered : Bool) :
    Code (List ChunkRecord) := do
  let btree ← BtreeV2.read build view address
  let storedDims := storedDims view.sizes btree.recordSize filtered
  if storedDims < chunkDims.length then
    .error (.malformed
      s!"chunk B-tree record holds {storedDims} offsets for a rank-{chunkDims.length} dataset")
  else do
    let sizeWidth := sizeWidth view.sizes btree.recordSize storedDims
    btree.records.mapM fun record =>
      (readChunkRecord build view.sizes chunkDims filtered storedDims sizeWidth (Cursor.start record)).1

end Records

section Panicking

variable {build : Build} {view : View} {sizes : Sizes} {filtered : Bool}

theorem steady_place (sizeWidth : Nat) : Steady (readPlace sizes filtered sizeWidth) := by
  refine (steady_addressRequired sizes _).bind fun address => ?_
  apply Steady.ite
  · exact (steady_uint _).bind fun _ => steady_u32.bind fun _ => Steady.pure _
  · exact Steady.pure _

/-- One of the scaled offsets that follow is a start of a chunk that is no word. -/
def OffsetOverflows (chunkDims : List Nat) (cursor : Cursor) : Prop :=
  ∃ axis dim, chunkDims[axis]? = some dim ∧ cursor.pos + 8 * (axis + 1) ≤ cursor.buf.length ∧
    wordSize ≤ ofLittleEndian (slice cursor.buf (cursor.pos + 8 * axis) 8) * dim

theorem offsetOverflows_cons {dim : Nat} {chunkDims : List Nat} {cursor : Cursor} :
    OffsetOverflows (dim :: chunkDims) cursor ↔
      (cursor.pos + 8 ≤ cursor.buf.length ∧
        wordSize ≤ ofLittleEndian (slice cursor.buf cursor.pos 8) * dim) ∨
      OffsetOverflows chunkDims { cursor with pos := cursor.pos + 8 } := by
  have turn (axis : Nat) : cursor.pos + 8 + 8 * axis = cursor.pos + 8 * (axis + 1) := by omega
  constructor
  · rintro ⟨axis, dim', here, room, large⟩
    cases axis with
    | zero =>
      cases here
      exact .inl ⟨room, large⟩
    | succ axis =>
      refine .inr ⟨axis, dim', here, ?_, ?_⟩
      · exact turn (axis + 1) ▸ room
      · exact (turn axis).symm ▸ large
  · rintro (⟨room, large⟩ | ⟨axis, dim', here, room, large⟩)
    · exact ⟨0, dim, rfl, room, large⟩
    · refine ⟨axis + 1, dim', here, ?_, ?_⟩
      · exact (turn (axis + 1)).symm ▸ room
      · exact turn axis ▸ large

theorem readOffsets_nil (storedDims : Nat) : Steady (readOffsets build storedDims []) := by
  induction storedDims with
  | zero => exact Steady.pure []
  | succ storedDims ih => exact steady_u64.bind fun _ => ih

theorem u64_eq_ok {cursor after : Cursor} {n : Nat} : u64 cursor = (.ok n, after) ↔
    cursor.pos + 8 ≤ cursor.buf.length ∧ n = ofLittleEndian (slice cursor.buf cursor.pos 8) ∧
      after = { cursor with pos := cursor.pos + 8 } := by
  constructor
  · intro found
    obtain ⟨bytes, middle, taken, same⟩ := Session.bind_eq_ok.mp found
    obtain ⟨room, rfl, rfl⟩ := take_eq_ok.mp taken
    cases same
    exact ⟨room, rfl, rfl⟩
  · rintro ⟨room, rfl, rfl⟩
    exact Session.bind_eq_ok.mpr ⟨_, _, take_eq_ok.mpr ⟨room, rfl, rfl⟩, rfl⟩

/-- In a checked build, the first product that is no word panics; so does one after it. -/
theorem readOffsets_panics {storedDims : Nat} {chunkDims : List Nat} {cursor : Cursor}
    (within : cursor.InBounds) (all : chunkDims.length ≤ storedDims) :
    (readOffsets build storedDims chunkDims).Panics cursor ↔
      build = .debug ∧ OffsetOverflows chunkDims cursor := by
  induction chunkDims generalizing storedDims cursor with
  | nil =>
    refine ⟨fun panics => absurd panics ((readOffsets_nil storedDims).safe cursor within), ?_⟩
    rintro ⟨-, axis, dim, impossible, -⟩
    cases impossible
  | cons dim chunkDims ih =>
    cases storedDims with
    | zero => exact absurd all (Nat.not_succ_le_zero _)
    | succ storedDims =>
      have rest {after : Cursor} (inBounds : after.InBounds) (start : Nat) :
          (readOffsets build storedDims chunkDims >>= fun later => pure (start :: later)).Panics after ↔
            build = .debug ∧ OffsetOverflows chunkDims after := by
        rw [Session.panics_bind_pure, ih inBounds (Nat.le_of_succ_le_succ all)]
      rw [readOffsets, steady_u64.panics_bind within, offsetOverflows_cons]
      constructor
      · rintro ⟨scaled, after, found, inBounds, panics⟩
        obtain ⟨room, rfl, rfl⟩ := u64_eq_ok.mp found
        rcases Session.panics_bind.mp panics with product | ⟨start, middle, lifted, later⟩
        · obtain ⟨debug, large⟩ := Build.word_panics.mp product
          exact ⟨debug, .inl ⟨room, large⟩⟩
        · obtain ⟨-, rfl⟩ := Session.lift_eq_ok.mp lifted
          obtain ⟨debug, overflows⟩ := (rest inBounds start).mp later
          exact ⟨debug, .inr overflows⟩
      · rintro ⟨debug, overflows⟩
        have room : cursor.pos + 8 ≤ cursor.buf.length := by
          rcases overflows with ⟨room, -⟩ | ⟨axis, dim', -, room, -⟩
          · exact room
          · dsimp only at room
            omega
        have inBounds : InBounds { cursor with pos := cursor.pos + 8 } := room
        refine ⟨_, _, u64_eq_ok.mpr ⟨room, rfl, rfl⟩, inBounds, Session.panics_bind.mpr ?_⟩
        rcases Nat.lt_or_ge (ofLittleEndian (slice cursor.buf cursor.pos 8) * dim) wordSize with small | large
        · right
          refine ⟨_, _, Session.lift_eq_ok.mpr ⟨Build.word_of_lt build small, rfl⟩, ?_⟩
          have later := overflows.resolve_left fun ⟨_, large⟩ => absurd small (Nat.not_lt.mpr large)
          exact (rest inBounds _).mpr ⟨debug, later⟩
        · left
          exact Build.word_panics.mpr ⟨debug, large⟩

/-- A record of which a checked build cannot place the chunk. -/
def RecordOverflows (sizes : Sizes) (chunkDims : List Nat) (filtered : Bool) (sizeWidth : Nat)
    (record : Bytes) : Prop :=
  ∃ place cursor, readPlace sizes filtered sizeWidth (Cursor.start record) = (.ok place, cursor) ∧
    OffsetOverflows chunkDims cursor

theorem readChunkRecord_panics {chunkDims : List Nat} {storedDims sizeWidth : Nat} {record : Bytes}
    (all : chunkDims.length ≤ storedDims) :
    (readChunkRecord build sizes chunkDims filtered storedDims sizeWidth (Cursor.start record)).1.Panics ↔
      build = .debug ∧ RecordOverflows sizes chunkDims filtered sizeWidth record := by
  have place := @steady_place sizes filtered sizeWidth
  refine (place.panics_bind (inBounds_start record)).trans ?_
  rw [RecordOverflows, ← exists_and_left]
  apply exists_congr
  intro found
  rw [← exists_and_left]
  apply exists_congr
  intro cursor
  rw [and_left_comm, @and_left_comm (build = .debug), @and_left_comm cursor.InBounds]
  apply and_congr_right
  intro front
  have within := place.inBounds (inBounds_start record) front
  rw [and_iff_right within]
  rw [← readOffsets_panics within all]
  exact Session.panics_bind_pure

def chunkOf (build : Build) (sizes : Sizes) (chunkDims : List Nat) (filtered : Bool) (recordSize : Nat)
    (record : Bytes) : Code ChunkRecord :=
  let storedDims := storedDims sizes recordSize filtered
  (readChunkRecord build sizes chunkDims filtered storedDims (sizeWidth sizes recordSize storedDims)
    (Cursor.start record)).1

/-- A record of a tree, behind others that are in order, of which a checked build cannot place
the chunk. -/
def HarmfulRecord (build : Build) (sizes : Sizes) (chunkDims : List Nat) (filtered : Bool) (btree : BtreeV2) :
    Prop :=
  build = .debug ∧ chunkDims.length ≤ storedDims sizes btree.recordSize filtered ∧
    ∃ before record after, btree.records = before ++ record :: after ∧
      (∀ earlier ∈ before, ∃ chunk,
        chunkOf build sizes chunkDims filtered btree.recordSize earlier = .ok chunk) ∧
      RecordOverflows sizes chunkDims filtered
        (sizeWidth sizes btree.recordSize (storedDims sizes btree.recordSize filtered)) record

/-- A tree that cannot be counted, or one with a harmful record. -/
def HarmfulTree (build : Build) (view : View) (address : Nat) (chunkDims : List Nat) (filtered : Bool) : Prop :=
  BtreeV2.Uncountable build view address ∨
    ∃ btree, BtreeV2.read build view address = .ok btree ∧
      HarmfulRecord build view.sizes chunkDims filtered btree

theorem readBtree2Chunks_panics {address : Nat} {chunkDims : List Nat} (offsetWidth : view.sizes.offset ≤ 8) :
    (readBtree2Chunks build view address chunkDims filtered).Panics ↔
      HarmfulTree build view address chunkDims filtered := by
  rw [readBtree2Chunks, Outcome.panics_bind, BtreeV2.read_panics offsetWidth, HarmfulTree]
  apply or_congr_right
  apply exists_congr
  intro btree
  apply and_congr_right
  intro _
  dsimp only
  unfold HarmfulRecord
  split
  · next few =>
    exact ⟨fun panics => absurd panics (Outcome.not_panics_error _),
      fun ⟨_, all, _⟩ => absurd few (Nat.not_lt.mpr all)⟩
  · next all =>
    have all := Nat.not_lt.mp all
    rw [and_iff_right all, Outcome.panics_mapM]
    simp only [readChunkRecord_panics all]
    constructor
    · rintro ⟨before, record, after, split, fine, debug, overflows⟩
      exact ⟨debug, before, record, after, split, fine, overflows⟩
    · rintro ⟨debug, before, record, after, split, fine, overflows⟩
      exact ⟨before, record, after, split, fine, debug, overflows⟩

end Panicking

end Oxcdf.ChunkIndex
