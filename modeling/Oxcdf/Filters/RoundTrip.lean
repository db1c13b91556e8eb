import Oxcdf.Filters.Fletcher
import Oxcdf.Filters.Shuffle

/-! Pipelines that a writer applied, and what comes back of a chunk. -/

set_option autoImplicit false

namespace Oxcdf.Filters

open Foundation Foundation.Buffer Foundation.Format

section Fletcher32

/-- The checksum is a 32-bit word. -/
theorem fletcher32_lt (data : Bytes) : fletcher32 data < 2 ^ 32 := by
  obtain ⟨-, low, high, -⟩ := sums_spec data
  rw [fletcher32_eq]
  exact Nat.or_lt_two_pow (by omega) (by omega)

/-- A checksum of either byte order is accepted and taken off. -/
theorem verifyAndStripFletcher32_append (data : Bytes) {stored : Bytes} (four : stored.length = 4)
    (same : ofLittleEndian stored = fletcher32 data ∨ ofBigEndian stored = fletcher32 data) :
    verifyAndStripFletcher32 (data ++ stored) = .ok data := by
  have split : (data ++ stored).length - 4 = data.length := by
    rw [List.length_append]
    omega
  unfold verifyAndStripFletcher32
  rw [if_neg (by rw [List.length_append]; omega)]
  dsimp only
  rw [split, List.drop_left, List.take_left, if_neg]
  rintro ⟨little, big⟩
  exact same.elim (fun equal => little equal.symm) fun equal => big equal.symm

end Fletcher32

/-- What a filter may have made of a chunk when it was written. The streams of the
compressors are the ones that their libraries decode to the data. -/
inductive Applied (codecs : Codecs) (filter : Filter) : Bytes → Bytes → Prop
  | deflate {data stream : Bytes} (id : filter.id = deflateId) (inverted : codecs.zlib stream = .ok data) :
      Applied codecs filter data stream
  | zstd {data stream : Bytes} (id : filter.id = zstdId) (inverted : codecs.zstd stream = .ok data) :
      Applied codecs filter data stream
  | shuffle {data : Bytes} (id : filter.id = shuffleId) :
      Applied codecs filter data (shuffle data (filter.clientData.headD 0))
  | fletcher32 {data stored : Bytes} (id : filter.id = fletcher32Id)
      (order : stored = littleEndian 4 (Filters.fletcher32 data) ∨
        stored = bigEndian 4 (Filters.fletcher32 data)) :
      Applied codecs filter data (data ++ stored)

/-- A chunk written through some filters, from a position of the mask on. A set bit of the
mask says that its filter was skipped. -/
inductive Written (codecs : Codecs) (mask : Nat) : Nat → List Filter → Bytes → Bytes → Prop
  | nil {index : Nat} {data : Bytes} : Written codecs mask index [] data data
  | skipped {index : Nat} {filter : Filter} {filters : List Filter} {data encoded : Bytes}
      (bit : mask.testBit index = true) (rest : Written codecs mask (index + 1) filters data encoded) :
      Written codecs mask index (filter :: filters) data encoded
  | applied {index : Nat} {filter : Filter} {filters : List Filter} {data middle encoded : Bytes}
      (bit : mask.testBit index = false) (here : Applied codecs filter data middle)
      (rest : Written codecs mask (index + 1) filters middle encoded) :
      Written codecs mask index (filter :: filters) data encoded

/-- The filters that set memory for the decoded chunk aside before they decode. -/
def Allocates (filter : Filter) : Prop := filter.id = deflateId ∨ filter.id = zstdId

/-- Some filter that was applied sets memory aside. -/
def Inflates (mask index : Nat) (filters : List Filter) : Prop :=
  ∃ i filter, filters[i]? = some filter ∧ mask.testBit (index + i) = false ∧ Allocates filter

section Undoing

variable {build : Build} {codecs : Codecs} {mask expectedLen : Nat}

theorem inflates_cons {index : Nat} {filter : Filter} {filters : List Filter} :
    Inflates mask index (filter :: filters) ↔
      (mask.testBit index = false ∧ Allocates filter) ∨ Inflates mask (index + 1) filters := by
  constructor
  · rintro ⟨i, found, here, bit, allocates⟩
    cases i with
    | zero =>
      cases here
      exact .inl ⟨bit, allocates⟩
    | succ i => exact .inr ⟨i, found, here, by rwa [Nat.add_assoc, Nat.add_comm 1], allocates⟩
  · rintro (⟨bit, allocates⟩ | ⟨i, found, here, bit, allocates⟩)
    · exact ⟨0, filter, rfl, bit, allocates⟩
    · exact ⟨i + 1, found, here, by rwa [Nat.add_comm i, ← Nat.add_assoc], allocates⟩

/-- Undoing one filter gives back what it was applied to, if there can be memory for it. -/
theorem decodeOne_applied {filter : Filter} {data encoded : Bytes}
    (applied : Applied codecs filter data encoded) :
    (Allocates filter → expectedLen ≤ isizeMax) →
      decodeOne build codecs filter encoded expectedLen = .ok data := by
  intro room
  cases applied with
  | deflate id inverted =>
    rw [decodeOne, if_pos id, inflate, withCapacity, if_pos (room (.inl id)), Outcome.ok_bind, inverted]
  | zstd id inverted =>
    rw [decodeOne, if_neg (by rw [id]; decide), if_neg (by rw [id]; decide), if_neg (by rw [id]; decide),
      if_pos id, unzstd, withCapacity, if_pos (room (.inr id)), Outcome.ok_bind, inverted]
  | shuffle id =>
    rw [decodeOne, if_neg (by rw [id]; decide), if_pos id, unshuffle_shuffle]
  | fletcher32 id order =>
    have word : fletcher32 data < 256 ^ 4 := fletcher32_lt data
    rw [decodeOne, if_neg (by rw [id]; decide), if_neg (by rw [id]; decide), if_pos id]
    rcases order with rfl | rfl
    · exact verifyAndStripFletcher32_append data (littleEndian_length 4 _)
        (.inl (ofLittleEndian_littleEndian 4 word))
    · exact verifyAndStripFletcher32_append data (bigEndian_length 4 _)
        (.inr (ofBigEndian_bigEndian 4 word))

theorem decodeOne_too_large {filter : Filter} (allocates : Allocates filter)
    (large : isizeMax < expectedLen) (data : Bytes) :
    decodeOne build codecs filter data expectedLen = .panic .capacity := by
  have none : withCapacity expectedLen = .panic .capacity := if_neg (Nat.not_le.mpr large)
  rcases allocates with id | id
  · rw [decodeOne, if_pos id, inflate, none]
    rfl
  · rw [decodeOne, if_neg (by rw [id]; decide), if_neg (by rw [id]; decide), if_neg (by rw [id]; decide),
      if_pos id, unzstd, none]
    rfl

theorem decodeEach_append (first second : List (Filter × Nat)) (data : Bytes) :
    decodeEach build codecs mask expectedLen (first ++ second) data =
      decodeEach build codecs mask expectedLen first data >>=
        decodeEach build codecs mask expectedLen second := by
  induction first generalizing data with
  | nil => rfl
  | cons each first ih =>
    rw [List.cons_append, decodeEach, decodeEach]
    cases maskBit build each.2 with
    | error e => rfl
    | panic p => rfl
    | ok bit =>
      simp only [Outcome.ok_bind]
      split
      · exact ih data
      · rw [bind_assoc]
        congr 1
        funext middle
        exact ih middle

theorem maskBit_of_lt {index : Nat} (small : index < 32) : maskBit build index = .ok index := if_pos small

/-- The filters are undone from the last to the first: what comes back is the data, unless
one of them sets aside more memory than there can be. -/
theorem decodeEach_written {index : Nat} {filters : List Filter} {data encoded : Bytes}
    (written : Written codecs mask index filters data encoded) : index + filters.length ≤ 32 →
      ((Inflates mask index filters → expectedLen ≤ isizeMax) →
        decodeEach build codecs mask expectedLen (filters.zipIdx index).reverse encoded = .ok data) ∧
      (Inflates mask index filters → isizeMax < expectedLen →
        decodeEach build codecs mask expectedLen (filters.zipIdx index).reverse encoded =
          .panic .capacity) := by
  induction written with
  | nil => exact fun _ => ⟨fun _ => rfl, fun ⟨i, _, here, _⟩ => by simp at here⟩
  | @skipped index filter filters data encoded bit rest ih =>
    intro few
    rw [List.length_cons] at few
    obtain ⟨undone, refused⟩ := ih (by omega)
    rw [List.zipIdx_cons, List.reverse_cons, decodeEach_append]
    constructor
    · intro room
      rw [undone fun later => room (inflates_cons.mpr (.inr later)), Outcome.ok_bind, decodeEach,
        maskBit_of_lt (by omega), Outcome.ok_bind, if_pos bit]
      rfl
    · intro inflates large
      rcases inflates_cons.mp inflates with ⟨clear, -⟩ | later
      · rw [bit] at clear
        cases clear
      · rw [refused later large]
        rfl
  | @applied index filter filters data middle encoded bit here rest ih =>
    intro few
    rw [List.length_cons] at few
    have clear : ¬ mask.testBit index = true := by simp [bit]
    obtain ⟨undone, refused⟩ := ih (by omega)
    rw [List.zipIdx_cons, List.reverse_cons, decodeEach_append]
    constructor
    · intro room
      have now := fun allocates => room (inflates_cons.mpr (.inl ⟨bit, allocates⟩))
      rw [undone fun later => room (inflates_cons.mpr (.inr later)), Outcome.ok_bind, decodeEach,
        maskBit_of_lt (by omega), Outcome.ok_bind, if_neg clear, decodeOne_applied here now]
      rfl
    -- The filters applied last are undone first, so a later one refuses before this one does.
    · intro inflates large
      by_cases later : Inflates mask (index + 1) filters
      · rw [refused later large]
        rfl
      · obtain ⟨-, allocates⟩ := (inflates_cons.mp inflates).resolve_right later
        rw [undone fun now => absurd now later, Outcome.ok_bind, decodeEach, maskBit_of_lt (by omega),
          Outcome.ok_bind, if_neg clear, decodeOne_too_large allocates large]
        rfl

/-- A chunk that was written through at most 32 filters is decoded to what it was, for any
mask, exactly if no compressed stage is asked for more than an allocation may hold. -/
theorem decodeChunk_written_iff {pipeline : FilterPipeline} {data encoded : Bytes}
    (few : pipeline.filters.length ≤ 32) (written : Written codecs mask 0 pipeline.filters data encoded) :
    decodeChunk build codecs pipeline mask encoded expectedLen = .ok data ↔
      (Inflates mask 0 pipeline.filters → expectedLen ≤ isizeMax) := by
  obtain ⟨undone, refused⟩ := @decodeEach_written build codecs mask expectedLen _ _ _ _ written (by omega)
  constructor
  · intro done inflates
    by_contra large
    rw [decodeChunk, refused inflates (Nat.lt_of_not_le large)] at done
    cases done
  · exact undone

/-- The library decodes one stream, which is of the bytes 1, 3, 2, 4. -/
def fourBytesCodecs : Codecs where
  zlib stream :=
    if stream = [120, 156, 99, 100, 102, 98, 1, 0, 0, 25, 0, 11] then .ok [1, 3, 2, 4]
    else .error "corrupt deflate stream"
  zstd _ := .error "corrupt zstd frame"
  lz4 _ _ := .error "corrupt lz4 block"

def shuffleDeflate : FilterPipeline where
  filters := [⟨shuffleId, "", 0, [2]⟩, ⟨deflateId, "", 0, [6]⟩]

theorem shuffleDeflate_written :
    Written fourBytesCodecs 0 0 shuffleDeflate.filters [1, 2, 3, 4]
      [120, 156, 99, 100, 102, 98, 1, 0, 0, 25, 0, 11] :=
  .applied rfl (.shuffle rfl) (.applied rfl (.deflate rfl (by decide)) .nil)

theorem decodeChunk_written_fourBytes :
    decodeChunk .debug fourBytesCodecs shuffleDeflate 0
      [120, 156, 99, 100, 102, 98, 1, 0, 0, 25, 0, 11] 4 = .ok [1, 2, 3, 4] :=
  (decodeChunk_written_iff (by decide) shuffleDeflate_written).mpr fun _ => by decide

/-- The same chunk, said to decode to half of all addresses. -/
theorem decodeChunk_written_too_large :
    Written fourBytesCodecs 0 0 shuffleDeflate.filters [1, 2, 3, 4]
        [120, 156, 99, 100, 102, 98, 1, 0, 0, 25, 0, 11] ∧
      decodeChunk .release fourBytesCodecs shuffleDeflate 0
        [120, 156, 99, 100, 102, 98, 1, 0, 0, 25, 0, 11] (2 ^ 63) = .panic .capacity :=
  ⟨.applied rfl (.shuffle rfl) (.applied rfl (.deflate rfl (by decide)) .nil), by decide⟩

end Undoing

end Oxcdf.Filters
