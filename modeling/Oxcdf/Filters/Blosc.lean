import Oxcdf.Filters.Shuffle
import Oxcdf.Foundation.Paging

/-! Blosc containers as they are written: the data is cut into blocks, each block is
shuffled and compressed on its own, and a table says where its stream stands. -/

set_option autoImplicit false

namespace Oxcdf.Filters

open Foundation Foundation.Buffer Foundation.Format

/-- The blocks of some data; the last one may be shorter. -/
def blocksOf (blocksize : Nat) (data : Bytes) : List Bytes :=
  (List.range ((data.length + blocksize - 1) / blocksize)).map fun block =>
    slice data (block * blocksize) blocksize

/-- The shuffle that the flags of a container name. -/
def shuffleBlock (flags typesize : Nat) (block : Bytes) : Bytes :=
  if flags.testBit 2 then bitshuffle block typesize
  else if flags.testBit 0 then shuffle block typesize
  else block

def unshuffleBlock (flags typesize : Nat) (block : Bytes) : Bytes :=
  if flags.testBit 2 then unbitshuffle block typesize
  else if flags.testBit 0 then unshuffle block typesize
  else block

/-- The blocks of some data, each shuffled on its own. -/
def shuffleEach (flags typesize blocksize : Nat) (data : Bytes) : Bytes :=
  (blocksOf blocksize data).flatMap (shuffleBlock flags typesize)

/-- What a writer puts into a container. The high bits of the flags name the sub-codec. -/
structure Container where
  versionlz : UInt8
  flags : UInt8
  typesize : UInt8
  nbytes : Nat
  blocksize : Nat
  streams : List Bytes

namespace Container

variable (container : Container)

/-- A stream behind its length. -/
def frame (stream : Bytes) : Bytes := littleEndian 4 stream.length ++ stream

/-- Where the frame of a block stands. -/
def offset (block : Nat) : Nat :=
  16 + container.streams.length * 4 + ((container.streams.take block).flatMap frame).length

def size : Nat := container.offset container.streams.length

def table : Bytes :=
  (List.range container.streams.length).flatMap fun block => littleEndian 4 (container.offset block)

def encode : Bytes :=
  [2, container.versionlz, container.flags, container.typesize] ++ (littleEndian 4 container.nbytes ++
    (littleEndian 4 container.blocksize ++ (littleEndian 4 container.size ++
      (container.table ++ container.streams.flatMap frame))))

/-- The container is of some data: its fields hold what they say, and the stream of each
block is one that its sub-codec decodes to the shuffled block. -/
structure Holds (codecs : Codecs) (data : Bytes) : Prop where
  nbytes : container.nbytes = data.length
  nbytes_lt : container.nbytes < 2 ^ 32
  blocksize : 0 < container.blocksize ∧ container.blocksize < 2 ^ 32
  size_lt : container.size < 2 ^ 32
  streams : List.Forall₂ (fun block stream =>
      unbloscBlock codecs (container.flags.toNat / 2 ^ 5) stream block.length =
        .ok (shuffleBlock container.flags.toNat container.typesize.toNat block))
    (blocksOf container.blocksize data) container.streams

end Container

section Blocks

variable {flags typesize blocksize : Nat} {data : Bytes}

theorem shuffleBlock_length (flags typesize : Nat) (block : Bytes) :
    (shuffleBlock flags typesize block).length = block.length := by
  unfold shuffleBlock
  split
  · exact bitshuffle_length block typesize
  · split
    · exact shuffle_length block typesize
    · rfl

theorem unshuffleBlock_shuffleBlock (flags typesize : Nat) (block : Bytes) :
    unshuffleBlock flags typesize (shuffleBlock flags typesize block) = block := by
  unfold unshuffleBlock shuffleBlock
  split
  · exact unbitshuffle_bitshuffle block typesize
  · split
    · exact unshuffle_shuffle block typesize
    · rfl

theorem shuffleBlock_unshuffleBlock (flags typesize : Nat) (block : Bytes) :
    shuffleBlock flags typesize (unshuffleBlock flags typesize block) = block := by
  unfold unshuffleBlock shuffleBlock
  split
  · exact bitshuffle_unbitshuffle block typesize
  · split
    · exact shuffle_unshuffle block typesize
    · rfl

/-- A shuffle is undone to some data exactly if it was of these data. -/
theorem unshuffleBlock_eq_iff {shuffled : Bytes} :
    unshuffleBlock flags typesize shuffled = data ↔ shuffled = shuffleBlock flags typesize data := by
  constructor
  · rintro rfl
    exact (shuffleBlock_unshuffleBlock flags typesize shuffled).symm
  · rintro rfl
    exact unshuffleBlock_shuffleBlock flags typesize data

theorem flatMap_shuffleBlock_length (blocks : List Bytes) :
    (blocks.flatMap (shuffleBlock flags typesize)).length = blocks.flatten.length := by
  induction blocks with
  | nil => rfl
  | cons block blocks ih =>
    rw [List.flatMap_cons, List.flatten_cons, List.length_append, List.length_append, ih, shuffleBlock_length]

theorem blocksOf_length (blocksize : Nat) (data : Bytes) :
    (blocksOf blocksize data).length = (data.length + blocksize - 1) / blocksize := by simp [blocksOf]

theorem block_start_lt (positive : 0 < blocksize) {block : Nat}
    (bound : block < (blocksOf blocksize data).length) : block * blocksize < data.length := by
  rw [blocksOf_length, Nat.lt_iff_add_one_le, Nat.le_div_iff_mul_le positive, Nat.succ_mul] at bound
  omega

theorem blocksOf_take {block : Nat} (bound : block ≤ (blocksOf blocksize data).length) :
    ((blocksOf blocksize data).take block).flatten = slice data 0 (block * blocksize) := by
  rw [blocksOf_length] at bound
  rw [blocksOf, ← List.map_take, List.take_range, Nat.min_eq_left bound, Paging.slice_blocks,
    List.flatMap_def]
  simp

theorem blocksOf_flatten (positive : 0 < blocksize) : (blocksOf blocksize data).flatten = data := by
  have whole := blocksOf_take (Nat.le_refl (blocksOf blocksize data).length)
  have reach : data.length ≤ (blocksOf blocksize data).length * blocksize := by
    have last := Nat.lt_mul_div_succ (data.length + blocksize - 1) positive
    rw [blocksOf_length, Nat.mul_comm]
    rw [Nat.mul_succ] at last
    omega
  rw [List.take_length] at whole
  rw [whole, slice, List.drop_zero, List.take_of_length_le reach]

theorem blocksOf_get {block : Nat} (bound : block < (blocksOf blocksize data).length) :
    (blocksOf blocksize data)[block]? = some (slice data (block * blocksize) blocksize) := by
  rw [blocksOf_length] at bound
  rw [blocksOf, List.getElem?_map, List.getElem?_range bound]
  rfl

theorem shuffleEach_length (positive : 0 < blocksize) :
    (shuffleEach flags typesize blocksize data).length = data.length := by
  rw [shuffleEach, flatMap_shuffleBlock_length, blocksOf_flatten positive]

theorem shuffleEach_of_single (positive : 0 < blocksize) (single : data.length ≤ blocksize) :
    shuffleEach flags typesize blocksize data = shuffleBlock flags typesize data := by
  have joined := @blocksOf_flatten blocksize data positive
  have few : (blocksOf blocksize data).length ≤ 1 := by
    rw [blocksOf_length, ← Nat.lt_succ_iff, Nat.div_lt_iff_lt_mul positive]
    omega
  rw [shuffleEach]
  cases blocks : blocksOf blocksize data with
  | nil =>
    rw [blocks, List.flatten_nil] at joined
    have nothing : (shuffleBlock flags typesize ([] : Bytes)).length = 0 := shuffleBlock_length ..
    rw [← joined, List.flatMap_nil, List.eq_nil_of_length_eq_zero nothing]
  | cons block rest =>
    rw [blocks, List.length_cons] at few
    obtain rfl : rest = [] := List.eq_nil_of_length_eq_zero (by omega)
    rw [blocks, List.flatten_singleton] at joined
    rw [List.flatMap_singleton, joined]

theorem shuffleEach_of_plain (positive : 0 < blocksize) (noBits : flags.testBit 2 = false)
    (noBytes : flags.testBit 0 = false) :
    shuffleEach flags typesize blocksize data = shuffleBlock flags typesize data := by
  have same : shuffleBlock flags typesize = id := by
    funext block
    simp [shuffleBlock, noBits, noBytes]
  rw [shuffleEach, same, List.flatMap_id, blocksOf_flatten positive]
  rfl

end Blocks

namespace Container

variable {container : Container} {codecs : Codecs} {data : Bytes} {build : Build}

theorem table_length (container : Container) : container.table.length = container.streams.length * 4 := by
  rw [table, @length_flatMap_block _ _ _ 4 _ (by simp), List.length_range]

theorem u32At_middle {before after : Bytes} {place n : Nat} (here : before.length = place) (word : n < 2 ^ 32) :
    u32At (before ++ (littleEndian 4 n ++ after)) place = n := by
  have found := slice_middle before (littleEndian 4 n) after
  rw [littleEndian_length, here] at found
  rw [u32At, found, ofLittleEndian_littleEndian 4 word]

theorem encode_length (container : Container) : container.encode.length = container.size := by
  simp only [encode, List.length_append, littleEndian_length, table_length, List.length_cons, List.length_nil,
    size, offset, List.take_length]
  omega

/-- What stands before the frames. -/
def front (container : Container) : Bytes :=
  [2, container.versionlz, container.flags, container.typesize] ++ (littleEndian 4 container.nbytes ++
    (littleEndian 4 container.blocksize ++ (littleEndian 4 container.size ++ container.table)))

theorem encode_eq (container : Container) :
    container.encode = container.front ++ container.streams.flatMap frame := by
  simp only [encode, front, List.append_assoc]

theorem front_length (container : Container) :
    container.front.length = 16 + container.streams.length * 4 := by
  simp only [front, List.length_append, littleEndian_length, table_length, List.length_cons, List.length_nil]
  omega

theorem frame_length (stream : Bytes) : (frame stream).length = 4 + stream.length := by
  rw [frame, List.length_append, littleEndian_length]

/-- The container around the frame of one block. -/
theorem encode_around {block : Nat} {stream : Bytes} (found : container.streams[block]? = some stream) :
    ∃ before after, container.encode = before ++ (frame stream ++ after) ∧
      before.length = container.offset block := by
  obtain ⟨bound, rfl⟩ := List.getElem?_eq_some_iff.mp found
  refine ⟨container.front ++ (container.streams.take block).flatMap frame,
    (container.streams.drop (block + 1)).flatMap frame, ?_, ?_⟩
  · rw [encode_eq, List.append_assoc]
    congr 1
    rw [← List.flatMap_cons, ← List.flatMap_append, List.getElem_cons_drop, List.take_append_drop]
  · rw [List.length_append, front_length, offset]

theorem offset_add_le {block : Nat} {stream : Bytes} (found : container.streams[block]? = some stream) :
    container.offset block + (4 + stream.length) ≤ container.encode.length := by
  obtain ⟨before, after, around, place⟩ := encode_around found
  rw [around, List.length_append, List.length_append, frame_length, place]
  omega

theorem entry_add_le {block : Nat} {stream : Bytes} (found : container.streams[block]? = some stream) :
    16 + block * 4 + 4 ≤ container.encode.length := by
  have bound := (List.getElem?_eq_some_iff.mp found).1
  rw [encode_eq, List.length_append, front_length]
  omega

theorem u32At_table (fits : container.size < 2 ^ 32) {block : Nat} {stream : Bytes}
    (found : container.streams[block]? = some stream) :
    u32At container.encode (16 + block * 4) = container.offset block := by
  have bound := (List.getElem?_eq_some_iff.mp found).1
  have word : container.offset block < 256 ^ 4 := by
    have inside := offset_add_le found
    rw [encode_length] at inside
    omega
  let fields := [2, container.versionlz, container.flags, container.typesize] ++
    (littleEndian 4 container.nbytes ++ (littleEndian 4 container.blocksize ++ littleEndian 4 container.size))
  have start : fields.length = 16 := by simp [fields]
  have parts : container.encode = fields ++ (container.table ++ container.streams.flatMap frame) := by
    simp only [encode, fields, List.append_assoc]
  -- The table stands behind sixteen bytes, and each entry of it has four.
  have inTable : slice container.encode (16 + block * 4) 4 = slice container.table (block * 4) 4 := by
    have room : block * 4 + 4 ≤ container.table.length := by
      rw [table_length]
      omega
    have window := slice_middle fields container.table (container.streams.flatMap frame)
    have part := @Paging.slice_slice _ container.encode 16 _ _ _ room
    rw [start, ← parts] at window
    rw [← part, window]
  have entry : (List.range container.streams.length)[block]? = some block := List.getElem?_range bound
  rw [u32At, inTable, table, slice_flatMap_block (by simp) entry, ofLittleEndian_littleEndian 4 word]

theorem u32At_frame (fits : container.size < 2 ^ 32) {block : Nat} {stream : Bytes}
    (found : container.streams[block]? = some stream) :
    u32At container.encode (container.offset block) = stream.length ∧
      slice container.encode (container.offset block + 4) stream.length = stream := by
  have inside := offset_add_le found
  rw [encode_length] at inside
  obtain ⟨before, after, around, place⟩ := encode_around found
  rw [around]
  constructor
  · rw [frame, List.append_assoc]
    exact u32At_middle place (by omega)
  · have later := slice_middle (before ++ littleEndian 4 stream.length) stream after
    rw [List.length_append, littleEndian_length, place] at later
    rw [frame, List.append_assoc, ← List.append_assoc before]
    exact later

variable (holds : container.Holds codecs data)

include holds

theorem Holds.streams_length :
    container.streams.length = (blocksOf container.blocksize data).length := holds.streams.length_eq.symm

/-- The blocks from some one on are decoded behind those before it. -/
theorem unbloscBlocks_eq (count block : Nat) (rest : block + count = container.streams.length) :
    unbloscBlocks build codecs container.encode (container.flags.toNat / 2 ^ 5) container.nbytes
        container.blocksize (List.range' block count)
        (((blocksOf container.blocksize data).take block).flatMap
          (shuffleBlock container.flags.toNat container.typesize.toNat)) =
      .ok (shuffleEach container.flags.toNat container.typesize.toNat container.blocksize data) := by
  induction count generalizing block with
  | zero =>
    have all : block = (blocksOf container.blocksize data).length := by
      rw [← holds.streams_length]
      exact rest
    rw [all, List.take_length]
    rfl
  | succ count ih =>
    have bound : block < (blocksOf container.blocksize data).length := by
      rw [← holds.streams_length]
      omega
    obtain ⟨stream, found⟩ : ∃ stream, container.streams[block]? = some stream :=
      ⟨_, List.getElem?_eq_getElem (by omega)⟩
    have here := blocksOf_get bound
    have starts := block_start_lt holds.blocksize.1 bound
    obtain ⟨lengthField, body⟩ := u32At_frame holds.size_lt found
    have inside := offset_add_le found
    have written : (((blocksOf container.blocksize data).take block).flatMap
        (shuffleBlock container.flags.toNat container.typesize.toNat)).length =
          block * container.blocksize := by
      rw [flatMap_shuffleBlock_length, blocksOf_take (Nat.le_of_lt bound), slice_length]
      omega
    have width : min container.blocksize (container.nbytes - block * container.blocksize) =
        (slice data (block * container.blocksize) container.blocksize).length := by
      rw [slice, List.length_take, List.length_drop, holds.nbytes]
    have decoded := (List.forall₂_iff_get.mp holds.streams).2 block bound (by omega)
    rw [List.get_eq_getElem, List.get_eq_getElem] at decoded
    obtain ⟨_, same⟩ := List.getElem?_eq_some_iff.mp here
    obtain ⟨_, sameStream⟩ := List.getElem?_eq_some_iff.mp found
    rw [same, sameStream] at decoded
    have inTable := entry_add_le found
    rw [List.range'_succ, unbloscBlocks, readU32_of_le inTable, Outcome.ok_bind, u32At_table holds.size_lt found,
      if_neg (by omega), readU32_of_le (by omega), Outcome.ok_bind, lengthField]
    dsimp only
    rw [if_neg (by omega), range_of_le _ (by omega), Outcome.ok_bind, written,
      Build.sub_of_le build (by rw [holds.nbytes]; omega), Outcome.ok_bind, width, body, decoded,
      Outcome.ok_bind]
    have next := ih (block + 1) (by omega)
    rw [List.take_add_one, here, List.flatMap_append, Option.toList_some, List.flatMap_singleton] at next
    exact next

/-- A container is decoded to the shuffled blocks, joined and then unshuffled as a whole. -/
theorem unblosc_encode :
    unblosc build codecs container.encode =
      .ok (unshuffleBlock container.flags.toNat container.typesize.toNat
        (shuffleEach container.flags.toNat container.typesize.toNat container.blocksize data)) := by
  obtain ⟨positive, blockWord⟩ := holds.blocksize
  have long := encode_length container
  have header : 16 + container.streams.length * 4 ≤ container.encode.length := by
    rw [encode_eq, List.length_append, front_length]
    omega
  have nbytes : u32At container.encode 4 = container.nbytes := by
    rw [encode]
    exact u32At_middle rfl holds.nbytes_lt
  have blocksize : u32At container.encode 8 = container.blocksize := by
    rw [encode, ← List.append_assoc]
    exact u32At_middle (by simp) blockWord
  have cbytes : u32At container.encode 12 = container.size := by
    rw [encode, ← List.append_assoc, ← List.append_assoc]
    exact u32At_middle (by simp) holds.size_lt
  have count : (container.nbytes + container.blocksize - 1) / container.blocksize =
      container.streams.length := by
    rw [holds.streams_length, blocksOf_length, holds.nbytes]
  have joined := @unbloscBlocks_eq container codecs data build holds container.streams.length 0 (Nat.zero_add _)
  rw [List.take_zero, List.flatMap_nil] at joined
  have size := @shuffleEach_length container.flags.toNat container.typesize.toNat _ data positive
  have first : container.encode.getD 0 0 = 2 := rfl
  have second : container.encode.getD 2 0 = container.flags := rfl
  have third : container.encode.getD 3 0 = container.typesize := rfl
  obtain ⟨readVersion, readFlags, readTypesize, readBytes, readBlocksize, readHeld⟩ :=
    header_reads (show 16 ≤ container.encode.length by omega)
  unfold unblosc
  rw [if_neg (by omega), readVersion, Outcome.ok_bind, first, if_neg (by decide), readFlags, Outcome.ok_bind,
    readTypesize, Outcome.ok_bind, readBytes, Outcome.ok_bind, readBlocksize, Outcome.ok_bind, readHeld,
    Outcome.ok_bind, second, third, nbytes, blocksize, cbytes, if_neg (by omega), if_neg (by omega)]
  dsimp only
  rw [count, if_neg (by omega), List.range_eq_range', joined, Outcome.ok_bind, holds.nbytes, ← size,
    List.take_length, unshuffleBlock]
  split
  · rfl
  · split <;> rfl

/-- A container comes back as the data exactly if shuffling each block is shuffling the
data as a whole, as it is for a single block and without a shuffle. -/
theorem unblosc_encode_iff :
    (unblosc build codecs container.encode = .ok data ↔
      shuffleEach container.flags.toNat container.typesize.toNat container.blocksize data =
        shuffleBlock container.flags.toNat container.typesize.toNat data) ∧
      (data.length ≤ container.blocksize ∨
          (container.flags.toNat.testBit 2 = false ∧ container.flags.toNat.testBit 0 = false) →
        unblosc build codecs container.encode = .ok data) := by
  have exact_ : unblosc build codecs container.encode = .ok data ↔
      shuffleEach container.flags.toNat container.typesize.toNat container.blocksize data =
        shuffleBlock container.flags.toNat container.typesize.toNat data := by
    rw [@unblosc_encode container codecs data build holds, Outcome.ok.injEq, unshuffleBlock_eq_iff]
  refine ⟨exact_, fun simple => exact_.mpr ?_⟩
  rcases simple with single | ⟨noBits, noBytes⟩
  · exact shuffleEach_of_single holds.blocksize.1 single
  · exact shuffleEach_of_plain holds.blocksize.1 noBits noBytes

omit holds

/-- Two blocks of literals, each of two elements of two bytes. -/
def twoBlocks : Container where
  versionlz := 1
  flags := 1
  typesize := 2
  nbytes := 8
  blocksize := 4
  streams := [[3, 1, 3, 2, 4], [3, 5, 7, 6, 8]]

/-- The same two blocks without the shuffle. -/
def plainBlocks : Container := { twoBlocks with flags := 0, streams := [[3, 1, 2, 3, 4], [3, 5, 6, 7, 8]] }

theorem twoBlocks_holds (codecs : Codecs) : twoBlocks.Holds codecs [1, 2, 3, 4, 5, 6, 7, 8] := by
  refine ⟨rfl, by decide, by decide, by decide, ?_⟩
  exact .cons rfl (.cons rfl .nil)

theorem plainBlocks_holds (codecs : Codecs) : plainBlocks.Holds codecs [1, 2, 3, 4, 5, 6, 7, 8] := by
  refine ⟨rfl, by decide, by decide, by decide, ?_⟩
  exact .cons rfl (.cons rfl .nil)

theorem unblosc_encode_plain_blocks :
    unblosc .debug Codecs.refusing plainBlocks.encode = .ok [1, 2, 3, 4, 5, 6, 7, 8] :=
  (unblosc_encode_iff (plainBlocks_holds Codecs.refusing)).2 (.inr (by decide))

theorem unblosc_encode_two_blocks :
    twoBlocks.Holds Codecs.refusing [1, 2, 3, 4, 5, 6, 7, 8] ∧
      unblosc .debug Codecs.refusing twoBlocks.encode = .ok [1, 5, 3, 7, 2, 6, 4, 8] :=
  ⟨twoBlocks_holds Codecs.refusing, by decide⟩

end Container

end Oxcdf.Filters
