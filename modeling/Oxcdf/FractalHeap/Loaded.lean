import Oxcdf.FractalHeap.Stored

/-! What is loaded of a stored heap. -/

set_option autoImplicit false

namespace Oxcdf.FractalHeap

open Foundation Foundation.Buffer Foundation.Format Foundation.Doubling

section Fields

variable {sizes : Sizes}

/-- A field that is read and not used may hold anything. -/
theorem reads_any {width : Nat} (narrow : width ≤ 8) (n : Nat) :
    Reads (Cursor.uint width) (littleEndian width n) (n % 256 ^ width) := by
  unfold Cursor.uint
  split
  · next zero =>
    subst zero
    rw [Nat.pow_zero, Nat.mod_one]
    exact Reads.pure 0
  · rw [if_neg (Nat.not_lt.mpr narrow)]
    exact Cursor.reads_low width n

theorem reads_anyAddress (narrow : sizes.offset ≤ 8) (n : Nat) :
    ∃ found, Reads (Cursor.address sizes) (littleEndian sizes.offset n) found :=
  ⟨_, (reads_any narrow n).bind_pure _⟩

theorem reads_start {signature : Bytes} (four : signature.length = 4) (letters what : String) :
    Reads (expectStart signature letters what) (StoredHeap.encodeStart signature) () := by
  have taken := Cursor.reads_take signature
  rw [four] at taken
  unfold expectStart StoredHeap.encodeStart
  apply taken.bind
  rw [if_neg (not_not_intro rfl)]
  exact (Cursor.reads_u8 (by decide)).bind_done fun _ => rfl

end Fields

namespace StoredHeap

variable {heap : StoredHeap} {sizes : Sizes} {view : View} {build : Build}

theorem reads_fields (fits : heap.Fits sizes) :
    Reads (Header.parseFields sizes heap.headerAddress) (heap.encodeFields sizes) heap.header := by
  have narrow := fits.widths.offset_le
  have short := fits.widths.length_le
  have idLen : heap.heapIdLen < 256 ^ 2 := by
    have bits := fits.maxHeapSizeBits
    have length := fits.lengthSize
    unfold heapIdLen offsetSize
    omega
  have width : heap.tableWidth < 256 ^ 2 := Nat.pow_lt_pow_right (by decide) fits.tableWidth
  have starting : heap.startingBlockSize < 256 ^ sizes.length :=
    lt_of_le_of_lt (Nat.pow_le_pow_right (by decide) fits.ordered) fits.maxDirectBlockSize
  have bits : heap.maxHeapSizeBits < 256 ^ 2 := lt_of_le_of_lt fits.maxHeapSizeBits (by decide)
  obtain ⟨_, hugeBtree⟩ := reads_anyAddress narrow heap.bookkeeping.hugeBtreeAddress
  obtain ⟨_, freeSpaceManager⟩ := reads_anyAddress narrow heap.bookkeeping.freeSpaceManager
  have root : sizes.FitsAddress (heap.root.map StoredBlock.address) := by
    intro a same
    obtain ⟨root, stored, rfl⟩ := Option.map_eq_some_iff.mp same
    have shape := fits.root root stored
    cases root with
    | direct address payload =>
      cases shape.2 with
      | direct named small whole => exact named
    | indirect address children => exact shape.2.1
  apply (reads_start rfl _ _).bind
  apply (Cursor.reads_u16 idLen).bind
  apply (Cursor.reads_u16 (by decide)).bind
  apply (Cursor.reads_u8 fits.flags).bind
  apply (Cursor.reads_low 4 _).bind
  apply (reads_any short _).bind
  apply hugeBtree.bind
  apply (reads_any short _).bind
  apply freeSpaceManager.bind
  apply (reads_any short _).bind
  apply (reads_any short _).bind
  apply (reads_any short _).bind
  apply (Cursor.reads_uint short fits.managedObjectCount).bind
  apply (reads_any short _).bind
  apply (reads_any short _).bind
  apply (reads_any short _).bind
  apply (reads_any short _).bind
  apply (Cursor.reads_u16 width).bind
  apply (Cursor.reads_uint short starting).bind
  apply (Cursor.reads_uint short fits.maxDirectBlockSize).bind
  apply (Cursor.reads_u16 bits).bind
  apply (Cursor.reads_low 2 _).bind
  apply (reads_address narrow root).bind
  exact (Cursor.reads_u16 fits.rootRows).bind_pure _

/-- The checksum after some bytes at the front is found to be of them. -/
theorem expectChecksum_eq (what : String) (body rest : Bytes) :
    Header.expectChecksum what ⟨withChecksum body ++ rest, body.length⟩ =
      (.ok (), ⟨withChecksum body ++ rest, (withChecksum body).length⟩) := by
  have stored := Cursor.reads_u32 (Checksum.metadata body).toNat_lt
  have front : (withChecksum body ++ rest).take body.length = body := by
    rw [withChecksum, List.append_assoc, List.take_left]
  have found := stored body rest
  have code : body ++ littleEndian 4 (Checksum.metadata body).toNat ++ rest = withChecksum body ++ rest := rfl
  rw [code, littleEndian_length] at found
  unfold Header.expectChecksum
  rw [Session.bind_ok (rfl : Cursor.passed _ = _), front, Session.bind_ok found, if_neg (not_not_intro rfl),
    withChecksum_length]
  rfl

theorem parse_header (fits : heap.Fits sizes) (rest : Bytes) :
    (Header.parse sizes heap.headerAddress (Cursor.start (heap.encodeHeader sizes ++ rest))).1 =
      .ok heap.header := by
  have fields : Header.parseFields sizes heap.headerAddress
      (Cursor.start (withChecksum (heap.encodeFields sizes) ++ rest)) =
        (.ok heap.header, ⟨withChecksum (heap.encodeFields sizes) ++ rest,
          (heap.encodeFields sizes).length⟩) := by
    have found := reads_fields fits []
      (littleEndian 4 (Checksum.metadata (heap.encodeFields sizes)).toNat ++ rest)
    simpa [withChecksum, Cursor.start] using found
  have sound : ¬ (heap.header.tableWidth = 0 ∨ heap.header.startingBlockSize = 0) :=
    not_or.mpr ⟨Nat.ne_of_gt (Nat.pow_pos (by decide)), Nat.ne_of_gt (Nat.pow_pos (by decide))⟩
  unfold Header.parse encodeHeader
  rw [Session.bind_ok fields, Session.bind_ok
    (rfl : Header.skipFilters sizes heap.header.ioFilterEncodedLen _ = _),
    Session.bind_ok (expectChecksum_eq _ _ rest), if_neg sound]
  rfl

theorem encodeHeader_length_le : (heap.encodeHeader sizes).length ≤ Header.maxLen sizes := by
  unfold encodeHeader encodeFields Header.maxLen encodeAddress encodeStart
  simp only [withChecksum_length, List.length_append, littleEndian_length]
  change 4 + _ + _ + _ ≤ _
  omega

theorem read_header (fits : heap.Fits view.sizes) (held : heap.Held view) :
    Header.read view heap.headerAddress = .ok heap.header := by
  obtain ⟨rest, window⟩ := held.header.readUpto
  have whole : (heap.encodeHeader view.sizes ++ rest).take (Header.maxLen view.sizes) =
      heap.encodeHeader view.sizes ++
        rest.take (Header.maxLen view.sizes - (heap.encodeHeader view.sizes).length) := by
    rw [List.take_append, List.take_of_length_le encodeHeader_length_le]
  unfold Header.read
  rw [window, Outcome.ok_bind, whole, parse_header fits]

section Direct

theorem offset_fits (fits : heap.Fits sizes) {offset : Nat} (inside : offset < heap.managedSpace) :
    offset < 256 ^ heap.offsetSize := by
  have room : heap.maxHeapSizeBits ≤ 8 * heap.offsetSize := by
    unfold offsetSize
    omega
  calc offset < heap.managedSpace := inside
    _ ≤ 2 ^ heap.maxHeapSizeBits := fits.addressed
    _ ≤ 2 ^ (8 * heap.offsetSize) := Nat.pow_le_pow_right (by decide) room
    _ = 256 ^ heap.offsetSize := Nat.pow_mul 2 8 heap.offsetSize

theorem offsetSize_le (fits : heap.Fits sizes) : heap.offsetSize ≤ 8 := by
  have bits := fits.maxHeapSizeBits
  unfold offsetSize
  omega

theorem managedSpace_lt (fits : heap.Fits sizes) : heap.managedSpace < wordSize :=
  lt_of_lt_of_le fits.managedSpace (Nat.pow_le_pow_right (by decide) fits.widths.length_le)

theorem reads_block (fits : heap.Fits sizes) {signature : Bytes} (four : signature.length = 4)
    (letters block : String) :
    Reads (expectBlock heap.header sizes signature letters block)
      (encodeStart signature ++ encodeAddress sizes (some heap.headerAddress)) () := by
  apply (reads_start four _ _).bind
  apply (reads_addressRequired fits.widths.offset_le fits.headerAddress _).bind_done
  intro _
  exact congrFun (if_neg (not_not_intro (rfl : heap.headerAddress = heap.headerAddress))) _

theorem encodeFront_length {signature : Bytes} (four : signature.length = 4) (offset : Nat) :
    (heap.encodeFront sizes signature offset).length = 4 + 1 + sizes.offset + heap.offsetSize := by
  unfold encodeFront encodeStart encodeAddress
  simp only [List.length_append, littleEndian_length, four]

theorem encodeDirect_length (offset : Nat) (payload : Bytes) :
    (heap.encodeDirect sizes offset payload).length =
      heap.header.directBlockHeaderLen sizes + payload.length := by
  have front := @encodeFront_length heap sizes fhdbSignature rfl offset
  unfold encodeDirect Header.directBlockHeaderLen
  cases heap.header.checksumsDirectBlocks with
  | true =>
    simp only [if_true, List.length_append, littleEndian_length, front]
    exact (Nat.add_assoc _ _ _).symm
  | false =>
    simp only [Bool.false_eq_true, if_false, List.length_append, front]
    rfl

/-- The payload is what follows the header. -/
theorem drop_encodeDirect (offset : Nat) (payload : Bytes) :
    (heap.encodeDirect sizes offset payload).drop (heap.header.directBlockHeaderLen sizes) = payload := by
  have front := @encodeFront_length heap sizes fhdbSignature rfl offset
  unfold encodeDirect Header.directBlockHeaderLen
  cases heap.header.checksumsDirectBlocks with
  | true =>
    rw [if_pos rfl, if_pos rfl, ← List.append_assoc]
    apply List.drop_left'
    rw [List.length_append, front, littleEndian_length]
    rfl
  | false =>
    rw [if_neg Bool.false_ne_true, if_neg Bool.false_ne_true]
    exact List.drop_left' front

theorem expectBlockChecksum_eq (front payload : Bytes) :
    let sum := (Checksum.metadata (front ++ (List.replicate 4 0 ++ payload))).toNat
    let block := front ++ (littleEndian 4 sum ++ payload)
    (expectBlockChecksum block ⟨block, front.length⟩).1 = .ok () := by
  intro sum block
  have stored := (Cursor.reads_u32 (Checksum.metadata (front ++ (List.replicate 4 0 ++ payload))).toNat_lt).step
    (fun stored => (if stored ≠ (Checksum.metadata (splice block front.length (List.replicate 4 0))).toNat then
      Session.throw (.checksumMismatch "fractal heap direct block" stored
        (Checksum.metadata (splice block front.length (List.replicate 4 0))).toNat) else pure () : Parse Unit))
    front payload
  have zeroed : splice block front.length (List.replicate 4 0) = front ++ (List.replicate 4 0 ++ payload) := by
    have beyond : block.drop (front.length + 4) = payload := by
      rw [List.drop_length_add_append]
      exact List.drop_left' (littleEndian_length 4 sum)
    rw [splice, List.length_replicate, beyond, List.take_left, List.append_assoc]
  unfold expectBlockChecksum
  rw [Session.bind_ok (rfl : Cursor.position _ = _)]
  dsimp only
  rw [stored, zeroed, if_neg (not_not_intro rfl)]
  rfl

theorem reads_blockOffset (fits : heap.Fits sizes) {offset : Nat} (inside : offset < heap.managedSpace) :
    Reads (expectBlock heap.header sizes fhdbSignature "FHDB" "direct" >>= fun _ =>
      Cursor.uint (heap.header.blockOffsetSize % 256))
      (heap.encodeFront sizes fhdbSignature offset) offset := by
  have narrow := offsetSize_le fits
  have field : heap.header.blockOffsetSize % 256 = heap.offsetSize := Nat.mod_eq_of_lt (by
    change heap.offsetSize < 256
    omega)
  rw [field]
  exact (reads_block fits rfl _ _).bind (Cursor.reads_uint narrow (offset_fits fits inside))

theorem parse_direct (fits : heap.Fits sizes) {offset : Nat} (inside : offset < heap.managedSpace)
    (payload : Bytes) :
    (parseDirectBlock heap.header sizes (heap.encodeDirect sizes offset payload)
      (Cursor.start (heap.encodeDirect sizes offset payload))).1 = .ok offset := by
  have place := reads_blockOffset fits inside
  have regrouped : ∀ block, parseDirectBlock heap.header sizes block =
      (expectBlock heap.header sizes fhdbSignature "FHDB" "direct" >>= fun _ =>
        Cursor.uint (heap.header.blockOffsetSize % 256)) >>= fun blockOffset =>
          checkBlock heap.header block >>= fun _ => pure blockOffset := by
    intro block
    rw [bind_assoc]
    rfl
  rw [regrouped]
  unfold encodeDirect checkBlock
  cases heap.header.checksumsDirectBlocks with
  | true =>
    have found := expectBlockChecksum_eq (heap.encodeFront sizes fhdbSignature offset) payload
    have front := place.step (fun blockOffset => expectBlockChecksum
      (heap.encodeFront sizes fhdbSignature offset ++ (littleEndian 4 (Checksum.metadata
        (heap.encodeFront sizes fhdbSignature offset ++ (List.replicate 4 0 ++ payload))).toNat ++ payload)) >>=
      fun _ => (pure blockOffset : Parse Nat)) []
      (littleEndian 4 (Checksum.metadata
        (heap.encodeFront sizes fhdbSignature offset ++ (List.replicate 4 0 ++ payload))).toNat ++ payload)
    rw [List.nil_append, List.nil_append] at front
    exact (congrArg Prod.fst front).trans (by rw [Session.bind_of_fst found]; rfl)
  | false =>
    have front := place.step (fun blockOffset => (pure () : Parse Unit) >>= fun _ =>
      pure blockOffset) [] payload
    exact congrArg Prod.fst front

/-- Keep one more block, unless there are implausibly many. -/
def push (out : HeapBlocks) (block : Nat × Bytes) : Code HeapBlocks :=
  if out.length > maxBlocks then
    .error (.malformed "fractal heap has implausibly many blocks; the file may be cyclic")
  else .ok (out ++ [block])

def pushAll (out blocks : HeapBlocks) : Code HeapBlocks := blocks.foldlM push out

theorem pushAll_append (out first second : HeapBlocks) :
    pushAll out (first ++ second) = pushAll out first >>= fun out => pushAll out second := List.foldlM_append

theorem pushAll_singleton (out : HeapBlocks) (block : Nat × Bytes) : pushAll out [block] = push out block := by
  unfold pushAll
  rw [List.foldlM_cons]
  exact bind_pure _

/-- Blocks are kept as long as those before them are not too many. -/
theorem pushAll_of_le {out blocks : HeapBlocks} (few : out.length + blocks.length ≤ maxBlocks + 1) :
    pushAll out blocks = .ok (out ++ blocks) := by
  induction blocks generalizing out with
  | nil => exact congrArg Outcome.ok (List.append_nil out).symm
  | cons block blocks ih =>
    rw [List.length_cons] at few
    have room : ¬ out.length > maxBlocks := by omega
    have rest := @ih (out ++ [block]) (by rw [List.length_append, List.length_singleton]; omega)
    rw [List.append_assoc] at rest
    unfold pushAll at rest ⊢
    rw [List.foldlM_cons, push, if_neg room, Outcome.ok_bind, rest]
    rfl

theorem length_le_of_pushAll {out blocks result : HeapBlocks} (kept : pushAll out blocks = .ok result)
    (some_ : blocks ≠ []) : out.length + blocks.length ≤ maxBlocks + 1 := by
  induction blocks generalizing out with
  | nil => exact absurd rfl some_
  | cons block blocks ih =>
    unfold pushAll at kept
    rw [List.foldlM_cons] at kept
    obtain ⟨next, here, later⟩ := Outcome.bind_eq_ok.mp kept
    unfold push at here
    split at here
    · cases here
    · next room =>
      cases here
      by_cases last : blocks = []
      · rw [last, List.length_singleton]
        omega
      · have rest := ih later last
        rw [List.length_append, List.length_singleton] at rest
        rw [List.length_cons]
        omega

/-- A stored direct block is kept with the place its payload starts at. -/
theorem readDirectBlock_eq (fits : heap.Fits view.sizes) {offset size address : Nat} {payload : Bytes}
    (block : view.Holds address (heap.encodeDirect view.sizes offset payload))
    (whole : heap.header.directBlockHeaderLen view.sizes + payload.length = size)
    (inside : offset + size ≤ heap.managedSpace) (out : HeapBlocks) :
    readDirectBlock build view heap.header address size out =
      push out (offset + heap.header.directBlockHeaderLen view.sizes, payload) := by
  have length := (@encodeDirect_length heap view.sizes offset payload).trans whole
  have read := length ▸ block.read
  have small := managedSpace_lt fits
  have header : 0 < heap.header.directBlockHeaderLen view.sizes := by
    unfold Header.directBlockHeaderLen
    omega
  have room : ¬ heap.header.directBlockHeaderLen view.sizes >
      (heap.encodeDirect view.sizes offset payload).length := by omega
  unfold readDirectBlock push
  split
  · rfl
  · rw [read, Outcome.ok_bind, parse_direct fits (by omega), Outcome.ok_bind]
    dsimp only
    rw [if_neg room, Build.add, Build.word_of_lt build (by omega), Outcome.ok_bind, drop_encodeDirect]

end Direct

section Rows

theorem rowSize_eq (heap : StoredHeap) (row : Nat) : heap.rowSize row = 2 ^ (heap.startBits + (row - 1)) :=
  rowSize_two row

theorem rowSize_le_iff {row : Nat} :
    heap.rowSize row ≤ heap.maxDirectBlockSize ↔ heap.startBits + (row - 1) ≤ heap.maxDirectBits :=
  Doubling.rowSize_le_iff

theorem rowBlockSize_of_lt {row : Nat} (small : heap.rowSize row < wordSize) :
    heap.header.rowBlockSize build row = .ok (heap.rowSize row) := by
  have bits : heap.startBits + (row - 1) < 64 := by
    rw [rowSize_eq] at small
    exact (Nat.pow_lt_pow_iff_right (by decide)).mp small
  unfold Header.rowBlockSize Header.shiftLeft
  by_cases first : row < 2
  · have none : row - 1 = 0 := by omega
    rw [if_pos first, rowSize_eq, none]
    rfl
  · rw [if_neg first, if_pos (by omega)]
    exact congrArg Outcome.ok (Nat.mod_eq_of_lt small)

theorem countDirectRows_skip {header : Header} {stop : Nat} : ∀ {budget row : Nat},
    (∀ r, row ≤ r → r < stop → ∃ size, header.rowBlockSize build r = .ok size ∧
      size ≤ header.maxDirectBlockSize) → row ≤ stop → stop ≤ row + budget →
    header.countDirectRows build budget row = header.countDirectRows build (row + budget - stop) stop := by
  intro budget
  induction budget with
  | zero =>
    intro row _ before room
    obtain rfl : row = stop := by omega
    rw [Nat.add_zero, Nat.sub_self]
  | succ budget ih =>
    intro row direct before room
    by_cases last : row = stop
    · subst last
      rw [Nat.add_sub_cancel_left]
    · obtain ⟨size, found, small⟩ := direct row (Nat.le_refl _) (by omega)
      have rest := @ih (row + 1) (fun r after => direct r (by omega)) (by omega) (by omega)
      rw [Header.countDirectRows, found, Outcome.ok_bind, if_pos small, rest]
      congr 1
      omega

/-- The rows of direct blocks are those that the table has, where the size of the
blocks after them fits 64 bits. -/
theorem maxDirectRows_eq (fits : heap.Fits sizes) (half : heap.maxDirectBits < 63) :
    heap.header.maxDirectRows build = .ok (heap.maxDirectBits - heap.startBits + 2) := by
  have ordered := fits.ordered
  have direct : ∀ r, 0 ≤ r → r < heap.maxDirectBits - heap.startBits + 2 →
      ∃ size, heap.header.rowBlockSize build r = .ok size ∧ size ≤ heap.header.maxDirectBlockSize := by
    intro r _ before
    have small : heap.rowSize r ≤ heap.maxDirectBlockSize := rowSize_le_iff.mpr (by omega)
    have bound : heap.maxDirectBlockSize < wordSize := Nat.pow_lt_pow_right (by decide) (by omega)
    exact ⟨_, rowBlockSize_of_lt (lt_of_le_of_lt small bound), small⟩
  have next : heap.rowSize (heap.maxDirectBits - heap.startBits + 2) = 2 ^ (heap.maxDirectBits + 1) := by
    rw [rowSize_eq]
    congr 1
    omega
  have word : heap.rowSize (heap.maxDirectBits - heap.startBits + 2) < wordSize := by
    rw [next]
    exact Nat.pow_lt_pow_right (by decide) (by omega)
  have large : ¬ heap.rowSize (heap.maxDirectBits - heap.startBits + 2) ≤ heap.header.maxDirectBlockSize := by
    rw [next]
    exact Nat.not_le.mpr (Nat.pow_lt_pow_right (by decide) (Nat.lt_succ_self _))
  obtain ⟨budget, left⟩ : ∃ budget, 0 + (2 ^ 16 - 1) - (heap.maxDirectBits - heap.startBits + 2) = budget + 1 :=
    Nat.exists_eq_add_one_of_ne_zero (by omega)
  rw [Header.maxDirectRows, countDirectRows_skip direct (Nat.zero_le _) (by omega), left,
    Header.countDirectRows, rowBlockSize_of_lt word, Outcome.ok_bind, if_neg large]

/-- The size of a row's blocks on 64 bits is at most the largest power of two there. -/
theorem power_mod_le (bits : Nat) : 2 ^ bits % wordSize ≤ 2 ^ 63 := by
  by_cases small : bits < 64
  · have word : 2 ^ bits < wordSize := Nat.pow_lt_pow_right (by decide) small
    rw [Nat.mod_eq_of_lt word]
    exact Nat.pow_le_pow_right (by decide) (by omega)
  · have multiple : wordSize ∣ 2 ^ bits := Nat.pow_dvd_pow 2 (Nat.not_lt.mp small)
    rw [Nat.mod_eq_zero_of_dvd multiple]
    exact Nat.zero_le _

theorem rowBlockSize_le (full : heap.maxDirectBits = 63) {row : Nat} (inside : row < 65 ∨ build = .release) :
    heap.startBits ≤ 63 → ∃ size, heap.header.rowBlockSize build row = .ok size ∧
      size ≤ heap.header.maxDirectBlockSize := by
  intro starts
  have largest : heap.header.maxDirectBlockSize = 2 ^ 63 := congrArg (2 ^ ·) full
  have shifted : ∀ bits, heap.header.startingBlockSize * 2 ^ bits % wordSize ≤ 2 ^ 63 := fun bits => by
    change 2 ^ heap.startBits * 2 ^ bits % wordSize ≤ 2 ^ 63
    rw [← Nat.pow_add]
    exact power_mod_le _
  rw [largest]
  unfold Header.rowBlockSize Header.shiftLeft
  by_cases first : row < 2
  · rw [if_pos first]
    exact ⟨_, rfl, Nat.pow_le_pow_right (by decide) starts⟩
  · rw [if_neg first]
    by_cases narrow : row - 1 < 64
    · rw [if_pos narrow]
      exact ⟨_, rfl, shifted _⟩
    · rw [if_neg narrow]
      rcases inside with early | rfl
      · omega
      · exact ⟨_, rfl, shifted _⟩

/-- A row whose blocks are too large for 64 bits is never found in an unchecked build. -/
theorem maxDirectRows_release (fits : heap.Fits sizes) (full : heap.maxDirectBits = 63) :
    heap.header.maxDirectRows .release = .ok (2 ^ 16 - 1) := by
  have ordered := fits.ordered
  rw [Header.maxDirectRows, @countDirectRows_skip _ _ (2 ^ 16 - 1) _ _ (fun r _ _ =>
    rowBlockSize_le full (.inr rfl) (by omega)) (by omega) (by omega), Nat.zero_add, Nat.sub_self]
  rfl

/-- A checked build shifts until it overflows. -/
theorem maxDirectRows_debug (fits : heap.Fits sizes) (full : heap.maxDirectBits = 63) :
    heap.header.maxDirectRows .debug = .panic .overflow := by
  have ordered := fits.ordered
  have overflow : heap.header.rowBlockSize .debug 65 = .panic .overflow := rfl
  rw [Header.maxDirectRows, @countDirectRows_skip _ _ 65 _ _ (fun r _ before =>
    rowBlockSize_le full (.inl before) (by omega)) (by omega) (by omega)]
  change (heap.header.rowBlockSize .debug 65 >>= _) = _
  rw [overflow]
  rfl

end Rows

section Tables

/-- Visit the allocated ones among some children. -/
def visitAll (visit : Nat → Nat → HeapBlocks → Code HeapBlocks) :
    Nat → List (Option Nat) → HeapBlocks → Code HeapBlocks
  | _, [], out => .ok out
  | entry, none :: children, out => visitAll visit (entry + 1) children out
  | entry, some address :: children, out => visit entry address out >>= visitAll visit (entry + 1) children

/-- The addresses are read one by one, and what they name is visited. -/
theorem readChildren_step {β : Type} (narrow : sizes.offset ≤ 8)
    (visit : Nat → Nat → HeapBlocks → Code HeapBlocks)
    {children : List (Option Nat)} (named : ∀ child ∈ children, sizes.FitsAddress child)
    (next : HeapBlocks → Parse β) (entry : Nat) (out : HeapBlocks) (before after : Bytes) :
    ((readChildren sizes visit entry children.length out >>= next)
      ⟨before ++ (children.flatMap (encodeAddress sizes) ++ after), before.length⟩).1 =
    visitAll visit entry children out >>= fun out =>
      (next out ⟨before ++ children.flatMap (encodeAddress sizes) ++ after,
        (before ++ children.flatMap (encodeAddress sizes)).length⟩).1 := by
  induction children generalizing entry out before with
  | nil =>
    rw [List.flatMap_nil, List.append_nil]
    rfl
  | cons child children ih =>
    have address := reads_address narrow (named child (List.mem_cons_self ..))
    have rest := fun out => ih (fun later member => named later (List.mem_cons_of_mem _ member)) (entry + 1) out
      (before ++ encodeAddress sizes child)
    rw [List.length_cons, readChildren, List.flatMap_cons, List.append_assoc, bind_assoc, address.step]
    rw [bind_assoc]
    simp only [List.append_assoc] at rest ⊢
    cases child with
    | none => exact rest out
    | some a =>
      change ((Session.lift (visit entry a out) >>= fun out =>
        readChildren sizes visit (entry + 1) children.length out >>= next) _).1 = _
      rw [visitAll]
      cases visit entry a out with
      | ok out => exact rest out
      | error e => rfl
      | panic p => rfl

theorem readTable_step (fits : heap.Fits view.sizes) {maxDirectRows rows : Nat}
    (readIndirectBlock : Nat → Nat → HeapBlocks → Code HeapBlocks) {direct indirect : List (Option Nat)}
    (named : ∀ child ∈ direct ++ indirect, view.sizes.FitsAddress child)
    (front : direct.length = min rows maxDirectRows * heap.tableWidth)
    (back : indirect.length = (rows - maxDirectRows) * heap.tableWidth) (out : HeapBlocks)
    (before after : Bytes) :
    (readTable build view heap.header maxDirectRows readIndirectBlock rows out
      ⟨before ++ ((direct ++ indirect).flatMap (encodeAddress view.sizes) ++ after), before.length⟩).1 =
    visitAll (readDirectChild build view heap.header) 0 direct out >>=
      visitAll (readIndirectChild heap.header maxDirectRows readIndirectBlock) 0 indirect := by
  have narrow := fits.widths.offset_le
  have first := readChildren_step narrow (readDirectChild build view heap.header)
    (fun child member => named child (List.mem_append_left _ member))
    (readChildren view.sizes (readIndirectChild heap.header maxDirectRows readIndirectBlock) 0
      indirect.length) 0
    out before (indirect.flatMap (encodeAddress view.sizes) ++ after)
  have second := fun out => readChildren_step narrow
    (readIndirectChild heap.header maxDirectRows readIndirectBlock)
    (fun child member => named child (List.mem_append_right _ member)) pure 0 out
    (before ++ direct.flatMap (encodeAddress view.sizes)) after
  simp only [bind_pure, List.append_assoc] at second
  rw [List.flatMap_append, List.append_assoc]
  unfold readTable
  change ((readChildren _ _ 0 (min rows maxDirectRows * heap.tableWidth) out >>=
    readChildren _ _ 0 ((rows - maxDirectRows) * heap.tableWidth)) _).1 = _
  rw [← front, ← back, first]
  apply bind_congr
  intro out
  rw [List.append_assoc, second]
  exact bind_pure _

theorem reads_indirect (fits : heap.Fits sizes) (offset : Nat) :
    Reads (parseIndirectBlock heap.header sizes) (heap.encodeFront sizes fhibSignature offset) () := by
  have skipped := Cursor.reads_skip (littleEndian heap.offsetSize offset)
  rw [littleEndian_length] at skipped
  exact (reads_block fits rfl _ _).bind skipped

theorem encodeChildren_eq (children : List (Option StoredBlock)) :
    encodeChildren sizes children =
      (children.map (Option.map StoredBlock.address)).flatMap (encodeAddress sizes) := by
  rw [encodeChildren, List.flatMap_map]

theorem encodeChildren_length (children : List (Option StoredBlock)) :
    (encodeChildren sizes children).length = children.length * sizes.offset :=
  length_flatMap_block fun _ _ => littleEndian_length _ _

theorem encodeIndirect_length {rows : Nat} {children : List (Option StoredBlock)}
    (long : children.length = rows * heap.tableWidth) (offset maxDirectRows : Nat) :
    (heap.encodeIndirect sizes offset children).length =
      indirectBlockLen heap.header sizes (min rows maxDirectRows * heap.tableWidth)
        ((rows - maxDirectRows) * heap.tableWidth) := by
  have split : rows = min rows maxDirectRows + (rows - maxDirectRows) := by omega
  have front := @encodeFront_length heap sizes fhibSignature rfl offset
  unfold encodeIndirect indirectBlockLen
  rw [withChecksum_length, List.length_append, front, encodeChildren_length, long]
  conv_lhs => rw [split, Nat.add_mul, Nat.add_mul]
  exact congrArg (· + 4) (Nat.add_assoc _ _ _).symm

/-- A stored indirect block, read as having as many rows as it has, shows its table. -/
theorem readIndirectBlock_table (fits : heap.Fits view.sizes) {maxDirectRows rows offset address : Nat}
    {children : List (Option StoredBlock)} (counted : heap.header.maxDirectRows build = .ok maxDirectRows)
    (block : view.Holds address (heap.encodeIndirect view.sizes offset children))
    (long : children.length = rows * heap.tableWidth) (levels : Nat) (out : HeapBlocks) :
    readIndirectBlock build view heap.header (levels + 1) address rows out =
      (readTable build view heap.header maxDirectRows (readIndirectBlock build view heap.header levels) rows out
        ⟨heap.encodeIndirect view.sizes offset children,
          (heap.encodeFront view.sizes fhibSignature offset).length⟩).1 := by
  have read := block.read
  rw [encodeIndirect_length long offset maxDirectRows] at read
  have start := parse_withChecksum (reads_indirect fits offset) (encodeChildren view.sizes children)
  have body : (heap.encodeIndirect view.sizes offset children).length - 4 =
      (heap.encodeFront view.sizes fhibSignature offset ++ encodeChildren view.sizes children).length := by
    unfold encodeIndirect
    rw [withChecksum_length, Nat.add_sub_cancel]
  have verified := verifyChecksum_withChecksum
    (heap.encodeFront view.sizes fhibSignature offset ++ encodeChildren view.sizes children)
    "fractal heap indirect block"
  rw [readIndirectBlock, counted, Outcome.ok_bind]
  dsimp only
  change (view.read address (indirectBlockLen heap.header view.sizes (min rows maxDirectRows * heap.tableWidth)
    ((rows - maxDirectRows) * heap.tableWidth)) >>= _) = _
  rw [read, Outcome.ok_bind, body]
  unfold encodeIndirect
  rw [start, Outcome.ok_bind, verified, Outcome.ok_bind]

/-- Its children are visited in the order of the table. -/
theorem readIndirectBlock_step (fits : heap.Fits view.sizes) {maxDirectRows rows offset address : Nat}
    {direct indirect : List (Option StoredBlock)}
    (counted : heap.header.maxDirectRows build = .ok maxDirectRows)
    (block : view.Holds address (heap.encodeIndirect view.sizes offset (direct ++ indirect)))
    (front : direct.length = min rows maxDirectRows * heap.tableWidth)
    (back : indirect.length = (rows - maxDirectRows) * heap.tableWidth)
    (named : ∀ child ∈ (direct ++ indirect).map (Option.map StoredBlock.address), view.sizes.FitsAddress child)
    (levels : Nat) (out : HeapBlocks) :
    readIndirectBlock build view heap.header (levels + 1) address rows out =
      visitAll (readDirectChild build view heap.header) 0 (direct.map (Option.map StoredBlock.address)) out >>=
        visitAll (readIndirectChild heap.header maxDirectRows
        (readIndirectBlock build view heap.header levels)) 0
          (indirect.map (Option.map StoredBlock.address)) := by
  have long : (direct ++ indirect).length = rows * heap.tableWidth := by
    rw [List.length_append, front, back, ← Nat.add_mul]
    congr 1
    omega
  rw [List.map_append] at named
  have table := @readTable_step heap view build fits _ _
    (readIndirectBlock build view heap.header levels) _ _ named
    ((List.length_map _).trans front) ((List.length_map _).trans back) out
    (heap.encodeFront view.sizes fhibSignature offset)
    (littleEndian 4 (Checksum.metadata (heap.encodeFront view.sizes fhibSignature offset ++
      encodeChildren view.sizes (direct ++ indirect))).toNat)
  rw [← List.map_append, ← encodeChildren_eq, ← List.append_assoc] at table
  rw [readIndirectBlock_table fits counted block long]
  exact table

end Tables

section Loading

/-- Children that are each visited by keeping what is under them. -/
theorem visitAll_loaded {visit : Nat → Nat → HeapBlocks → Code HeapBlocks} {offset first entry : Nat}
    {children : List (Option StoredBlock)}
    (each : ∀ i child, children[i]? = some (some child) → ∀ out, visit (entry + i) child.address out =
      pushAll out (heap.loaded sizes (offset + heap.place (first + i)) child)) (out : HeapBlocks) :
    visitAll visit entry (children.map (Option.map StoredBlock.address)) out =
      pushAll out (heap.loadedFrom sizes offset first children) := by
  induction children generalizing first entry out with
  | nil => rfl
  | cons child children ih =>
    have rest := @ih (first + 1) (entry + 1) fun i later found out => by
      have here := each (i + 1) later found out
      rwa [← Nat.add_assoc, Nat.add_right_comm entry, ← Nat.add_assoc first, Nat.add_right_comm first] at here
    cases child with
    | none => exact rest out
    | some child =>
      have here := each 0 child rfl out
      rw [Nat.add_zero, Nat.add_zero] at here
      change (visit entry child.address out >>= _) = _
      rw [here, loadedFrom, pushAll_append]
      apply bind_congr
      exact rest

theorem loadedFrom_append (offset : Nat) (children later : List (Option StoredBlock)) (entry : Nat) :
    heap.loadedFrom sizes offset entry (children ++ later) =
      heap.loadedFrom sizes offset entry children ++
        heap.loadedFrom sizes offset (entry + children.length) later := by
  induction children generalizing entry with
  | nil =>
    rw [List.nil_append, List.length_nil, Nat.add_zero]
    simp [loadedFrom]
  | cons child children ih =>
    have rest := ih (entry + 1)
    rw [List.length_cons, ← Nat.add_assoc, Nat.add_right_comm]
    cases child with
    | none => exact rest
    | some child =>
      rw [List.cons_append, loadedFrom, rest, loadedFrom, List.append_assoc]

theorem tableWidth_pos (heap : StoredHeap) : 0 < heap.tableWidth := Nat.pow_pos (by decide)

/-- The block at a place of a table ends within what the table covers. -/
theorem place_inside {children : List (Option StoredBlock)} {rows entry : Nat}
    (long : children.length = rows * heap.tableWidth) (bound : entry < children.length) :
    heap.place entry + heap.rowSize (entry / heap.tableWidth) ≤ heap.span rows := by
  have next := place_succ heap.startingBlockSize heap.tableWidth_pos entry
  have whole := place_rows heap.startingBlockSize heap.tableWidth_pos rows
  have ordered := place_mono heap.startingBlockSize heap.tableWidth_pos (Nat.succ_le_of_lt bound)
  rw [long, Nat.succ_eq_add_one, whole, next] at ordered
  exact ordered

/-- The rows before one are those of direct blocks, among the rows of a table. -/
def Separates (heap : StoredHeap) (maxDirectRows rows : Nat) : Prop :=
  ∀ row < rows, row < maxDirectRows ↔ heap.rowSize row ≤ heap.maxDirectBlockSize

theorem fills_named {size : Nat} {child : StoredBlock} (fills : heap.Fills sizes size child) :
    child.address < undefinedForWidth sizes.offset := by
  cases fills with
  | direct named => exact named
  | indirect named => exact named

variable {maxDirectRows rows levels offset address : Nat} {children : List (Option StoredBlock)}

theorem children_named (inner : ∀ entry child, children[entry]? = some (some child) →
      heap.Fills sizes (heap.rowSize (entry / heap.tableWidth)) child) :
    ∀ child ∈ children.map (Option.map StoredBlock.address), sizes.FitsAddress child := by
  rintro _ member a rfl
  obtain ⟨slot, listed, same⟩ := List.mem_map.mp member
  obtain ⟨block, rfl, rfl⟩ := Option.map_eq_some_iff.mp same
  obtain ⟨entry, found⟩ := List.mem_iff_getElem?.mp listed
  exact fills_named (inner entry block found)

/-- The rows of a table that count as direct, and the others. -/
theorem split_table (maxDirectRows : Nat) (long : children.length = rows * heap.tableWidth) :
    ∃ direct indirect, children = direct ++ indirect ∧
      direct.length = min rows maxDirectRows * heap.tableWidth ∧
      indirect.length = (rows - maxDirectRows) * heap.tableWidth := by
  have front : (children.take (min rows maxDirectRows * heap.tableWidth)).length =
      min rows maxDirectRows * heap.tableWidth := by
    rw [List.length_take, long]
    exact Nat.min_eq_left (Nat.mul_le_mul_right _ (Nat.min_le_left _ _))
  refine ⟨_, _, (List.take_append_drop _ children).symm, front, ?_⟩
  rw [List.length_drop, long, ← Nat.mul_sub_right_distrib]
  congr 1
  omega

section Parts

variable {direct indirect : List (Option StoredBlock)}
  (separates : heap.Separates maxDirectRows rows)
  (long : (direct ++ indirect).length = rows * heap.tableWidth)
  (front : direct.length = min rows maxDirectRows * heap.tableWidth)
  (inner : ∀ entry child, (direct ++ indirect)[entry]? = some (some child) →
    heap.Fills view.sizes (heap.rowSize (entry / heap.tableWidth)) child)

include separates long front inner

/-- The children in rows of direct blocks are direct blocks, and are kept. -/
theorem visitAll_direct (fits : heap.Fits view.sizes)
    (below : ∀ entry child, (direct ++ indirect)[entry]? = some (some child) →
      heap.Stands view (offset + heap.place entry) child)
    (inside : offset + heap.span rows ≤ heap.managedSpace) (out : HeapBlocks) :
    visitAll (readDirectChild build view heap.header) 0 (direct.map (Option.map StoredBlock.address)) out =
      pushAll out (heap.loadedFrom view.sizes offset 0 direct) := by
  have wide := heap.tableWidth_pos
  have word := managedSpace_lt fits
  apply visitAll_loaded
  intro i child found out
  have bound := (List.getElem?_eq_some_iff.mp found).1
  have there : (direct ++ indirect)[i]? = some (some child) := by
    rw [List.getElem?_append_left bound]
    exact found
  have row : i / heap.tableWidth < min rows maxDirectRows := by
    rw [Nat.div_lt_iff_lt_mul wide, ← front]
    exact bound
  have small := (separates _ (by omega)).mp (by omega : i / heap.tableWidth < maxDirectRows)
  have fills := inner i child there
  have room := place_inside long (List.getElem?_eq_some_iff.mp there).1
  have size := @rowBlockSize_of_lt heap build (i / heap.tableWidth) (by omega)
  rw [Nat.zero_add, readDirectChild]
  change (heap.header.rowBlockSize build (i / heap.tableWidth) >>= _) = _
  rw [size, Outcome.ok_bind]
  cases child with
  | direct address payload =>
    cases fills with
    | direct named small whole =>
      cases below i _ there with
      | direct block =>
        change readDirectBlock build view heap.header address _ out = _
        rw [readDirectBlock_eq fits block whole (by omega), loaded, pushAll_singleton]
  | indirect address below =>
    cases fills with
    | indirect named large => exact absurd small (Nat.not_le.mpr large)

/-- The other children are indirect blocks, and each is read with the rows that the
code counts for it. -/
theorem visitAll_indirect {visit : Nat → Nat → HeapBlocks → Code HeapBlocks}
    (nested : ∀ entry address later, (direct ++ indirect)[entry]? = some (some (.indirect address later)) →
      maxDirectRows ≤ entry / heap.tableWidth → ∀ out,
      visit address (entry / heap.tableWidth - maxDirectRows + 1) out =
        pushAll out (heap.loaded view.sizes (offset + heap.place entry) (.indirect address later)))
    (out : HeapBlocks) :
    visitAll (readIndirectChild heap.header maxDirectRows visit) 0
      (indirect.map (Option.map StoredBlock.address))
        out = pushAll out (heap.loadedFrom view.sizes offset direct.length indirect) := by
  have wide := heap.tableWidth_pos
  apply visitAll_loaded
  intro i child found out
  have bound := (List.getElem?_eq_some_iff.mp found).1
  have inTable : direct.length + i < rows * heap.tableWidth := by
    rw [← long, List.length_append]
    omega
  -- There are indirect blocks, so all rows of direct blocks come before them.
  have full : direct.length = maxDirectRows * heap.tableWidth := by
    have more : maxDirectRows < rows := by
      by_contra few
      rw [front, Nat.min_eq_left (Nat.not_lt.mp few)] at inTable
      omega
    rw [front, Nat.min_eq_right (Nat.le_of_lt more)]
  have row : (direct.length + i) / heap.tableWidth = maxDirectRows + i / heap.tableWidth := by
    rw [full, Nat.add_comm, Nat.add_mul_div_right _ _ wide, Nat.add_comm]
  have there : (direct ++ indirect)[direct.length + i]? = some (some child) := by
    rw [List.getElem?_append_right (Nat.le_add_right _ _), Nat.add_sub_cancel_left]
    exact found
  have fills := inner _ child there
  cases child with
  | direct address payload =>
    cases fills with
    | direct named small whole =>
      have early := (separates _ ((Nat.div_lt_iff_lt_mul wide).mpr inTable)).mpr small
      rw [row] at early
      exact absurd early (Nat.not_lt.mpr (Nat.le_add_right _ _))
  | indirect address below =>
    have later : maxDirectRows ≤ (direct.length + i) / heap.tableWidth := by
      rw [row]
      exact Nat.le_add_right _ _
    have loaded := nested _ address below there later out
    rw [row] at loaded
    rw [Nat.zero_add]
    exact loaded

end Parts

theorem readIndirectBlock_of_nested (fits : heap.Fits view.sizes)
    (counted : heap.header.maxDirectRows build = .ok maxDirectRows)
    (separates : heap.Separates maxDirectRows rows) (long : children.length = rows * heap.tableWidth)
    (inner : ∀ entry child, children[entry]? = some (some child) →
      heap.Fills view.sizes (heap.rowSize (entry / heap.tableWidth)) child)
    (stands : heap.Stands view offset (.indirect address children))
    (inside : offset + heap.span rows ≤ heap.managedSpace)
    (nested : ∀ entry address later, children[entry]? = some (some (.indirect address later)) →
      maxDirectRows ≤ entry / heap.tableWidth → ∀ out,
      readIndirectBlock build view heap.header levels address
      (entry / heap.tableWidth - maxDirectRows + 1) out =
        pushAll out (heap.loaded view.sizes (offset + heap.place entry) (.indirect address later)))
    (out : HeapBlocks) :
    readIndirectBlock build view heap.header (levels + 1) address rows out =
      pushAll out (heap.loadedFrom view.sizes offset 0 children) := by
  obtain ⟨direct, indirect, rfl, front, back⟩ := split_table maxDirectRows long
  cases stands with
  | indirect block below =>
    rw [readIndirectBlock_step fits counted block front back (children_named inner),
      visitAll_direct separates long front inner fits below inside, loadedFrom_append,
      pushAll_append, Nat.zero_add]
    apply bind_congr
    exact visitAll_indirect separates long front inner nested

theorem Separates.mono {more : Nat} (separates : heap.Separates maxDirectRows more) (le : rows ≤ more) :
    heap.Separates maxDirectRows rows := fun row before => separates row (Nat.lt_of_lt_of_le before le)

theorem Separates.eq (separates : heap.Separates maxDirectRows rows)
    (ordered : heap.startBits ≤ heap.maxDirectBits)
    (later : maxDirectRows < rows) : maxDirectRows = heap.maxDirectBits - heap.startBits + 2 := by
  have here := separates maxDirectRows later
  rw [rowSize_le_iff] at here
  by_contra other
  have before : heap.maxDirectBits - heap.startBits + 2 < maxDirectRows := by omega
  have there := separates _ (Nat.lt_trans before later)
  rw [rowSize_le_iff] at there
  omega

/-- A block too large to be direct has the number of rows that its row tells. -/
theorem rows_of_covers (ordered : heap.startBits ≤ heap.maxDirectBits) {row : Nat} (some_ : 0 < rows)
    (large : heap.maxDirectBlockSize < heap.rowSize row) (covers : heap.span rows = heap.rowSize row) :
    rows + heap.widthBits = row := by
  have later : 0 < row := by
    by_contra first
    have small : heap.rowSize row ≤ heap.maxDirectBlockSize := rowSize_le_iff.mpr (by omega)
    omega
  exact (span_eq_rowSize some_ later).mp covers

/-- An indirect block that fills a place, read with its own rows, is loaded with all
that is under it. -/
def Loads (build : Build) (view : View) (heap : StoredHeap) (more size : Nat) (block : StoredBlock) : Prop :=
  ∀ {address children rows levels offset}, block = .indirect address children →
    children.length = rows * heap.tableWidth → rows ≤ more → rows ≤ levels → heap.Stands view offset block →
    offset + size ≤ heap.managedSpace → ∀ out,
    readIndirectBlock build view heap.header levels address rows out =
      pushAll out (heap.loaded view.sizes offset block)

/-- A table is loaded when the code counts the rows of its indirect blocks right. -/
theorem readIndirectBlock_of_loads (fits : heap.Fits view.sizes) {more : Nat}
    (counted : heap.header.maxDirectRows build = .ok maxDirectRows)
    (separates : heap.Separates maxDirectRows more) (few : rows ≤ more) (deep : rows ≤ levels + 1)
    (long : children.length = rows * heap.tableWidth)
    (inner : ∀ entry child, children[entry]? = some (some child) →
      heap.Fills view.sizes (heap.rowSize (entry / heap.tableWidth)) child)
    (aligned : ∀ (entry address : Nat) later, children[entry]? = some (some (.indirect address later)) →
      heap.maxDirectBits + 1 = heap.widthBits + heap.startBits)
    (loads : ∀ entry child, children[entry]? = some (some child) →
      Loads build view heap more (heap.rowSize (entry / heap.tableWidth)) child)
    (stands : heap.Stands view offset (.indirect address children))
    (inside : offset + heap.span rows ≤ heap.managedSpace) (out : HeapBlocks) :
    readIndirectBlock build view heap.header (levels + 1) address rows out =
      pushAll out (heap.loadedFrom view.sizes offset 0 children) := by
  apply readIndirectBlock_of_nested fits counted (separates.mono few) long inner stands inside
  intro entry child later there beyond out
  have square := aligned entry child later there
  have bound := (List.getElem?_eq_some_iff.mp there).1
  have row : entry / heap.tableWidth < rows := by
    rw [Nat.div_lt_iff_lt_mul heap.tableWidth_pos, ← long]
    exact bound
  have room := place_inside long bound
  have direct := separates.eq fits.ordered (Nat.lt_of_le_of_lt beyond (Nat.lt_of_lt_of_le row few))
  cases stands with
  | indirect block under =>
    cases inner entry _ there with
    | indirect named large some_ covers wide inner =>
      have told := rows_of_covers fits.ordered some_ large covers
      have ordered := fits.ordered
      have within : offset + heap.place entry + heap.rowSize (entry / heap.tableWidth) ≤ heap.managedSpace := by
        omega
      apply loads entry _ there rfl _ _ _ (under entry _ there) within
      all_goals generalize entry / heap.tableWidth = row at *
      · rw [wide]
        congr 1
        omega
      · omega
      · omega

/-- Where the code counts the rows of child blocks right, every indirect block is
loaded. -/
theorem fills_loads (fits : heap.Fits view.sizes) {more : Nat}
    (counted : heap.header.maxDirectRows build = .ok maxDirectRows)
    (separates : heap.Separates maxDirectRows more)
    (aligned : heap.maxDirectBits + 1 = heap.widthBits + heap.startBits) {size : Nat} {block : StoredBlock}
    (fills : heap.Fills view.sizes size block) : Loads build view heap more size block := by
  induction fills with
  | direct => exact nofun
  | @indirect size found address children named large some_ covers long inner ih =>
    intro _ _ rows levels offset same wide few deep stands inside out
    cases same
    obtain rfl : found = rows := Nat.eq_of_mul_eq_mul_right heap.tableWidth_pos (long.symm.trans wide)
    obtain ⟨below, rfl⟩ := Nat.exists_eq_add_one_of_ne_zero (Nat.ne_of_gt (Nat.lt_of_lt_of_le some_ deep))
    subst covers
    rw [loaded]
    exact readIndirectBlock_of_loads fits counted separates few deep long inner
      (fun _ _ _ _ => aligned) ih stands inside out

end Loading

section Order

theorem loadedFrom_laid {offset : Nat} {children : List (Option StoredBlock)} : ∀ {entry : Nat},
    (∀ i child, children[i]? = some (some child) →
      Extents.Laid (offset + heap.place (entry + i))
        (offset + heap.place (entry + i) + heap.rowSize ((entry + i) / heap.tableWidth))
        (heap.loaded sizes (offset + heap.place (entry + i)) child)) →
    Extents.Laid (offset + heap.place entry) (offset + heap.place (entry + children.length))
      (heap.loadedFrom sizes offset entry children) := by
  induction children with
  | nil => exact fun _ => Nat.le_refl _
  | cons child children ih =>
    intro entry each
    have next := place_succ heap.startingBlockSize heap.tableWidth_pos entry
    change heap.place (entry + 1) = heap.place entry + heap.rowSize (entry / heap.tableWidth) at next
    have rest := @ih (entry + 1) fun i later found => by
      have here := each (i + 1) later found
      rwa [← Nat.add_assoc, Nat.add_right_comm] at here
    rw [Nat.add_right_comm, Nat.add_assoc entry] at rest
    cases child with
    | none =>
      refine rest.from_le ?_
      rw [next]
      omega
    | some child =>
      have here := each 0 child rfl
      rw [Nat.add_zero] at here
      rw [loadedFrom]
      apply here.append
      rw [next, ← Nat.add_assoc] at rest
      exact rest

/-- The payloads under a block lie one after the other in the space that the block
covers. -/
theorem loaded_laid {size : Nat} {block : StoredBlock} (fills : heap.Fills sizes size block) (offset : Nat) :
    Extents.Laid offset (offset + size) (heap.loaded sizes offset block) := by
  induction fills generalizing offset with
  | @direct size address payload named small whole =>
    rw [loaded]
    refine ⟨Nat.le_add_right _ _, ?_⟩
    change _ + payload.length ≤ _
    omega
  | @indirect size rows address children named large some_ covers long inner ih =>
    have whole := place_rows heap.startingBlockSize heap.tableWidth_pos rows
    have laid := @loadedFrom_laid heap sizes offset children 0 fun i child found => by
      rw [Nat.zero_add]
      exact ih i child found _
    rw [Nat.zero_add, long, place, place, whole, place_zero, Nat.add_zero] at laid
    rw [loaded, ← covers]
    exact laid

theorem blocks_laid (fits : heap.Fits sizes) : Extents.Laid 0 heap.managedSpace (heap.blocks sizes) := by
  have shape := fits.root
  unfold blocks managedSpace
  cases root : heap.root with
  | none => exact Nat.le_refl _
  | some block =>
    have fitting := shape block root
    cases block with
    | direct address payload =>
      have laid := loaded_laid fitting.2 0
      rwa [Nat.zero_add] at laid
    | indirect address children =>
      obtain ⟨some_, named, long, inner⟩ := fitting
      have whole := place_rows heap.startingBlockSize heap.tableWidth_pos heap.rootRows
      have laid := @loadedFrom_laid heap sizes 0 children 0 fun i child found => by
        rw [Nat.zero_add, Nat.zero_add]
        exact loaded_laid (inner i child found) _
      rw [Nat.zero_add, Nat.zero_add, long, Nat.zero_add, place, place, whole, place_zero] at laid
      exact laid

theorem sortBlocks_eq (fits : heap.Fits sizes) : sortBlocks (heap.blocks sizes) = heap.blocks sizes := by
  apply List.mergeSort_of_pairwise
  exact (blocks_laid fits).pairwise.imp fun le => decide_eq_true le

end Order

end StoredHeap

end Oxcdf.FractalHeap
