import Oxcdf.ObjectHeader.Following

/-! A stored object header is read back: the messages of every block of its tree,
each block's together. A header of more blocks than the bound is refused. -/

set_option autoImplicit false

namespace Oxcdf

open Foundation Foundation.Buffer Foundation.Format Foundation.Unfolding Foundation.Worklist

namespace ObjectHeader

section Starts

theorem reads_v1Start (address : Nat) {totalMessages referenceCount firstLen : Nat}
    (fits : (Start.one totalMessages referenceCount).Fits firstLen) :
    Reads (parseV1Start address) (littleEndian 1 1 ++ (List.replicate 1 0 ++ (littleEndian 2 totalMessages ++
      (littleEndian 4 referenceCount ++ littleEndian 4 firstLen)))) firstLen := by
  apply (Cursor.reads_u8 (by decide)).bind
  rw [if_neg (not_not_intro rfl)]
  apply (Cursor.reads_skip (List.replicate 1 0)).bind
  apply (Cursor.reads_u16 fits.1).bind
  apply (Cursor.reads_u32 fits.2.1).bind
  exact Cursor.reads_u32 fits.2.2

theorem parseV1Start_eq (address : Nat) {totalMessages referenceCount firstLen : Nat}
    (fits : (Start.one totalMessages referenceCount).Fits firstLen) :
    (parseV1Start address (Cursor.start ((Start.one totalMessages referenceCount).encode firstLen))).1 =
      .ok firstLen := by
  have read := reads_v1Start address fits [] (List.replicate 4 0)
  simp only [List.nil_append, List.append_assoc] at read
  exact congrArg Prod.fst read

theorem reads_skipIf {present : Bool} {len : Nat} {bytes : Bytes}
    (length : bytes.length = if present then len else 0) : Reads (Cursor.skipIf present len) bytes () := by
  cases present with
  | true =>
    obtain rfl : bytes.length = len := length
    exact Cursor.reads_skip bytes
  | false =>
    obtain rfl : bytes = [] := List.length_eq_zero_iff.mp length
    exact Reads.pure ()

theorem width_le (flags : Nat) : 2 ^ (flags &&& 0x03) ≤ 8 := by
  have small : flags &&& 0x03 ≤ 3 := Nat.and_le_right
  exact (Nat.pow_le_pow_right (by decide) small).trans (by decide)

theorem reads_v2Fields {flags firstLen : Nat} {times phaseChange : Bytes}
    (fits : (Start.two flags times phaseChange).Fits firstLen) :
    Reads parseV2Fields ((Start.two flags times phaseChange).encode firstLen) (flags, firstLen) := by
  apply (Cursor.reads_take ohdrSignature).bind
  rw [if_neg (not_not_intro rfl)]
  apply (Cursor.reads_u8 (by decide)).bind
  rw [if_neg (not_not_intro rfl)]
  apply (Cursor.reads_u8 fits.1).bind
  apply (reads_skipIf (by simpa using fits.2.2.1)).bind
  apply (reads_skipIf (by simpa using fits.2.2.2)).bind
  exact (Cursor.reads_uint (width_le flags) fits.2.1).bind_pure _

theorem parseV2Start_eq {flags firstLen : Nat} {times phaseChange : Bytes}
    (fits : (Start.two flags times phaseChange).Fits firstLen) (after : Bytes) :
    (parseV2Start (Cursor.start ((Start.two flags times phaseChange).encode firstLen ++ after))).1 =
      .ok ⟨flags, firstLen, ((Start.two flags times phaseChange).encode firstLen).length⟩ := by
  have read {next : Nat × Nat → Parse V2Start} := (reads_v2Fields fits).step next [] after
  exact congrArg Prod.fst read

theorem uint_short {width : Nat} (before : Bytes) {rest : Bytes} (positive : width ≠ 0) (narrow : width ≤ 8)
    (short : rest.length < width) :
    Cursor.uint width ⟨before ++ rest, before.length⟩ =
      (.error (Cursor.oob before.length width (before ++ rest).length), ⟨before ++ rest, before.length⟩) := by
  have room : before.length + width > (before ++ rest).length := by
    rw [List.length_append]
    omega
  have fails : Cursor.take width ⟨before ++ rest, before.length⟩ =
      (.error (Cursor.oob before.length width (before ++ rest).length), ⟨before ++ rest, before.length⟩) := by
    rw [Cursor.take, Format.take, if_pos room]
  rw [Cursor.uint, if_neg positive, if_neg (Nat.not_lt.mpr narrow), Session.bind_error fails]

/-- What stands before the length of the first block. -/
def encodeFront (flags : Nat) (times phaseChange : Bytes) : Bytes :=
  ohdrSignature ++ (littleEndian 1 2 ++ (littleEndian 1 flags ++ (times ++ phaseChange)))

theorem encode_two (flags firstLen : Nat) (times phaseChange : Bytes) :
    (Start.two flags times phaseChange).encode firstLen =
      encodeFront flags times phaseChange ++ littleEndian (2 ^ (flags &&& 0x03)) firstLen := by
  simp only [Start.encode, encodeFront, List.append_assoc]

/-- Without all of the length of the first block, nothing of a header is read. -/
theorem parseV2Start_short {flags firstLen : Nat} {times phaseChange rest : Bytes}
    (fits : (Start.two flags times phaseChange).Fits firstLen) (short : rest.length < 2 ^ (flags &&& 0x03)) :
    ∃ e, (parseV2Start (Cursor.start (encodeFront flags times phaseChange ++ rest))).1 = .error e := by
  obtain ⟨flagsFit, -, timesLen, phaseLen⟩ := fits
  have front : Cursor.start (encodeFront flags times phaseChange ++ rest) =
      ⟨[] ++ (ohdrSignature ++ (littleEndian 1 2 ++ (littleEndian 1 flags ++ (times ++ (phaseChange ++ rest))))),
        ([] : Bytes).length⟩ := by
    simp [Cursor.start, encodeFront]
  have timed : Reads (Cursor.skipIf (flags &&& 0x20 ≠ 0) 16) times () := reads_skipIf (by simpa using timesLen)
  have changed : Reads (Cursor.skipIf (flags &&& 0x10 ≠ 0) 4) phaseChange () :=
    reads_skipIf (by simpa using phaseLen)
  have signed : Reads (Cursor.take 4) ohdrSignature ohdrSignature := Cursor.reads_take ohdrSignature
  have failed : ∃ e state, parseV2Fields (Cursor.start (encodeFront flags times phaseChange ++ rest)) =
      (.error e, state) := by
    rw [front, parseV2Fields, signed.step, if_neg (not_not_intro rfl), (Cursor.reads_u8 (by decide)).step,
      if_neg (not_not_intro rfl), (Cursor.reads_u8 flagsFit).step, timed.step, changed.step,
      Session.bind_error (uint_short _ (by positivity) (width_le flags) short)]
    exact ⟨_, _, rfl⟩
  obtain ⟨e, state, failed⟩ := failed
  rw [parseV2Start, Session.bind_error failed]
  exact ⟨e, rfl⟩

end Starts

section Reading

variable {header : StoredHeader} {view : View} {levels : Nat}

open StoredHeader

/-- Everything the loop comes to is a block of the header, and none comes twice. -/
theorem lastNamedFirst_spec (bounded : Bounded header.links levels header.root)
    (tree : Unique header.links header.root) :
    (lastNamedFirst header.links levels header.root).Nodup ∧
      ∀ a ∈ lastNamedFirst header.links levels header.root, header.Reached a := by
  have perm := @lastNamedFirst_perm Nat header.links levels header.root
  constructor
  · exact perm.nodup_iff.mpr ((nodup_unfold bounded).mpr tree)
  · intro a member
    obtain ⟨turns, path, -⟩ := mem_unfold.mp (perm.mem_iff.mp member)
    exact ⟨turns, path⟩

/-- Following the blocks of a header, from the first block or from those it names. -/
theorem follow_header (build : Build) (fits : header.Fits view.sizes) (held : header.Held view)
    (bounded : Bounded header.links levels header.root) (tree : Unique header.links header.root)
    {queue visited : List Nat} (messages : List HeaderMessage)
    (suffix : queue.flatMap (lastNamedFirst header.links levels) <:+
      lastNamedFirst header.links levels header.root)
    (inner : header.start.form = .one ∨ header.root ∉ queue.flatMap (lastNamedFirst header.links levels))
    (short : ∀ a ∈ queue, Bounded header.links levels a)
    (fresh : ∀ a ∈ queue.flatMap (lastNamedFirst header.links levels), a ∉ visited) :
    follow (header.readBlock build view) maxContinuationBlocks (queue.map fun a => (a, header.len view.sizes a))
        visited messages =
      if (queue.flatMap (lastNamedFirst header.links levels)).length ≤ maxContinuationBlocks then
        .ok (messages ++ (queue.flatMap (lastNamedFirst header.links levels)).flatMap header.messages)
      else .error tooManyBlocks := by
  have spec := lastNamedFirst_spec bounded tree
  refine follow_eq maxContinuationBlocks messages short (fun a member => ?_)
    (spec.1.sublist suffix.sublist) fresh
  have reached := spec.2 a (suffix.subset member)
  refine finds build fits.widths (fits.blocks a reached) (held_of_reached held reached ?_)
  exact inner.imp id fun outside same => outside (same ▸ member)

/-- What the reader returns: the messages in the order it comes to the blocks, or
an error for a header of too many blocks. -/
def readBack (header : StoredHeader) (levels : Nat) : Code ObjectHeader :=
  if (lastNamedFirst header.links levels header.root).length ≤ header.start.mostBlocks then
    .ok ⟨header.address, header.start.version,
      (lastNamedFirst header.links levels header.root).flatMap header.messages⟩
  else .error tooManyBlocks

theorem readBack_eq (messages : Code (List HeaderMessage)) (enough : Prop) [Decidable enough]
    (found : messages = if enough then
      .ok ((lastNamedFirst header.links levels header.root).flatMap header.messages) else .error tooManyBlocks)
    (same : enough ↔ (lastNamedFirst header.links levels header.root).length ≤ header.start.mostBlocks) :
    (messages >>= fun messages => .ok ⟨header.address, header.start.version, messages⟩) =
      readBack header levels := by
  subst found
  unfold readBack
  by_cases few : enough
  · rw [if_pos few, if_pos (same.mp few), Outcome.ok_bind]
  · rw [if_neg few, if_neg fun small => few (same.mpr small), Outcome.error_bind]

theorem readV1_eq (build : Build) {totalMessages referenceCount : Nat}
    (one : header.start = .one totalMessages referenceCount) (fits : header.Fits view.sizes)
    (held : header.Held view) (bounded : Bounded header.links levels header.root)
    (tree : Unique header.links header.root) :
    readV1 build view header.address = readBack header levels := by
  have form : header.start.form = .one := by rw [one, Start.form]
  have whole : [header.root].flatMap (lastNamedFirst header.links levels) <:+
      lastNamedFirst header.links levels header.root := by
    simp only [List.flatMap_singleton]
    exact List.suffix_refl _
  have followed := @follow_header header view levels build fits held bounded tree [header.root] [] [] whole
    (.inl form) (fun a member => List.mem_singleton.mp member ▸ bounded) (fun _ _ => List.not_mem_nil)
  rw [List.flatMap_singleton, List.nil_append] at followed
  obtain ⟨address, start, blocks⟩ := header
  subst one
  have read : view.read address 16 = .ok (Start.encode _ (.one totalMessages referenceCount)) := held.start.read
  have parsed := parseV1Start_eq address fits.start
  have first : (build.add address 16 : Code Nat) = .ok (address + 16) := Build.word_of_lt build fits.root
  unfold readV1
  rw [read, Outcome.ok_bind, parsed, Outcome.ok_bind, first, Outcome.ok_bind]
  exact readBack_eq _ _ followed Iff.rfl

/-- Where the fields fit into the window, the first block of version 2 is read. -/
theorem readV2_first (build : Build) {address flags : Nat} {times phaseChange body : Bytes}
    (fits : (Start.two flags times phaseChange).Fits body.length)
    (held : view.Holds address (withChecksum ((Start.two flags times phaseChange).encode body.length ++ body)))
    (short : ((Start.two flags times phaseChange).encode body.length).length ≤ startWindow) :
    readV2 build view address = (do
      let first ← parseV2Messages view.sizes (flags &&& 0x04 ≠ 0) body
      let messages ← follow (readV2Block build view (flags &&& 0x04 ≠ 0)) maxContinuationBlocks
        first.named.reverse [address] first.messages
      .ok ⟨address, 2, messages⟩) := by
  obtain ⟨rest, upto⟩ := held.readUpto
  have small := held.inside.le_isizeMax
  have read := held.read
  rw [withChecksum_length, List.length_append] at small read
  have parsed := parseV2Start_eq fits ((body ++ (littleEndian 4 (Checksum.metadata
    ((Start.two flags times phaseChange).encode body.length ++ body)).toNat ++ rest)).take
      (startWindow - ((Start.two flags times phaseChange).encode body.length).length))
  have window := upto startWindow
  have checked := verifyBlock_withChecksum build held.inside.le_isizeMax "object header"
  have inner := range_withChecksum ((Start.two flags times phaseChange).encode body.length) body
  rw [List.length_append] at checked
  revert window
  rw [withChecksum, List.append_assoc, List.append_assoc, List.take_append, List.take_of_length_le short]
  intro window
  have bounded := isizeMax_lt_wordSize
  have bodyEnd : (build.add ((Start.two flags times phaseChange).encode body.length).length body.length :
      Code Nat) = .ok _ := Build.word_of_lt build (by omega)
  have blockLen : (build.add (((Start.two flags times phaseChange).encode body.length).length + body.length) 4 :
      Code Nat) = .ok _ := Build.word_of_lt build (by omega)
  unfold readV2
  rw [window, Outcome.ok_bind, parsed, Outcome.ok_bind]
  dsimp only
  rw [bodyEnd, Outcome.ok_bind, blockLen, Outcome.ok_bind, read, Outcome.ok_bind, checked,
    Outcome.ok_bind, inner, Outcome.ok_bind]
  rfl

theorem parse_first {flags : Nat} {times phaseChange : Bytes}
    (two : header.start = .two flags times phaseChange) (fits : header.Fits view.sizes) :
    parseV2Messages view.sizes (flags &&& 0x04 ≠ 0) (header.encodeBody view.sizes header.root) =
      .ok ⟨header.messages header.root,
        (header.links header.root).map fun b => (b, header.len view.sizes b)⟩ := by
  have block := fits.blocks header.root ⟨[], .here header.root⟩
  have widths := fits.widths
  clear fits
  obtain ⟨address, start, blocks⟩ := header
  subst two
  exact StoredBlock.parseV2Messages_eq widths block

theorem readV2_eq (build : Build) {flags : Nat} {times phaseChange : Bytes}
    (two : header.start = .two flags times phaseChange) (fits : header.Fits view.sizes)
    (held : header.Held view) (bounded : Bounded header.links levels header.root)
    (tree : Unique header.links header.root) (short : header.startLen view.sizes ≤ startWindow) :
    readV2 build view header.address = readBack header levels := by
  have spec := lastNamedFirst_spec bounded tree
  have order := lastNamedFirst_eq_cons bounded
  rw [order, List.nodup_cons] at spec
  have root : header.root = header.address := by rw [StoredHeader.root, two]
  have bodyLen : (header.encodeBody view.sizes header.root).length = header.bodyLen view.sizes header.root :=
    StoredBlock.encodeBody_length
  have start := held.start
  have startFits := fits.start
  rw [StoredHeader.encodeStart, two] at start
  rw [two] at startFits
  rw [StoredHeader.startLen, two] at short
  dsimp only at start
  rw [← bodyLen] at startFits start short
  -- The first block has been visited, and nothing below it names it again.
  have fresh : ∀ a ∈ (turned header.links header.root).flatMap (lastNamedFirst header.links levels),
      a ∉ [header.address] := by
    intro a member same
    rw [List.mem_singleton, ← root] at same
    subst same
    exact spec.1.1 member
  have followed := @follow_header header view levels build fits held bounded tree (turned header.links header.root)
    [header.address] (header.messages header.root) (order ▸ List.suffix_cons _ _) (.inr spec.1.1)
    (fun a member => bounded.link (List.mem_reverse.mp member))
    fresh
  have reader : header.readBlock build view = readV2Block build view (flags &&& 0x04 ≠ 0) := by
    rw [StoredHeader.readBlock, two]
  have whole : header.messages header.root ++ ((turned header.links header.root).flatMap
      (lastNamedFirst header.links levels)).flatMap header.messages =
        (lastNamedFirst header.links levels header.root).flatMap header.messages := by
    rw [order, List.flatMap_cons]
  rw [readV2_first build startFits start short, parse_first two fits, Outcome.ok_bind]
  rw [reader, whole] at followed
  have version : header.start.version = 2 := by rw [two, Start.version]
  have named : ((header.links header.root).map fun b => (b, header.len view.sizes b)).reverse =
      (turned header.links header.root).map fun b => (b, header.len view.sizes b) := List.map_reverse.symm
  dsimp only
  rw [named, ← version]
  refine readBack_eq _ _ followed ?_
  rw [order, List.length_cons, two]
  exact Nat.succ_le_succ_iff.symm

/-- The reader of one version or of the other is chosen by the first four bytes. -/
theorem read_eq (build : Build) (fits : header.Fits view.sizes) (held : header.Held view)
    (bounded : Bounded header.links levels header.root) (tree : Unique header.links header.root)
    (short : header.startLen view.sizes ≤ startWindow) :
    read build view header.address = readBack header levels := by
  obtain ⟨rest, upto⟩ := held.start.readUpto
  have probe := upto 4
  unfold ObjectHeader.read
  rw [probe, Outcome.ok_bind]
  cases start : header.start with
  | one totalMessages referenceCount =>
    have other : (header.encodeStart view.sizes ++ rest).take 4 ≠ ohdrSignature := by
      rw [encodeStart, start]
      intro same
      exact absurd (List.cons.inj same).1 (by decide)
    rw [if_neg other]
    exact readV1_eq build start fits held bounded tree
  | two flags times phaseChange =>
    have signed : (header.encodeStart view.sizes ++ rest).take 4 = ohdrSignature := by
      rw [encodeStart, start]
      rfl
    rw [if_pos signed]
    exact readV2_eq build start fits held bounded tree short

/-- A header whose fields do not fit into the window is not read. -/
theorem read_of_long (build : Build) (fits : header.Fits view.sizes) (held : header.Held view)
    (long : startWindow < header.startLen view.sizes) : ∃ e, read build view header.address = .error e := by
  obtain ⟨rest, upto⟩ := held.start.readUpto
  have startFits := fits.start
  rw [StoredHeader.startLen] at long
  unfold encodeStart at upto
  cases start : header.start with
  | one totalMessages referenceCount =>
    -- The fields of version 1 are 16 bytes.
    rw [start] at long
    simp [Start.encode, startWindow] at long
  | two flags times phaseChange =>
    simp only [start] at upto startFits long
    rw [withChecksum, encode_two] at upto
    rw [encode_two, List.length_append, littleEndian_length] at long
    have front : (encodeFront flags times phaseChange).length ≤ startWindow := by
      have timesLen := startFits.2.2.1
      have phaseLen := startFits.2.2.2
      simp only [encodeFront, List.length_append, littleEndian_length, timesLen, phaseLen]
      split <;> split <;> decide
    obtain ⟨tail, upto⟩ : ∃ tail, ∀ len, view.readUpto header.address len =
        .ok ((encodeFront flags times phaseChange ++ tail).take len) :=
      ⟨_, fun len => (upto len).trans (by rw [List.append_assoc, List.append_assoc, List.append_assoc])⟩
    have window := upto startWindow
    rw [List.take_append, List.take_of_length_le front] at window
    have short : (tail.take (startWindow - (encodeFront flags times phaseChange).length)).length <
        2 ^ (flags &&& 0x03) := Nat.lt_of_le_of_lt (List.length_take_le _ _) (by omega)
    obtain ⟨e, failed⟩ := parseV2Start_short startFits short
    have signed : (encodeFront flags times phaseChange ++ tail).take 4 = ohdrSignature := rfl
    refine ⟨e, ?_⟩
    rw [ObjectHeader.read, upto 4, Outcome.ok_bind, if_pos signed, readV2, window, Outcome.ok_bind, failed,
      Outcome.error_bind]

end Reading

section RoundTrip

/-- The messages of a header are returned in the order in which their blocks are named, exactly if the fields before
the first block fit into the window, there are no more blocks than the bound, and the order from the block named
last reads the same. It does where the blocks lie in turn, and only there if no message comes twice. -/
theorem objectHeader_read_iff (build : Build) {header : StoredHeader} {view : View} {levels : Nat}
    (fits : header.Fits view.sizes) (held : header.Held view)
    (bounded : Bounded header.links levels header.root) (tree : Unique header.links header.root) :
    (read build view header.address = .ok ⟨header.address, header.start.version, header.inOrder levels⟩ ↔
      header.startLen view.sizes ≤ startWindow ∧
        (firstNamedFirst header.links levels [header.root]).length ≤ header.start.mostBlocks ∧
          (lastNamedFirst header.links levels header.root).flatMap header.messages = header.inOrder levels) ∧
    (header.InTurn →
      (lastNamedFirst header.links levels header.root).flatMap header.messages = header.inOrder levels) ∧
    ((header.inOrder levels).Nodup →
      (lastNamedFirst header.links levels header.root).flatMap header.messages = header.inOrder levels →
        header.InTurn) ∧
    (header.startLen view.sizes ≤ startWindow →
      ((firstNamedFirst header.links levels [header.root]).length ≤ header.start.mostBlocks →
        ∃ order, order.Perm (firstNamedFirst header.links levels [header.root]) ∧
          read build view header.address =
            .ok ⟨header.address, header.start.version, order.flatMap header.messages⟩ ∧
          ((∀ a, header.Reached a → (header.links a).length ≤ 1) →
            order = firstNamedFirst header.links levels [header.root])) ∧
      (header.start.mostBlocks < (firstNamedFirst header.links levels [header.root]).length →
        read build view header.address = .error tooManyBlocks)) := by
  have perm := @firstNamedFirst_perm_lastNamedFirst _ header.links levels header.root
  have whole (short : header.startLen view.sizes ≤ startWindow) :=
    read_eq build fits held bounded tree short
  unfold readBack at whole
  rw [← perm.length_eq] at whole
  refine ⟨⟨fun returned => ?_, ?_⟩, flatMap_lastNamedFirst_eq bounded tree, inTurn_of_flatMap_eq bounded tree,
    fun short => ⟨fun few => ?_, fun many => (whole short).trans (if_neg (Nat.not_le.mpr many))⟩⟩
  · have short : header.startLen view.sizes ≤ startWindow := by
      by_contra long
      obtain ⟨e, failed⟩ := read_of_long build fits held (Nat.lt_of_not_le long)
      exact nomatch failed.symm.trans returned
    have found := (whole short).symm.trans returned
    split at found
    · next few => exact ⟨short, few, congrArg ObjectHeader.messages (Outcome.ok.inj found)⟩
    · cases found
  · rintro ⟨short, few, same⟩
    rw [whole short, if_pos few, same]
  · refine ⟨_, perm.symm, (whole short).trans (if_pos few), fun single => lastNamedFirst_eq fun a member => ?_⟩
    obtain ⟨turns, path, -⟩ := mem_unfold.mp member
    exact single a ⟨turns, path⟩

/-- A version 2 header whose first block names two others. The first of them holds padding, or a message, and names
a third. -/
def branched (filled : Bool) : StoredHeader where
  address := 0
  start := .two 0x04 [] []
  blocks a :=
    if a = 0 then ⟨[.continuation 0 0 55 [], .continuation 0 1 92 []], []⟩
    else if a = 55 then ⟨[.message (if filled then 0x01 else 0x00) 0 2 [7], .continuation 0 3 107 []], []⟩
    else if a = 92 then ⟨[.message 0x03 1 4 [9]], []⟩
    else if a = 107 then ⟨[.message 0x05 0 5 [11]], [0, 0]⟩
    else ⟨[], []⟩

def eightByte : Sizes := ⟨8, 8⟩

section Branched

variable (filled : Bool)

theorem branched_links (a : Nat) : (branched filled).links a =
    if a = 0 then [55, 92] else if a = 55 then [107] else [] := by
  unfold StoredHeader.links branched
  dsimp only
  repeat' split
  all_goals rfl

theorem branched_size : ((branched filled).encodeStart eightByte ++ ((branched filled).encodeBlock eightByte 55 ++
    ((branched filled).encodeBlock eightByte 92 ++ (branched filled).encodeBlock eightByte 107))).length = 124 := by
  cases filled <;> rfl

def branchedView : View where
  file := ⟨(branched filled).encodeStart eightByte ++ ((branched filled).encodeBlock eightByte 55 ++
    ((branched filled).encodeBlock eightByte 92 ++ (branched filled).encodeBlock eightByte 107)), by
      rw [branched_size]
      decide⟩
  baseAddress := 0
  sizes := eightByte

theorem branched_fits : (branched filled).Fits eightByte where
  widths := ⟨by decide, by decide⟩
  root := (by decide : 0 < wordSize)
  start := by
    have len : (branched filled).bodyLen eightByte (branched filled).root = 44 := by cases filled <;> rfl
    rw [len]
    exact ⟨by decide, by decide, rfl, rfl⟩
  blocks a _ := by
    have short (b : Nat) : (branched filled).len eightByte b < 256 ^ eightByte.length := by
      change 4 + ((branched filled).blocks b).bodyLen (.two true) eightByte + 4 < 256 ^ 8
      unfold branched
      dsimp only
      repeat' split
      all_goals decide
    have names (order b : Nat) (orderFits : order < 256 ^ 2) (bound : b < undefinedForWidth 8) :
        (Entry.continuation 0 order b []).Fits (branched filled).start.form eightByte
          ((branched filled).len eightByte) :=
      Entry.continuation_fits (by decide) (by decide) orderFits bound (short b)
    have holds (code flags order : Nat) (byte : UInt8) (codeFits : code < 256 ^ 1) (flagsFit : flags < 256 ^ 1)
        (orderFits : order < 256 ^ 2) (plain : MessageType.fromCode code ≠ .objectHeaderContinuation) :
        (Entry.message code flags order [byte]).Fits (branched filled).start.form eightByte
          ((branched filled).len eightByte) :=
      Entry.message_fits codeFits (by decide : 1 < 256 ^ 2) flagsFit orderFits plain
    change (if a = 0 then _ else _ : StoredBlock).Fits _ _ _
    split
    · exact ⟨List.forall_mem_cons.mpr ⟨names _ _ (by decide) (by decide),
        List.forall_mem_singleton.mpr (names _ _ (by decide) (by decide))⟩, (by decide : 0 < 6)⟩
    · split
      · refine ⟨List.forall_mem_cons.mpr ⟨?_, List.forall_mem_singleton.mpr (names _ _ (by decide) (by decide))⟩,
          (by decide : 0 < 6)⟩
        cases filled <;> exact holds _ _ _ _ (by decide) (by decide) (by decide) (by decide)
      · split
        · exact ⟨List.forall_mem_singleton.mpr (holds _ _ _ _ (by decide) (by decide) (by decide) (by decide)),
            (by decide : 0 < 6)⟩
        · split
          · exact ⟨List.forall_mem_singleton.mpr (holds _ _ _ _ (by decide) (by decide) (by decide) (by decide)),
              (by decide : 2 < 6)⟩
          · exact ⟨nofun, (by decide : 0 < 6)⟩

theorem branched_held : (branched filled).Held (branchedView filled) := by
  have file : (branchedView filled).file.bytes = (branched filled).encodeStart eightByte ++
    ((branched filled).encodeBlock eightByte 55 ++ ((branched filled).encodeBlock eightByte 92 ++
      (branched filled).encodeBlock eightByte 107)) := rfl
  obtain ⟨start, first, second, third⟩ := View.holds_in_turn rfl file
  have places : ((branched filled).encodeStart eightByte).length = 55 ∧
      ((branched filled).encodeStart eightByte ++ (branched filled).encodeBlock eightByte 55).length = 92 ∧
        ((branched filled).encodeStart eightByte ++ (branched filled).encodeBlock eightByte 55 ++
          (branched filled).encodeBlock eightByte 92).length = 107 := by
    cases filled <;> exact ⟨rfl, rfl, rfl⟩
  rw [places.1] at first
  rw [places.2.1] at second
  rw [places.2.2] at third
  refine ⟨start, nofun, fun a _ b member => ?_⟩
  rw [branched_links] at member
  split at member
  · rcases List.mem_pair.mp member with rfl | rfl
    · exact first
    · exact second
  · split at member
    · exact List.mem_singleton.mp member ▸ third
    · exact absurd member List.not_mem_nil

theorem branched_bounded : Bounded (branched filled).links 3 (branched filled).root := by
  refine @bounded_of_rank Nat (branched filled).links (fun a => if a = 0 then 2 else if a = 55 then 1 else 0)
    (fun a b member => ?_) 0
  rw [branched_links] at member
  split at member
  · next root =>
    subst root
    rcases List.mem_pair.mp member with rfl | rfl <;> decide
  · split at member
    · next outer inner =>
      subst inner
      rw [List.mem_singleton.mp member]
      decide
    · exact absurd member List.not_mem_nil

theorem branched_tree : Unique (branched filled).links (branched filled).root := by
  refine (nodup_unfold (branched_bounded filled)).mp ?_
  cases filled <;> decide

end Branched

/-- The message behind the first of two continuation messages is farther than the one behind the second. -/
theorem objectHeader_read_branched :
    read .debug (branchedView false) 0 = .ok ⟨0, 2, [⟨.datatype, 1, some 4, [9]⟩, ⟨.fillValue, 0, some 5, [11]⟩]⟩ := by
  have order : (branched false).inOrder 3 = [⟨.datatype, 1, some 4, [9]⟩, ⟨.fillValue, 0, some 5, [11]⟩] := by decide
  have whole := (objectHeader_read_iff .debug (branched_fits false) (branched_held false) (branched_bounded false)
    (branched_tree false)).1.mpr ⟨by decide, by decide, by decide⟩
  rwa [order] at whole

/-- A version 2 header with times, a phase change and eight bytes for the length of its one block. -/
def timed : StoredHeader where
  address := 0
  start := .two 0x33 (List.replicate 16 0) (List.replicate 4 0)
  blocks _ := ⟨[.message 0x01 0 0 [7]], []⟩

def timedView : View where
  file := ⟨timed.encodeStart eightByte, by decide +kernel⟩
  baseAddress := 0
  sizes := eightByte

theorem timed_fits : timed.Fits eightByte where
  widths := ⟨by decide, by decide⟩
  root := (by decide : 0 < wordSize)
  start := (⟨by decide, by decide, rfl, rfl⟩ : 0x33 < 256 ^ 1 ∧ 5 < 256 ^ 2 ^ (0x33 &&& 0x03) ∧ _ ∧ _)
  blocks a _ := ⟨List.forall_mem_singleton.mpr (Entry.message_fits (by decide : 1 < 256 ^ 1) (by decide : 1 < 256 ^ 2)
    (by decide) (by decide) (by decide)), (by decide : 0 < 4)⟩

theorem timed_held : timed.Held timedView where
  start := @View.holds_between timedView [] (timed.encodeStart eightByte) [] (List.append_nil _).symm rfl
  first := nofun
  named _ _ _ member := absurd member List.not_mem_nil

/-- A version 1 header whose first block names a second, which names a third, and
so on. -/
def chain (links : Nat) : StoredHeader where
  address := 0
  start := .one 0 1
  blocks a := if a < 16 + 24 * links then ⟨[.continuation 0 0 (a + 24) []], []⟩ else ⟨[], []⟩

section Chain

variable {n : Nat}

theorem chain_links (a : Nat) : (chain n).links a = if a < 16 + 24 * n then [a + 24] else [] := by
  unfold StoredHeader.links chain
  dsimp only
  split <;> rfl

theorem chain_len (a : Nat) : (chain n).len eightByte a = if a < 16 + 24 * n then 24 else 0 := by
  change ((chain n).blocks a).bodyLen .one eightByte = _
  unfold chain
  dsimp only
  split <;> rfl

/-- A path in a chain only goes on, and stays in it. -/
theorem chain_path {a b : Nat} {turns : List Nat} (path : Path (chain n).links a turns b) :
    turns = List.replicate turns.length 0 ∧ b = a + 24 * turns.length ∧
      (turns ≠ [] → b < 16 + 24 * n + 24) := by
  induction path with
  | here a => exact ⟨rfl, rfl, fun moves => absurd rfl moves⟩
  | @step a b c turn turns link rest ih =>
    rw [chain_links] at link
    split at link
    · next inside =>
      obtain ⟨small, rfl⟩ := List.getElem?_eq_some_iff.mp link
      obtain rfl : turn = 0 := Nat.lt_one_iff.mp small
      obtain ⟨same, place, within⟩ := ih
      refine ⟨by rw [List.length_cons, List.replicate_succ, ← same], ?_, fun _ => ?_⟩
      · rw [place, List.length_cons]
        change a + 24 + _ = _
        omega
      · by_cases moves : turns = []
        · subst moves
          rw [place]
          change a + 24 + 24 * 0 < _
          omega
        · exact within moves
    · exact absurd link (by simp)

theorem chain_bounded (a : Nat) : Bounded (chain n).links (16 + 24 * n - a + 1) a := by
  refine @bounded_of_rank Nat (chain n).links (fun a => 16 + 24 * n - a) (fun a b member => ?_) a
  rw [chain_links] at member
  split at member
  · rw [List.mem_singleton.mp member]
    omega
  · exact absurd member List.not_mem_nil

theorem chain_tree (a : Nat) : Unique (chain n).links a := by
  intro first second b one other
  have left := chain_path one
  have right := chain_path other
  have length : first.length = second.length := by omega
  rw [left.1, right.1, length]

/-- A chain has one block more than it has links. -/
theorem chain_unfold (levels : Nat) {left : Nat} (some : left ≤ n) (enough : left < levels) :
    (unfold (chain n).links levels (16 + 24 * (n - left))).length = left + 1 := by
  induction left generalizing levels with
  | zero =>
    obtain ⟨levels, rfl⟩ := Nat.exists_eq_succ_of_ne_zero (Nat.ne_of_gt enough)
    rw [unfold, chain_links, if_neg (by omega)]
    rfl
  | succ left ih =>
    obtain ⟨levels, rfl⟩ := Nat.exists_eq_succ_of_ne_zero
      (Nat.ne_of_gt (Nat.lt_of_le_of_lt (Nat.zero_le _) enough))
    have next : 16 + 24 * (n - (left + 1)) + 24 = 16 + 24 * (n - left) := by omega
    rw [unfold, chain_links, if_pos (by omega), List.flatMap_singleton, List.length_cons, next,
      ih levels (by omega) (by omega)]

theorem chain_reached {a : Nat} (reached : (chain n).Reached a) : ∃ i ≤ n, a = 16 + 24 * i := by
  obtain ⟨turns, path⟩ := reached
  have place := chain_path path
  change _ ∧ a = 16 + _ ∧ _ at place
  refine ⟨turns.length, ?_, place.2.1⟩
  by_cases moves : turns = []
  · rw [moves]
    exact Nat.zero_le n
  · have within := place.2.2 moves
    omega

theorem chain_fits (small : 16 + 24 * n ≤ isizeMax) : (chain n).Fits eightByte where
  widths := ⟨by decide, by decide⟩
  root := (by decide : 16 < wordSize)
  start := by
    have first : (chain n).len eightByte 16 < 256 ^ 4 := by
      rw [chain_len]
      split <;> decide
    exact ⟨by decide, by decide, first⟩
  blocks a reached := by
    obtain ⟨i, le, rfl⟩ := chain_reached reached
    have address : 16 + 24 * i + 24 < undefinedForWidth eightByte.offset := by
      have room : isizeMax + 24 < undefinedForWidth eightByte.offset := by decide
      omega
    have length : (chain n).len eightByte (16 + 24 * i + 24) < 256 ^ eightByte.length := by
      rw [chain_len]
      split <;> decide
    unfold chain
    dsimp only
    split
    · refine ⟨fun entry member => ?_, (by decide : 0 < 8)⟩
      rw [List.mem_singleton.mp member]
      exact Entry.continuation_fits (by decide) (by decide) (by decide) address length
    · exact ⟨nofun, (by decide : 0 < 8)⟩

/-- The blocks of a chain, back to back. -/
def chainBlocks (n count : Nat) : Bytes :=
  (List.range count).flatMap fun i => (chain n).encodeBlock eightByte (16 + 24 * i)

theorem chainBlocks_length {count : Nat} (le : count ≤ n) : (chainBlocks n count).length = 24 * count := by
  have each : (List.range count).map (fun i => ((chain n).encodeBlock eightByte (16 + 24 * i)).length) =
      (List.range count).map fun _ => 24 := by
    refine List.map_congr_left fun i member => ?_
    have small := List.mem_range.mp member
    rw [StoredHeader.encodeBlock_length, chain_len, if_pos (by omega)]
  rw [chainBlocks, List.length_flatMap, each, List.map_const', List.sum_replicate_nat, List.length_range,
    Nat.mul_comm]

theorem chainBlocks_split {i : Nat} (small : i < n) : ∃ after, chainBlocks n n =
    chainBlocks n i ++ (chain n).encodeBlock eightByte (16 + 24 * i) ++ after := by
  have listed : i < (List.range n).length := by rwa [List.length_range]
  have parts : List.range n = List.range i ++ i :: (List.range n).drop (i + 1) := by
    have front := List.take_append_drop i (List.range n)
    rw [List.take_range, Nat.min_eq_left small.le, List.drop_eq_getElem_cons listed,
      List.getElem_range] at front
    exact front.symm
  refine ⟨((List.range n).drop (i + 1)).flatMap fun j => (chain n).encodeBlock eightByte (16 + 24 * j), ?_⟩
  unfold chainBlocks
  nth_rewrite 1 [parts]
  rw [List.flatMap_append, List.flatMap_cons, List.append_assoc]

def chainView (n : Nat) (small : 16 + 24 * n ≤ isizeMax) : View where
  file := ⟨(chain n).encodeStart eightByte ++ chainBlocks n n, by
    rw [List.length_append, chainBlocks_length (Nat.le_refl n)]
    exact small⟩
  baseAddress := 0
  sizes := eightByte

theorem chain_holds (small : 16 + 24 * n ≤ isizeMax) {i : Nat} (le : i ≤ n) :
    (chainView n small).Holds (16 + 24 * i) ((chain n).encodeBlock eightByte (16 + 24 * i)) := by
  have before : ((chain n).encodeStart eightByte ++ chainBlocks n i).length = 16 + 24 * i := by
    rw [List.length_append, chainBlocks_length le]
    rfl
  have held : ∀ after, chainBlocks n n =
    chainBlocks n i ++ (chain n).encodeBlock eightByte (16 + 24 * i) ++ after →
      (chainView n small).Holds (16 + 24 * i) ((chain n).encodeBlock eightByte (16 + 24 * i)) := by
    intro after split
    rw [← before]
    refine @View.holds_between (chainView n small) _ _ after ?_ rfl
    rw [before]
    change (chain n).encodeStart eightByte ++ chainBlocks n n = _
    rw [split]
    simp only [List.append_assoc]
  rcases Nat.lt_or_eq_of_le le with inside | rfl
  · obtain ⟨after, split⟩ := chainBlocks_split inside
    exact held after split
  · refine held [] ?_
    have empty : (chain i).encodeBlock eightByte (16 + 24 * i) = [] := by
      apply List.length_eq_zero_iff.mp
      rw [StoredHeader.encodeBlock_length, chain_len, if_neg (Nat.lt_irrefl _)]
    rw [empty, List.append_nil, List.append_nil]

theorem chain_held (small : 16 + 24 * n ≤ isizeMax) : (chain n).Held (chainView n small) where
  start := @View.holds_between (chainView n small) [] _ (chainBlocks n n) rfl rfl
  first _ := chain_holds small (Nat.zero_le n)
  named a reached b member := by
    obtain ⟨i, le, rfl⟩ := chain_reached reached
    rw [chain_links] at member
    split at member
    · next inside =>
      rw [List.mem_singleton.mp member]
      exact chain_holds small (by omega : i + 1 ≤ n)
    · exact absurd member List.not_mem_nil

theorem chain_refused (build : Build) (small : 16 + 24 * n ≤ isizeMax) (many : maxContinuationBlocks ≤ n) :
    read build (chainView n small) 0 = .error tooManyBlocks := by
  have found := read_eq build (chain_fits small) (chain_held small) (chain_bounded 16) (chain_tree 16)
    (by decide : 16 ≤ 32)
  have count := @chain_unfold n (16 + 24 * n - 16 + 1) n (Nat.le_refl n) (by omega)
  rw [Nat.sub_self] at count
  refine found.trans (if_neg ?_)
  rw [(lastNamedFirst_perm _ _).length_eq]
  change ¬ (unfold (chain n).links (16 + 24 * n - 16 + 1) (16 + 24 * 0)).length ≤ maxContinuationBlocks
  omega

end Chain

/-- The two blocks named come back the wrong way round; a chain of 4096 continuation blocks, none of which holds a
message, is not read in version 1; and neither is a version 2 header with all the fields that it may have. -/
theorem objectHeader_order :
    ((branched true).Fits eightByte ∧ (branched true).Held (branchedView true) ∧
      Bounded (branched true).links 3 (branched true).root ∧ Unique (branched true).links (branched true).root ∧
      read .debug (branchedView true) 0 = .ok ⟨0, 2, [⟨.datatype, 1, some 4, [9]⟩, ⟨.dataspace, 0, some 2, [7]⟩,
        ⟨.fillValue, 0, some 5, [11]⟩]⟩ ∧
      (branched true).inOrder 3 = [⟨.dataspace, 0, some 2, [7]⟩, ⟨.datatype, 1, some 4, [9]⟩,
        ⟨.fillValue, 0, some 5, [11]⟩]) ∧
    (∃ view levels, (chain 4096).Fits view.sizes ∧ (chain 4096).Held view ∧
      Bounded (chain 4096).links levels (chain 4096).root ∧ Unique (chain 4096).links (chain 4096).root ∧
      read .debug view 0 = .error tooManyBlocks) ∧
    (timed.Fits eightByte ∧ timed.Held timedView ∧ Bounded timed.links 1 timed.root ∧
      Unique timed.links timed.root ∧ (∃ e, read .debug timedView 0 = .error e) ∧
      timed.inOrder 1 = [⟨.dataspace, 0, none, [7]⟩]) := by
  have small : 16 + 24 * 4096 ≤ isizeMax := by decide
  have alone : Bounded timed.links 1 timed.root := bounded_succ.mpr fun b member => absurd member List.not_mem_nil
  have turned := read_eq .debug (branched_fits true) (branched_held true) (branched_bounded true) (branched_tree true)
    (by decide)
  refine ⟨⟨branched_fits true, branched_held true, branched_bounded true, branched_tree true, turned, by decide⟩,
    ⟨chainView 4096 small, _, chain_fits small, chain_held small, chain_bounded 16, chain_tree 16,
      chain_refused .debug small (Nat.le_refl _)⟩,
    ⟨timed_fits, timed_held, alone, (nodup_unfold alone).mp (by decide), ?_, by decide⟩⟩
  exact read_of_long .debug timed_fits timed_held (by decide)

end RoundTrip

end ObjectHeader

end Oxcdf
