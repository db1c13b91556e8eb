import Mathlib.Algebra.BigOperators.Group.List.Basic
import Oxcdf.Foundation.Unfolding
import Oxcdf.ObjectHeader

/-! Stored object headers, and what the blocks of one hold.

A header is a graph of blocks: each holds messages, and some of them name other
blocks. Both versions frame a message alike, with fields of other widths.
-/

set_option autoImplicit false

namespace Oxcdf

open Foundation Foundation.Buffer Foundation.Format Foundation.Unfolding

namespace ObjectHeader

section Forms

/-- How a header frames its messages. -/
inductive Form where
  | one
  | two (tracksCreationOrder : Bool)
  deriving DecidableEq, Repr

namespace Form

def headerLen : Form → Nat
  | one => 8
  | two tracks => if tracks then 6 else 4

def codeWidth : Form → Nat
  | one => 2
  | two _ => 1

/-- The creation order that a framing keeps. -/
def order : Form → Nat → Option Nat
  | two true, creationOrder => some creationOrder
  | _, _ => none

def parsePrefix : Form → Parse MessagePrefix
  | one => parseV1Prefix
  | two tracks => parseV2Prefix tracks

/-- Reserved bytes in version 1; in version 2 the creation order, if it is tracked. -/
def encodeTail : Form → Nat → Bytes
  | one, _ => List.replicate 3 0
  | two true, creationOrder => littleEndian 2 creationOrder
  | two false, _ => []

def encodePrefix (form : Form) (code size flags creationOrder : Nat) : Bytes :=
  littleEndian form.codeWidth code ++ (littleEndian 2 size ++
    (littleEndian 1 flags ++ form.encodeTail creationOrder))

variable {form : Form}

theorem encodePrefix_length (code size flags creationOrder : Nat) :
    (form.encodePrefix code size flags creationOrder).length = form.headerLen := by
  simp only [encodePrefix, List.length_append, littleEndian_length]
  cases form with
  | one => rfl
  | two tracks =>
    cases tracks with
    | true =>
      rw [encodeTail, littleEndian_length]
      rfl
    | false => rfl

theorem headerLen_pos : 0 < form.headerLen := by
  cases form with
  | one => decide
  | two tracks => cases tracks <;> decide

theorem reads_prefix {code size flags creationOrder : Nat} (codeFits : code < 256 ^ form.codeWidth)
    (sizeFits : size < 256 ^ 2) (flagsFit : flags < 256 ^ 1) (orderFits : creationOrder < 256 ^ 2) :
    Reads form.parsePrefix (form.encodePrefix code size flags creationOrder)
      ⟨code, size, flags, form.order creationOrder⟩ := by
  cases form with
  | one =>
    apply (Cursor.reads_u16 codeFits).bind
    apply (Cursor.reads_u16 sizeFits).bind
    apply (Cursor.reads_u8 flagsFit).bind
    exact (Cursor.reads_skip (List.replicate 3 0)).bind_pure _
  | two tracks =>
    apply (Cursor.reads_u8 codeFits).bind
    apply (Cursor.reads_u16 sizeFits).bind
    apply (Cursor.reads_u8 flagsFit).bind
    cases tracks with
    | true => exact ((Cursor.reads_u16 orderFits).bind_pure some).bind_pure _
    | false => exact (Reads.pure none).bind_pure _

end Form

end Forms

section Entries

/-- A message as a block stores it. The body of a continuation message is the
address and the length of the block it names, and perhaps padding. -/
inductive Entry where
  | message (code flags creationOrder : Nat) (body : Bytes)
  | continuation (flags creationOrder address : Nat) (padding : Bytes)
  deriving DecidableEq, Repr

structure StoredBlock where
  entries : List Entry
  /-- Room at the end that is too small for another message. -/
  gap : Bytes
  deriving DecidableEq, Repr

variable (form : Form) (sizes : Sizes) (len : Nat → Nat)

namespace Entry

def code : Entry → Nat
  | message code .. => code
  | continuation .. => 0x10

def flags : Entry → Nat
  | message _ flags .. => flags
  | continuation flags .. => flags

def creationOrder : Entry → Nat
  | message _ _ creationOrder _ => creationOrder
  | continuation _ creationOrder .. => creationOrder

/-- The body, where the blocks named have these lengths. -/
def encodeBody : Entry → Bytes
  | message _ _ _ body => body
  | continuation _ _ address padding =>
    encodeAddress sizes (some address) ++ (littleEndian sizes.length (len address) ++ padding)

def bodyLen : Entry → Nat
  | message _ _ _ body => body.length
  | continuation _ _ _ padding => sizes.offset + (sizes.length + padding.length)

def encode (entry : Entry) : Bytes :=
  form.encodePrefix entry.code (entry.bodyLen sizes) entry.flags entry.creationOrder ++
    entry.encodeBody sizes len

def named : Entry → Option Nat
  | message .. => none
  | continuation _ _ address _ => some address

/-- The message that an entry is to a reader: none for padding, and none for a
message that only names a block. -/
def meant : Entry → Option HeaderMessage
  | message code flags creationOrder body =>
    if MessageType.fromCode code = .nil then none
    else some ⟨MessageType.fromCode code, flags, form.order creationOrder, body⟩
  | continuation .. => none

/-- The fields hold what is to be stored in them. -/
structure Fits (entry : Entry) : Prop where
  code : entry.code < 256 ^ form.codeWidth
  size : entry.bodyLen sizes < 256 ^ 2
  flags : entry.flags < 256 ^ 1
  creationOrder : entry.creationOrder < 256 ^ 2
  /-- Only a message that names a block has the code of one. -/
  plain : entry.named = none → MessageType.fromCode entry.code ≠ .objectHeaderContinuation
  place : ∀ address, entry.named = some address →
    address < undefinedForWidth sizes.offset ∧ len address < 256 ^ sizes.length

def adds (entry : Entry) : Block :=
  ⟨(entry.meant form).toList, entry.named.toList.map fun address => (address, len address)⟩

variable {form sizes len} {entry : Entry}

theorem message_fits {code flags creationOrder : Nat} {body : Bytes} (codeFits : code < 256 ^ form.codeWidth)
    (size : body.length < 256 ^ 2) (flagsFit : flags < 256 ^ 1) (orderFits : creationOrder < 256 ^ 2)
    (plain : MessageType.fromCode code ≠ .objectHeaderContinuation) :
    (message code flags creationOrder body).Fits form sizes len :=
  ⟨codeFits, size, flagsFit, orderFits, fun _ => plain, nofun⟩

theorem continuation_fits {flags creationOrder address : Nat} {padding : Bytes}
    (size : sizes.offset + (sizes.length + padding.length) < 256 ^ 2) (flagsFit : flags < 256 ^ 1)
    (orderFits : creationOrder < 256 ^ 2) (addressFits : address < undefinedForWidth sizes.offset)
    (lenFits : len address < 256 ^ sizes.length) :
    (continuation flags creationOrder address padding).Fits form sizes len := by
  have code : 0x10 < 256 ^ form.codeWidth := by cases form <;> simp [Form.codeWidth]
  refine ⟨code, size, flagsFit, orderFits, nofun, fun named same => ?_⟩
  obtain rfl : address = named := Option.some.inj same
  exact ⟨addressFits, lenFits⟩

theorem encodeBody_length (entry : Entry) : (entry.encodeBody sizes len).length = entry.bodyLen sizes := by
  cases entry with
  | message => rfl
  | continuation flags creationOrder address padding =>
    simp only [encodeBody, bodyLen, encodeAddress, List.length_append, littleEndian_length]

theorem encode_length (entry : Entry) :
    (entry.encode form sizes len).length = form.headerLen + entry.bodyLen sizes := by
  rw [encode, List.length_append, Form.encodePrefix_length, encodeBody_length]

theorem reads_continuation (widths : sizes.Valid) {address length : Nat}
    (addressFits : address < undefinedForWidth sizes.offset) (lengthFits : length < 256 ^ sizes.length) :
    Reads (parseContinuation sizes) (encodeAddress sizes (some address) ++ littleEndian sizes.length length)
      (address, length) := by
  apply (reads_addressRequired widths.offset_le addressFits _).bind
  exact (Cursor.reads_uint widths.length_le lengthFits).bind_pure _

theorem takeMessage_eq (widths : sizes.Valid) (fits : entry.Fits form sizes len) :
    takeMessage sizes ⟨entry.code, entry.bodyLen sizes, entry.flags, form.order entry.creationOrder⟩
      (entry.encodeBody sizes len) = .ok (entry.adds form len) := by
  unfold takeMessage
  cases entry with
  | message code flags creationOrder body =>
    have plain : MessageType.fromCode code ≠ .objectHeaderContinuation := fits.plain rfl
    dsimp only [Entry.code]
    rw [if_neg plain]
    by_cases padding : MessageType.fromCode code = .nil
    · rw [if_neg (not_not_intro padding)]
      simp only [adds, meant, if_pos padding]
      rfl
    · rw [if_pos padding]
      simp only [adds, meant, if_neg padding]
      rfl
  | continuation flags creationOrder address padding =>
    have place := fits.place address rfl
    have parsed := reads_continuation widths place.1 place.2 [] padding
    rw [List.nil_append, List.append_assoc] at parsed
    have found : (parseContinuation sizes (Cursor.start
        (encodeAddress sizes (some address) ++ (littleEndian sizes.length (len address) ++ padding)))).1 =
          .ok (address, len address) := congrArg Prod.fst parsed
    dsimp only [Entry.code, encodeBody]
    have names : MessageType.fromCode 0x10 = .objectHeaderContinuation := rfl
    rw [if_pos names, found]
    rfl

end Entry

namespace StoredBlock

variable (block : StoredBlock)

def named : List Nat := block.entries.filterMap Entry.named

def messages : List HeaderMessage := block.entries.filterMap (Entry.meant form)

/-- The messages and the gap after them. -/
def encodeBody : Bytes := block.entries.flatMap (Entry.encode form sizes len) ++ block.gap

def bodyLen : Nat :=
  (block.entries.map fun entry => form.headerLen + entry.bodyLen sizes).sum + block.gap.length

structure Fits : Prop where
  entries : ∀ entry ∈ block.entries, entry.Fits form sizes len
  gap : block.gap.length < form.headerLen

/-- What a block is to a reader. -/
def adds : Block := ⟨block.messages form, block.named.map fun address => (address, len address)⟩

variable {form sizes len} {block}

theorem encodeBody_length : (block.encodeBody form sizes len).length = block.bodyLen form sizes := by
  rw [encodeBody, bodyLen, List.length_append, List.length_flatMap,
    List.map_congr_left fun entry _ => Entry.encode_length entry]

theorem entries_length_le : block.entries.length ≤ (block.encodeBody form sizes len).length := by
  have each : ∀ n ∈ block.entries.map fun entry => form.headerLen + entry.bodyLen sizes, 1 ≤ n := by
    intro n member
    obtain ⟨entry, -, rfl⟩ := List.mem_map.mp member
    exact Nat.le_add_right_of_le form.headerLen_pos
  have total := List.length_le_sum_of_one_le _ each
  rw [encodeBody_length, bodyLen]
  rw [List.length_map] at total
  exact Nat.le_add_right_of_le total

theorem adds_cons (entry : Entry) (entries : List Entry) (gap : Bytes) :
    (entry.adds form len).append (adds form len ⟨entries, gap⟩) = adds form len ⟨entry :: entries, gap⟩ := by
  unfold adds messages named Entry.adds Block.append
  dsimp only
  rw [List.filterMap_cons, List.filterMap_cons]
  cases entry.meant form <;> cases entry.named <;> rfl

/-- The loop over a block's messages: each turn takes one entry. -/
theorem parseMessages_eq (widths : sizes.Valid) {entries : List Entry} {gap : Bytes}
    (fits : Fits form sizes len ⟨entries, gap⟩) {fuel : Nat} (enough : entries.length ≤ fuel) (before : Bytes) :
    (parseMessages form.parsePrefix form.headerLen sizes fuel
      ⟨before ++ encodeBody form sizes len ⟨entries, gap⟩, before.length⟩).1 =
        .ok (adds form len ⟨entries, gap⟩) := by
  induction entries generalizing fuel before with
  | nil =>
    cases fuel with
    | zero => rfl
    | succ fuel =>
      -- The gap is too short for the prefix of a message.
      have small : Cursor.remaining ⟨before ++ encodeBody form sizes len ⟨[], gap⟩, before.length⟩ <
          form.headerLen := by
        unfold Cursor.remaining encodeBody
        simpa using fits.gap
      rw [parseMessages, Session.bind_ok (rfl : Cursor.left _ = _), if_pos small]
      rfl
  | cons entry entries ih =>
    obtain ⟨fuel, rfl⟩ : ∃ less, fuel = less + 1 := Nat.exists_eq_succ_of_ne_zero (Nat.ne_of_gt
      (Nat.lt_of_lt_of_le (Nat.succ_pos _) enough))
    have here := fits.entries entry (List.mem_cons_self ..)
    have others : Fits form sizes len ⟨entries, gap⟩ :=
      ⟨fun later member => fits.entries later (List.mem_cons_of_mem _ member), fits.gap⟩
    have tail : encodeBody form sizes len ⟨entry :: entries, gap⟩ =
        form.encodePrefix entry.code (entry.bodyLen sizes) entry.flags entry.creationOrder ++
          (entry.encodeBody sizes len ++ encodeBody form sizes len ⟨entries, gap⟩) := by
      rw [encodeBody, List.flatMap_cons, Entry.encode, List.append_assoc, List.append_assoc]
      rfl
    rw [tail]
    have room : ¬ Cursor.remaining ⟨before ++ (form.encodePrefix entry.code (entry.bodyLen sizes) entry.flags
        entry.creationOrder ++ (entry.encodeBody sizes len ++ encodeBody form sizes len ⟨entries, gap⟩)),
          before.length⟩ < form.headerLen := by
      unfold Cursor.remaining
      simp only [List.length_append, Form.encodePrefix_length]
      omega
    have head := Form.reads_prefix here.code here.size here.flags here.creationOrder
    have taken := Cursor.reads_take (entry.encodeBody sizes len)
    rw [Entry.encodeBody_length] at taken
    rw [parseMessages, Session.bind_ok (rfl : Cursor.left _ = _), if_neg room, head.step]
    have whole : ∀ front : Bytes, ¬ Cursor.remaining ⟨front ++ (entry.encodeBody sizes len ++
        encodeBody form sizes len ⟨entries, gap⟩), front.length⟩ < entry.bodyLen sizes := by
      intro front
      unfold Cursor.remaining
      simp only [List.length_append, Entry.encodeBody_length]
      omega
    rw [Session.bind_ok (rfl : Cursor.left _ = _), if_neg (whole _), taken.step,
      Entry.takeMessage_eq widths here, Session.bind_lift_ok]
    have rest := ih others (Nat.le_of_succ_le_succ enough)
      (before ++ form.encodePrefix entry.code (entry.bodyLen sizes) entry.flags entry.creationOrder ++
        entry.encodeBody sizes len)
    rw [Session.bind_of_fst rest, adds_cons]
    rfl

/-- A block's messages are read back, with any fuel there is bytes for. -/
theorem parseMessages_whole (widths : sizes.Valid) (fits : block.Fits form sizes len) :
    (parseMessages form.parsePrefix form.headerLen sizes (block.encodeBody form sizes len).length
      (Cursor.start (block.encodeBody form sizes len))).1 = .ok (block.adds form len) :=
  parseMessages_eq widths fits entries_length_le []

theorem parseV1Messages_eq (widths : sizes.Valid) (fits : block.Fits .one sizes len) :
    parseV1Messages sizes (block.encodeBody .one sizes len) = .ok (block.adds .one len) :=
  parseMessages_whole widths fits

theorem parseV2Messages_eq {tracks : Bool} (widths : sizes.Valid) (fits : block.Fits (.two tracks) sizes len) :
    parseV2Messages sizes tracks (block.encodeBody (.two tracks) sizes len) =
      .ok (block.adds (.two tracks) len) := parseMessages_whole widths fits

end StoredBlock

end Entries

end ObjectHeader

end Oxcdf
