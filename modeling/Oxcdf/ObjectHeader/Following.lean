import Oxcdf.Foundation.Worklist
import Oxcdf.ObjectHeader.Stored

/-! Following the blocks of a stored object header. Where none is named twice the
loop comes to every block of the tree, the one named last first, unless there are
more than its bound. -/

set_option autoImplicit false

namespace Oxcdf

open Foundation Foundation.Buffer Foundation.Format Foundation.Unfolding Foundation.Worklist

namespace ObjectHeader

section Following

variable {readBlock : Nat → Nat → Code Block} {links : Nat → List Nat} {len : Nat → Nat}
  {messagesOf : Nat → List HeaderMessage} {levels : Nat}

/-- What the reader finds in the blocks it comes to. -/
def Finds (readBlock : Nat → Nat → Code Block) (links : Nat → List Nat) (len : Nat → Nat)
    (messagesOf : Nat → List HeaderMessage) (address : Nat) : Prop :=
  readBlock address (len address) = .ok ⟨messagesOf address, (links address).map fun b => (b, len b)⟩

theorem lastNamedFirst_eq_cons {a : Nat} (bounded : Bounded links levels a) :
    lastNamedFirst links levels a = a :: (turned links a).flatMap (lastNamedFirst links levels) :=
  unfold_eq (bounded_turned.mpr bounded)

theorem follow_nil (budget : Nat) (visited : List Nat) (messages : List HeaderMessage) :
    follow readBlock budget [] visited messages = .ok messages := by
  cases budget <;> rfl

/-- Following the blocks that are named and those below them, where none comes
twice: their messages, unless there are more blocks than the budget allows. The
budget bounds the loop, so the induction is on it. -/
theorem follow_eq (budget : Nat) {queue visited : List Nat} (messages : List HeaderMessage)
    (bounded : ∀ a ∈ queue, Bounded links levels a)
    (finds : ∀ a ∈ queue.flatMap (lastNamedFirst links levels), Finds readBlock links len messagesOf a)
    (distinct : (queue.flatMap (lastNamedFirst links levels)).Nodup)
    (fresh : ∀ a ∈ queue.flatMap (lastNamedFirst links levels), a ∉ visited) :
    follow readBlock budget (queue.map fun a => (a, len a)) visited messages =
      if (queue.flatMap (lastNamedFirst links levels)).length ≤ budget then
        .ok (messages ++ (queue.flatMap (lastNamedFirst links levels)).flatMap messagesOf)
      else .error tooManyBlocks := by
  induction budget generalizing queue visited messages with
  | zero =>
    cases queue with
    | nil => simp [follow_nil]
    | cons a queue =>
      have first := lastNamedFirst_eq_cons (bounded a (List.mem_cons_self ..))
      rw [List.flatMap_cons, first, if_neg (by simp), List.map_cons, follow]
  | succ budget ih =>
    cases queue with
    | nil => simp [follow_nil]
    | cons a queue =>
      have here := bounded a (List.mem_cons_self ..)
      -- What a block names goes before what waits, the last named first.
      have order : (a :: queue).flatMap (lastNamedFirst links levels) =
          a :: (turned links a ++ queue).flatMap (lastNamedFirst links levels) := by
        rw [List.flatMap_cons, lastNamedFirst_eq_cons here, List.cons_append, List.flatMap_append]
      rw [order] at finds distinct fresh ⊢
      have block : readBlock a (len a) = _ := finds a (List.mem_cons_self ..)
      have next : ((links a).map fun b => (b, len b)).reverse ++ queue.map (fun b => (b, len b)) =
          (turned links a ++ queue).map fun b => (b, len b) := by
        rw [← List.map_reverse, List.map_append]
        rfl
      rw [List.map_cons, follow, if_neg (fresh a (List.mem_cons_self ..)), block, Outcome.ok_bind]
      dsimp only
      rw [next, ih]
      · rw [List.length_cons, List.flatMap_cons, List.append_assoc]
        exact if_congr Nat.succ_le_succ_iff.symm rfl rfl
      · intro b member
        rcases List.mem_append.mp member with named | waiting
        · exact here.link (List.mem_reverse.mp named)
        · exact bounded b (List.mem_cons_of_mem _ waiting)
      · exact fun b inside => finds b (List.mem_cons_of_mem _ inside)
      · exact (List.nodup_cons.mp distinct).2
      · intro b inside seen
        rcases List.mem_cons.mp seen with rfl | seen
        · exact (List.nodup_cons.mp distinct).1 inside
        · exact fresh b (List.mem_cons_of_mem _ inside) seen

end Following

section Stored

/-- What stands before the first block. -/
inductive Start where
  | one (totalMessages referenceCount : Nat)
  | two (flags : Nat) (times phaseChange : Bytes)

namespace Start

def version : Start → Nat
  | one .. => 1
  | two .. => 2

def form : Start → Form
  | one .. => .one
  | two flags _ _ => .two (flags &&& 0x04 ≠ 0)

/-- Blocks that one header may have: version 1 counts the first as well. -/
def mostBlocks : Start → Nat
  | one .. => maxContinuationBlocks
  | two .. => maxContinuationBlocks + 1

/-- The fields before the first block, which say how long it is. -/
def encode (firstLen : Nat) : Start → Bytes
  | one totalMessages referenceCount =>
    littleEndian 1 1 ++ (List.replicate 1 0 ++ (littleEndian 2 totalMessages ++
      (littleEndian 4 referenceCount ++ (littleEndian 4 firstLen ++ List.replicate 4 0))))
  | two flags times phaseChange =>
    ohdrSignature ++ (littleEndian 1 2 ++ (littleEndian 1 flags ++ (times ++ (phaseChange ++
      littleEndian (2 ^ (flags &&& 0x03)) firstLen))))

/-- The fields hold what is stored in them. -/
def Fits (firstLen : Nat) : Start → Prop
  | one totalMessages referenceCount =>
    totalMessages < 256 ^ 2 ∧ referenceCount < 256 ^ 4 ∧ firstLen < 256 ^ 4
  | two flags times phaseChange =>
    flags < 256 ^ 1 ∧ firstLen < 256 ^ 2 ^ (flags &&& 0x03) ∧
      times.length = (if flags &&& 0x20 ≠ 0 then 16 else 0) ∧
        phaseChange.length = if flags &&& 0x10 ≠ 0 then 4 else 0

end Start

/-- A stored header: the blocks stand at the addresses they are named by. -/
structure StoredHeader where
  address : Nat
  start : Start
  blocks : Nat → StoredBlock

namespace StoredHeader

variable (header : StoredHeader) (sizes : Sizes)

/-- The first block: in version 2 it has no address of its own. -/
def root : Nat :=
  match header.start with
  | .one .. => header.address + 16
  | .two .. => header.address

def links (address : Nat) : List Nat := (header.blocks address).named

def messages (address : Nat) : List HeaderMessage := (header.blocks address).messages header.start.form

def bodyLen (address : Nat) : Nat := (header.blocks address).bodyLen header.start.form sizes

/-- The length of a block that is named: version 2 adds a signature and a checksum. -/
def len (address : Nat) : Nat :=
  match header.start with
  | .one .. => header.bodyLen sizes address
  | .two .. => 4 + header.bodyLen sizes address + 4

/-- The messages of all blocks, in the order in which the blocks are named. -/
def inOrder (levels : Nat) : List HeaderMessage :=
  (firstNamedFirst header.links levels [header.root]).flatMap header.messages

/-- Where two continuation messages of one block both lead to blocks with messages, those behind the later one
are nearer. -/
def InTurn : Prop := Worklist.InTurn header.links (fun a => header.messages a ≠ []) header.root

/-- The length of the fields before the first block. -/
def startLen : Nat := (header.start.encode (header.bodyLen sizes header.root)).length

def encodeBody (address : Nat) : Bytes :=
  (header.blocks address).encodeBody header.start.form sizes (header.len sizes)

def encodeBlock (address : Nat) : Bytes :=
  match header.start with
  | .one .. => header.encodeBody sizes address
  | .two .. => withChecksum (ochkSignature ++ header.encodeBody sizes address)

/-- What stands at the header's own address; in version 2 that is the first block. -/
def encodeStart : Bytes :=
  match header.start with
  | .one .. => header.start.encode (header.bodyLen sizes header.root)
  | .two .. => withChecksum (header.start.encode (header.bodyLen sizes header.root) ++
      header.encodeBody sizes header.root)

def Reached (address : Nat) : Prop := ∃ turns, Path header.links header.root turns address

structure Fits : Prop where
  widths : sizes.Valid
  root : header.root < wordSize
  start : header.start.Fits (header.bodyLen sizes header.root)
  blocks : ∀ a, header.Reached a →
    (header.blocks a).Fits header.start.form sizes (header.len sizes)

/-- The file holds the header: its start, and the blocks it names. -/
structure Held (view : View) : Prop where
  start : view.Holds header.address (header.encodeStart view.sizes)
  first : header.start.form = .one → view.Holds header.root (header.encodeBlock view.sizes header.root)
  named : ∀ a, header.Reached a → ∀ b ∈ header.links a, view.Holds b (header.encodeBlock view.sizes b)

variable {header} {sizes} {view : View}

theorem encodeBlock_length (a : Nat) : (header.encodeBlock sizes a).length = header.len sizes a := by
  obtain ⟨address, start, blocks⟩ := header
  cases start with
  | one => exact StoredBlock.encodeBody_length
  | two flags times phaseChange =>
    change (withChecksum (ochkSignature ++ _)).length = _
    rw [withChecksum_length, List.length_append]
    exact congrArg (4 + · + 4) StoredBlock.encodeBody_length

def readBlock (header : StoredHeader) (build : Build) (view : View) : Nat → Nat → Code Block :=
  match header.start with
  | .one .. => readV1Block view
  | .two flags _ _ => readV2Block build view (flags &&& 0x04 ≠ 0)

theorem readV1Block_eq {a : Nat} {block : StoredBlock} {len : Nat → Nat}
    (widths : view.sizes.Valid) (fits : block.Fits .one view.sizes len)
    (held : view.Holds a (block.encodeBody .one view.sizes len)) :
    readV1Block view a (block.bodyLen .one view.sizes) = .ok (block.adds .one len) := by
  have read := held.read
  rw [StoredBlock.encodeBody_length] at read
  rw [readV1Block, read, Outcome.ok_bind, StoredBlock.parseV1Messages_eq widths fits]

/-- Between a first part and the checksum stand the messages. -/
theorem verifyBlock_withChecksum (build : Build) {body : Bytes} (small : (withChecksum body).length ≤ isizeMax)
    (what : String) : verifyBlock build (withChecksum body) body.length what = .ok () := by
  have bounded := isizeMax_lt_wordSize
  rw [withChecksum_length] at small
  have needed : (build.add body.length 4 : Code Nat) = .ok (body.length + 4) := Build.word_of_lt build (by omega)
  have room : ¬ (withChecksum body).length < body.length + 4 := by rw [withChecksum_length]; omega
  rw [verifyBlock, needed, Outcome.ok_bind, if_neg room, verifyChecksum_withChecksum]

theorem range_withChecksum (front body : Bytes) :
    (range (withChecksum (front ++ body)) front.length (front.length + body.length) : Code Bytes) =
      .ok body := by
  have room : front.length + body.length ≤ (withChecksum (front ++ body)).length := by
    rw [withChecksum_length, List.length_append]
    omega
  rw [range_of_le _ room, slice, withChecksum, List.append_assoc, List.drop_left, List.take_left]

theorem readV2Block_eq (build : Build) {tracks : Bool} {a : Nat} {block : StoredBlock} {len : Nat → Nat}
    (widths : view.sizes.Valid) (fits : block.Fits (.two tracks) view.sizes len)
    (held : view.Holds a (withChecksum (ochkSignature ++ block.encodeBody (.two tracks) view.sizes len))) :
    readV2Block build view tracks a (4 + block.bodyLen (.two tracks) view.sizes + 4) =
      .ok (block.adds (.two tracks) len) := by
  have parsed := StoredBlock.parseV2Messages_eq widths fits
  have total : 4 + block.bodyLen (.two tracks) view.sizes =
      (ochkSignature ++ block.encodeBody (.two tracks) view.sizes len).length := by
    rw [List.length_append, StoredBlock.encodeBody_length]
    rfl
  rw [total]
  revert held parsed
  generalize block.encodeBody (.two tracks) view.sizes len = body
  intro held parsed
  have read := held.read
  have checked := verifyBlock_withChecksum build held.inside.le_isizeMax "object header continuation"
  have inner : (range (withChecksum (ochkSignature ++ body)) 4 (ochkSignature ++ body).length : Code Bytes) =
      .ok body := by
    have between := range_withChecksum ochkSignature body
    rwa [← List.length_append] at between
  have signature : (range (withChecksum (ochkSignature ++ body)) 0 4 : Code Bytes) = .ok ochkSignature := by
    have front := @range_of_le UInt8 Error (withChecksum (ochkSignature ++ body)) 0 4
      (by rw [withChecksum_length]; omega)
    rw [Nat.zero_add] at front
    rw [front, slice, withChecksum, List.append_assoc]
    rfl
  have long : ¬ (ochkSignature ++ body).length + 4 < 8 := by
    rw [List.length_append]
    change ¬ 4 + body.length + 4 < 8
    omega
  rw [withChecksum_length] at read
  rw [readV2Block, if_neg long, read, Outcome.ok_bind, signature, Outcome.ok_bind, if_neg (not_not_intro rfl),
    Nat.add_sub_cancel, checked, Outcome.ok_bind, inner, Outcome.ok_bind, parsed]

/-- A block that the file holds is found as the header has it. -/
theorem finds (build : Build) {a : Nat} (widths : view.sizes.Valid)
    (fits : (header.blocks a).Fits header.start.form view.sizes (header.len view.sizes))
    (held : view.Holds a (header.encodeBlock view.sizes a)) :
    Finds (header.readBlock build view) header.links (header.len view.sizes) header.messages a := by
  obtain ⟨address, start, blocks⟩ := header
  cases start with
  | one => exact readV1Block_eq widths fits held
  | two flags times phaseChange => exact readV2Block_eq build widths fits held

theorem held_of_reached {a : Nat} (held : header.Held view) (reached : header.Reached a)
    (inner : header.start.form = .one ∨ a ≠ header.root) :
    view.Holds a (header.encodeBlock view.sizes a) := by
  obtain ⟨turns, path⟩ := reached
  rcases path.last with rfl | ⟨front, b, before, member⟩
  · exact held.first (inner.resolve_right (not_not_intro rfl))
  · exact held.named b ⟨front, before⟩ a member

end StoredHeader

end Stored

end ObjectHeader

end Oxcdf
