import Oxcdf.View

/-! Object headers, versions 1 and 2. A header is a list of typed messages in a
first block and in the continuation blocks that some of the messages name. The
messages are only framed here; their bodies stay unparsed. -/

set_option autoImplicit false

namespace Oxcdf

open Foundation Foundation.Buffer

inductive MessageType where
  | nil
  | dataspace
  | linkInfo
  | datatype
  | fillValueOld
  | fillValue
  | link
  | externalDataFiles
  | dataLayout
  | bogus
  | groupInfo
  | filterPipeline
  | attribute
  | objectComment
  | objectModificationTimeOld
  | sharedMessageTable
  | objectHeaderContinuation
  | symbolTable
  | objectModificationTime
  | btreeKValues
  | driverInfo
  | attributeInfo
  | objectReferenceCount
  | unknown (code : Nat)
  deriving DecidableEq, Repr

def MessageType.fromCode (code : Nat) : MessageType :=
  match code with
  | 0x00 => .nil
  | 0x01 => .dataspace
  | 0x02 => .linkInfo
  | 0x03 => .datatype
  | 0x04 => .fillValueOld
  | 0x05 => .fillValue
  | 0x06 => .link
  | 0x07 => .externalDataFiles
  | 0x08 => .dataLayout
  | 0x09 => .bogus
  | 0x0a => .groupInfo
  | 0x0b => .filterPipeline
  | 0x0c => .attribute
  | 0x0d => .objectComment
  | 0x0e => .objectModificationTimeOld
  | 0x0f => .sharedMessageTable
  | 0x10 => .objectHeaderContinuation
  | 0x11 => .symbolTable
  | 0x12 => .objectModificationTime
  | 0x13 => .btreeKValues
  | 0x14 => .driverInfo
  | 0x15 => .attributeInfo
  | 0x16 => .objectReferenceCount
  | other => .unknown other

/-- One framed message, with its body still unparsed. -/
structure HeaderMessage where
  kind : MessageType
  flags : Nat
  creationOrder : Option Nat
  data : Bytes
  deriving DecidableEq, Repr

structure ObjectHeader where
  address : Nat
  version : Nat
  messages : List HeaderMessage
  deriving DecidableEq, Repr

namespace ObjectHeader

def ohdrSignature : Bytes := [0x4f, 0x48, 0x44, 0x52]
def ochkSignature : Bytes := [0x4f, 0x43, 0x48, 0x4b]

def maxContinuationBlocks : Nat := 4096

section Messages

/-- What stands before a message's body. -/
structure MessagePrefix where
  code : Nat
  size : Nat
  flags : Nat
  creationOrder : Option Nat

/-- What one block adds: its messages, and the blocks its continuation messages
name, each by its address and its length. -/
structure Block where
  messages : List HeaderMessage
  named : List (Nat × Nat)
  deriving DecidableEq, Repr

def Block.empty : Block := ⟨[], []⟩

def Block.append (one other : Block) : Block :=
  ⟨one.messages ++ other.messages, one.named ++ other.named⟩

/-- Read the address and length out of a continuation message body. -/
def parseContinuation (sizes : Sizes) : Parse (Nat × Nat) := do
  let address ← Cursor.addressRequired sizes "object header continuation"
  let length ← Cursor.length sizes
  pure (address, length)

def takeMessage (sizes : Sizes) (head : MessagePrefix) (data : Bytes) : Code Block :=
  let kind := MessageType.fromCode head.code
  if kind = .objectHeaderContinuation then do
    let place ← (parseContinuation sizes (Cursor.start data)).1
    .ok ⟨[], [place]⟩
  else if kind ≠ .nil then .ok ⟨[⟨kind, head.flags, head.creationOrder, data⟩], []⟩
  else .ok .empty

/-- The messages up to the end of a block, or to a gap too small for another one.
Every message takes bytes, so the bytes of the block are fuel enough. -/
def parseMessages (parsePrefix : Parse MessagePrefix) (headerLen : Nat) (sizes : Sizes) : Nat → Parse Block
  | 0 => pure .empty
  | fuel + 1 => do
    let remaining ← Cursor.left
    if remaining < headerLen then pure .empty
    else do
      let head ← parsePrefix
      let remaining ← Cursor.left
      if remaining < head.size then pure .empty
      else do
        let data ← Cursor.take head.size
        let one ← Session.lift (takeMessage sizes head data)
        let others ← parseMessages parsePrefix headerLen sizes fuel
        pure (one.append others)

def parseV1Prefix : Parse MessagePrefix := do
  let code ← Cursor.u16
  let size ← Cursor.u16
  let flags ← Cursor.u8
  Cursor.skip 3
  pure ⟨code, size, flags, none⟩

def parseV1Messages (sizes : Sizes) (block : Bytes) : Code Block :=
  (parseMessages parseV1Prefix 8 sizes block.length (Cursor.start block)).1

def parseCreationOrder (tracked : Bool) : Parse (Option Nat) :=
  if tracked then do
    let order ← Cursor.u16
    pure (some order)
  else pure none

def parseV2Prefix (tracksCreationOrder : Bool) : Parse MessagePrefix := do
  let code ← Cursor.u8
  let size ← Cursor.u16
  let flags ← Cursor.u8
  let creationOrder ← parseCreationOrder tracksCreationOrder
  pure ⟨code, size, flags, creationOrder⟩

def parseV2Messages (sizes : Sizes) (tracksCreationOrder : Bool) (body : Bytes) : Code Block :=
  (parseMessages (parseV2Prefix tracksCreationOrder) (if tracksCreationOrder then 6 else 4) sizes
    body.length (Cursor.start body)).1

end Messages

section Blocks

def tooManyBlocks : Error :=
  .malformed "object header has too many continuation blocks; the file may be cyclic"

/-- Read the blocks named, the last one first, and those they name; `budget`
counts down from the bound on blocks. -/
def follow (readBlock : Nat → Nat → Code Block) :
    Nat → List (Nat × Nat) → List Nat → List HeaderMessage → Code (List HeaderMessage)
  | _, [], _, messages => .ok messages
  | 0, _ :: _, _, _ => .error tooManyBlocks
  | budget + 1, (address, len) :: queue, visited, messages =>
    if address ∈ visited then
      .error (.malformed s!"object header continuation cycle at address {address}")
    else do
      let block ← readBlock address len
      follow readBlock budget (block.named.reverse ++ queue) (address :: visited)
        (messages ++ block.messages)

def readV1Block (view : View) (address len : Nat) : Code Block := do
  let block ← view.read address len
  parseV1Messages view.sizes block

/-- Check the four-byte checksum that follows `len` bytes of a block. -/
def verifyBlock (build : Build) (block : Bytes) (len : Nat) (what : String) : Code Unit := do
  let needed ← build.add len 4
  if block.length < needed then .error (.malformed s!"{what} is truncated before its checksum")
  else verifyChecksum block len what

def readV2Block (build : Build) (view : View) (tracksCreationOrder : Bool) (address len : Nat) : Code Block :=
  if len < 8 then
    .error (.malformed "OCHK continuation block is too short to hold a signature and checksum")
  else do
    let block ← view.read address len
    let signature ← range block 0 4
    if signature ≠ ochkSignature then
      .error (.malformed "object header continuation block is missing its OCHK signature")
    else do
      let _ ← verifyBlock build block (len - 4) "object header continuation"
      let body ← range block 4 (len - 4)
      parseV2Messages view.sizes tracksCreationOrder body

end Blocks

section Headers

/-- The length of the first block. -/
def parseV1Start (address : Nat) : Parse Nat := do
  let version ← Cursor.u8
  if version ≠ 1 then
    Session.throw (.unsupported s!"object header version {version} at address {address}")
  else do
    Cursor.skip 1
    let _totalMessages ← Cursor.u16
    let _referenceCount ← Cursor.u32
    Cursor.u32

def readV1 (build : Build) (view : View) (address : Nat) : Code ObjectHeader := do
  let start ← view.read address 16
  let firstBlockLen ← (parseV1Start address (Cursor.start start)).1
  let first ← build.add address 16
  let messages ← follow (readV1Block view) maxContinuationBlocks [(first, firstBlockLen)] [] []
  .ok { address, version := 1, messages }

/-- The fields of a version 2 header that say how to go on. -/
structure V2Start where
  flags : Nat
  chunk0Len : Nat
  len : Nat
  deriving DecidableEq, Repr

def V2Start.tracksCreationOrder (start : V2Start) : Bool := start.flags &&& 0x04 ≠ 0

/-- The flags and the length of the first block's messages. -/
def parseV2Fields : Parse (Nat × Nat) := do
  let signature ← Cursor.take 4
  if signature ≠ ohdrSignature then
    Session.throw (.malformed "object header is missing its OHDR signature")
  else do
    let version ← Cursor.u8
    if version ≠ 2 then Session.throw (.unsupported s!"OHDR object header version {version}")
    else do
      let flags ← Cursor.u8
      -- Four times, then the phase-change pair of the attributes.
      Cursor.skipIf (flags &&& 0x20 ≠ 0) 16
      Cursor.skipIf (flags &&& 0x10 ≠ 0) 4
      let chunk0Len ← Cursor.uint (2 ^ (flags &&& 0x03))
      pure (flags, chunk0Len)

def parseV2Start : Parse V2Start := do
  let (flags, chunk0Len) ← parseV2Fields
  let len ← Cursor.position
  pure ⟨flags, chunk0Len, len⟩

/-- The window that the fields before the first block are looked for in. -/
def startWindow : Nat := 32

def readV2 (build : Build) (view : View) (address : Nat) : Code ObjectHeader := do
  let window ← view.readUpto address startWindow
  let start ← (parseV2Start (Cursor.start window)).1
  let bodyEnd ← build.add start.len start.chunk0Len
  let blockLen ← build.add bodyEnd 4
  let firstBlock ← view.read address blockLen
  let _ ← verifyBlock build firstBlock bodyEnd "object header"
  let body ← range firstBlock start.len bodyEnd
  let first ← parseV2Messages view.sizes start.tracksCreationOrder body
  let messages ← follow (readV2Block build view start.tracksCreationOrder) maxContinuationBlocks
    first.named.reverse [address] first.messages
  .ok { address, version := 2, messages }

/-- Read and parse the object header at an address. -/
def read (build : Build) (view : View) (address : Nat) : Code ObjectHeader := do
  let probe ← view.readUpto address 4
  if probe = ohdrSignature then readV2 build view address else readV1 build view address

end Headers

end ObjectHeader

end Oxcdf
