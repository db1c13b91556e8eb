import Oxcdf.Message.Attribute
import Oxcdf.Message.Link
import Oxcdf.Message.Storage
import Oxcdf.ObjectHeader

/-! The typed messages of an object header. A header says of a message whether its
body is the message or a pointer to one held elsewhere. Only a datatype's pointer
is followed, to the object header of a committed datatype. -/

set_option autoImplicit false

namespace Oxcdf

open Foundation

/-- Where a shared message lives. -/
inductive SharedLocation where
  | unshared
  | messageHeap
  /-- The only message of its type in the object header at this address. -/
  | committed (address : Nat)
  | here
  deriving DecidableEq, Repr

structure SharedMessage where
  version : Nat
  location : SharedLocation
  deriving DecidableEq, Repr

namespace SharedMessage

def readCommitted (sizes : Sizes) : Parse SharedLocation := do
  let address ← Cursor.addressRequired sizes "shared message target"
  pure (.committed address)

/-- Version 1 has no meaningful type code: it only ever pointed at a committed datatype. -/
def readLocation (sizes : Sizes) (version kind : Nat) : Parse SharedLocation :=
  if version = 1 then readCommitted sizes
  else match kind with
    | 0 => pure .unshared
    | 1 => pure .messageHeap
    | 2 => readCommitted sizes
    | 3 => pure .here
    | other => Session.throw (.unsupported s!"shared message type {other}")

def parseAt (sizes : Sizes) : Parse SharedMessage := do
  let version ← Cursor.u8
  let kind ← Cursor.u8
  match version with
  -- Version 1 pads to eight bytes before the address.
  | 1 => Cursor.seek 8
  | 2 | 3 => pure ()
  | other => Session.throw (.unsupported s!"shared message version {other}")
  let location ← readLocation sizes version kind
  pure { version, location }

/-- Parse a shared message body. -/
def parse (sizes : Sizes) (body : Bytes) : Code SharedMessage := (parseAt sizes (Cursor.start body)).1

/-- The object header of a committed message, or an error that names what was found instead. -/
def committedAddress (message : SharedMessage) (what : String) : Code Nat :=
  match message.location with
  | .committed address => .ok address
  | .messageHeap => .error (.unsupported s!"{what} held in the shared message heap")
  | .here => .error (.unsupported s!"{what} shared within its own object header")
  | .unshared => .error (.malformed s!"{what} is flagged shared but points nowhere")

end SharedMessage

/-- Whether the body is a pointer to a message shared with other objects. -/
def HeaderMessage.isShared (message : HeaderMessage) : Bool := message.flags.testBit 1

def HeaderMessage.rejectShared (message : HeaderMessage) (what : String) : Code Unit :=
  if message.isShared then .error (.unsupported s!"shared {what} message") else .ok ()

namespace ObjectHeader

variable (header : ObjectHeader)

def messagesOf (kind : MessageType) : List HeaderMessage := header.messages.filter (·.kind = kind)

def messageOf (kind : MessageType) : Option HeaderMessage := (header.messagesOf kind).head?

/-- A message whose pointers are not followed, when the object has one. -/
def ownMessage {α : Type} (kind : MessageType) (what : String) (parse : Bytes → Code α) : Code (Option α) :=
  match header.messageOf kind with
  | some message => do
    let _ ← message.rejectShared what
    let value ← parse message.data
    .ok (some value)
  | none => .ok none

def dataspace (sizes : Sizes) : Code (Option Dataspace) :=
  header.ownMessage .dataspace "dataspace" (Dataspace.parse sizes)

def layout (sizes : Sizes) : Code (Option Layout) :=
  header.ownMessage .dataLayout "data layout" (Layout.parse sizes)

/-- An object without the message has no filters. -/
def filterPipeline : Code FilterPipeline := do
  let pipeline ← header.ownMessage .filterPipeline "filter pipeline" FilterPipeline.parse
  .ok (pipeline.getD { filters := [] })

/-- What unwritten storage reads as: zeros where no message says otherwise. -/
def fillValue : Code FillValue :=
  match header.messageOf .fillValue, header.messageOf .fillValueOld with
  | some message, _ => FillValue.parse message.data
  | none, some message => FillValue.parseOld message.data
  | none, none => .ok { bytes := none }

def attributeInfo (sizes : Sizes) : Code (Option AttributeInfo) :=
  match header.messageOf .attributeInfo with
  | some message => do
    let info ← AttributeInfo.parse sizes message.data
    .ok (some info)
  | none => .ok none

/-- The attribute of one message. One that is shared or does not parse is skipped. -/
def compactAttribute (sizes : Sizes) (message : HeaderMessage) : Code (Option Attribute) :=
  if message.isShared then .ok none
  else match Attribute.parse sizes message.data with
    | .ok found => .ok (some found)
    | .error _ => .ok none
    | .panic why => .panic why

def compactAttributes (sizes : Sizes) : Code (List Attribute) := do
  let found ← (header.messagesOf .attribute).mapM (compactAttribute sizes)
  .ok found.reduceOption

section Committed

/-- How many committed datatypes one lookup follows. -/
def maxSharedHops : Nat := 8

def chainTooLong : Error := .malformed "committed datatype chain is too long; the file may be cyclic"

/-- The object header that a pointer names. -/
def committedTarget (sizes : Sizes) (pointer : HeaderMessage) : Code Nat := do
  let shared ← SharedMessage.parse sizes pointer.data
  shared.committedAddress "datatype"

/-- The datatype in the object header at an address, or where its pointer leads, with some hops left. -/
def followCommitted (build : Build) (view : View) : Nat → Nat → Code Datatype
  | 0, _ => .error chainTooLong
  | hops + 1, address => do
    let committed ← ObjectHeader.read build view address
    match committed.messageOf .datatype with
    | none => .error (.malformed s!"committed datatype at {address} has no datatype message")
    | some target =>
      if !target.isShared then Datatype.parse target.data
      else do
        let next ← committedTarget view.sizes target
        followCommitted build view hops next

/-- The object's datatype, when it has one. -/
def datatype (build : Build) (view : View) : Code (Option Datatype) :=
  match header.messageOf .datatype with
  | none => .ok none
  | some message =>
    if !message.isShared then do
      let type ← Datatype.parse message.data
      .ok (some type)
    else do
      let address ← committedTarget view.sizes message
      let type ← followCommitted build view maxSharedHops address
      .ok (some type)

end Committed

end ObjectHeader

end Oxcdf
