import Oxcdf.Btree2
import Oxcdf.Message.Attribute
import Oxcdf.Message.Link

/-! Dense link and attribute storage.

A group with more than a handful of children keeps their links in a fractal heap, and an object
with many attributes keeps these in one. A version 2 B-tree lists the records by name. The reader
walks the heap from record to record and turns to the index only where it did not find as many as
the heap says it has.
-/

set_option autoImplicit false

namespace Oxcdf

open Foundation Foundation.Buffer

namespace FractalHeap

variable {α : Type}

def walkIndexed (build : Build) (heap : FractalHeap) (btree : BtreeV2) (heapIdOf : Bytes → Code Bytes)
    (parse : Parse α) : Code (List α) :=
  btree.records.mapM fun record => do
    let heapId ← heapIdOf record
    let bytes ← heap.get build heapId
    (parse (Cursor.start bytes)).1

section Walking

variable (what : String) (parse : Parse α)

def failedRecord (number before : Nat) (e : Error) : Error :=
  let reason := e.display
  .malformed s!"failed to parse {what} record {number} at heap offset {before}: {reason}"

/-- Walk the rest of a block, until so many more records are found. Unused space is zeroed, and
every record starts with a version that is not zero. -/
def walkBlock : Nat → List α → Cursor → Code (List α)
  | 0, out, _ => .ok out
  | wanted + 1, out, cursor =>
    if cursor.remaining = 0 then .ok out
    else do
      let first ← (Cursor.peek 1 cursor).1
      if first.headD 0 = 0 then .ok out
      else
        match parse cursor with
        | (.ok value, next) =>
          if next.pos = cursor.pos then
            .error (.malformed s!"{what} record parser consumed no bytes; refusing to loop")
          else walkBlock wanted (out ++ [value]) next
        | (.error e, _) => .error (failedRecord what (out.length + 1) cursor.pos e)
        | (.panic why, _) => .panic why

def walkBlocks (count : Nat) : List Bytes → List α → Code (List α)
  | [], out => .ok out
  | block :: blocks, out => do
    let out ← walkBlock what parse (count - out.length) out (Cursor.start block)
    walkBlocks count blocks out

/-- Walk the heap, reporting whether every record was found. -/
def walkLenient (heap : FractalHeap) : Code (List α × Bool) := do
  let out ← walkBlocks what parse heap.managedObjectCount (heap.blocks.map Prod.snd) []
  .ok (out, out.length = heap.managedObjectCount)

end Walking

end FractalHeap

namespace Dense

/-- What follows so many bytes of an index record: the heap ID, and what else is in it. -/
def heapIdAfter (skip : Nat) (record : Bytes) : Code Bytes := range record skip record.length

/-- A record of the names of links starts with a 4-byte hash of the name. -/
def linkRecordHeapIdOffset : Nat := 4

def attributeRecordHeapIdOffset : Nat := 0

variable (build : Build) (view : View)

def readDenseLinks (heapAddress : Nat) (nameBtreeAddress : Option Nat) : Code (List Link) := do
  let heap ← FractalHeap.read build view heapAddress
  let (links, complete) ← heap.walkLenient "link" (Link.parseAt view.sizes)
  if complete then .ok links
  else
    match nameBtreeAddress with
    | none => .error (.malformed "a group's link heap has gaps but the group records no name index")
    | some btreeAddress => do
      let btree ← BtreeV2.read build view btreeAddress
      heap.walkIndexed build btree (heapIdAfter linkRecordHeapIdOffset) (Link.parseAt view.sizes)

/-- Read every attribute out of an object's fractal heap, and whether these are all. -/
def readDenseAttributes (heapAddress : Nat) (nameBtreeAddress : Option Nat) (sizes : Sizes) :
    Code (List Attribute × Bool) := do
  let heap ← FractalHeap.read build view heapAddress
  let (attributes, complete) ← heap.walkLenient "attribute" (Attribute.parseAt sizes)
  if complete then .ok (attributes, true)
  else
    match nameBtreeAddress with
    | none => .ok (attributes, false)
    | some btreeAddress => do
      let btree ← BtreeV2.read build view btreeAddress
      match heap.walkIndexed build btree (heapIdAfter attributeRecordHeapIdOffset)
        (Attribute.parseAt sizes) with
      | .ok indexed => .ok (indexed, true)
      -- Not a bad index: the bytes are not there yet.
      | .error .incomplete => .error .incomplete
      -- Keep what the walk found rather than lose it to an index that cannot be followed.
      | .error _ => .ok (attributes, false)
      | .panic why => .panic why

end Dense

end Oxcdf
