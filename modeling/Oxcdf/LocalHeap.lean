import Oxcdf.FractalHeap.Loaded
import Oxcdf.Index
import Oxcdf.Superblock.RoundTrip
import Oxcdf.View

/-! The parts of an old-style group besides its B-tree: symbol table nodes list the
children, and a local heap holds their names. -/

set_option autoImplicit false

namespace Oxcdf

open Foundation Foundation.Buffer Foundation.Format

def heapSignature : Bytes := [0x48, 0x45, 0x41, 0x50]
def snodSignature : Bytes := [0x53, 0x4e, 0x4f, 0x44]

/-- A flat byte segment addressed by offset. -/
structure LocalHeap where
  data : Bytes
  deriving DecidableEq, Repr

namespace LocalHeap

/-- Signature, version, reserved bytes, two lengths and one address. -/
def headerLen (sizes : Sizes) : Nat := 8 + 2 * sizes.length + sizes.offset

/-- The length of the data segment, and where it stands. -/
def parseHeader (sizes : Sizes) : Parse (Nat × Nat) := do
  let found ← Cursor.take 4
  if found ≠ heapSignature then
    Session.throw (.malformed "local heap is missing its HEAP signature")
  else pure ()
  let version ← Cursor.u8
  if version ≠ 0 then Session.throw (.unsupported s!"local heap version {version}") else pure ()
  Cursor.skip 3
  let segmentSize ← Cursor.length sizes
  let _ ← Cursor.length sizes
  let segmentAddress ← Cursor.addressRequired sizes "local heap data segment"
  pure (segmentSize, segmentAddress)

def read (view : View) (address : Nat) : Code LocalHeap := do
  let header ← view.read address (headerLen view.sizes)
  let (segmentSize, segmentAddress) ← (parseHeader view.sizes (Cursor.start header)).1
  let data ← view.read segmentAddress segmentSize
  .ok ⟨data⟩

/-- The NUL-terminated name at an offset. -/
def nameAt (heap : LocalHeap) (offset : Nat) : Code String :=
  if offset ≥ heap.data.length then
    .error (.malformed s!"local heap offset {offset} is past the end of the {heap.data.length}-byte segment")
  else .ok (fromUtf8Lossy (untilNul (heap.data.drop offset)))

end LocalHeap

namespace SymbolTableNode

def encodedLen (capacity : Nat) (sizes : Sizes) : Nat := 8 + capacity * SymbolTableEntry.encodedLen sizes

def parse (sizes : Sizes) : Parse (List SymbolTableEntry) := do
  let sig ← Cursor.take 4
  if sig ≠ snodSignature then
    Session.throw (.malformed s!"expected SNOD signature, found {sig.map UInt8.toNat}")
  else pure ()
  let version ← Cursor.u8
  if version ≠ 1 then Session.throw (.unsupported s!"symbol table node version {version}") else pure ()
  Cursor.skip 1
  let count ← Cursor.u16
  Format.times (SymbolTableEntry.parse sizes) count

/-- The count is read first, so that the body is read at its exact size. -/
def read (view : View) (address : Nat) : Code (List SymbolTableEntry) := do
  let head ← view.read address 8
  let count := ofLittleEndian (slice head 6 2)
  let raw ← view.read address (encodedLen count view.sizes)
  (parse view.sizes (Cursor.start raw)).1

end SymbolTableNode

section Stored

namespace LocalHeap

/-- A local heap at an address, with its data segment at another. -/
structure StoredHeap where
  address : Nat
  freeListHead : Nat
  segmentAddress : Nat
  data : Bytes

variable (heap : StoredHeap) {sizes : Sizes} {view : View}

def StoredHeap.encodeHeader (sizes : Sizes) : Bytes :=
  heapSignature ++ (littleEndian 1 0 ++ (List.replicate 3 0 ++ (littleEndian sizes.length heap.data.length ++
    (littleEndian sizes.length heap.freeListHead ++ encodeAddress sizes (some heap.segmentAddress)))))

structure StoredHeap.Held (view : View) : Prop where
  size : heap.data.length < 256 ^ view.sizes.length
  place : heap.segmentAddress < undefinedForWidth view.sizes.offset
  header : view.Holds heap.address (heap.encodeHeader view.sizes)
  segment : view.Holds heap.segmentAddress heap.data

variable {heap}

theorem encodeHeader_length : (heap.encodeHeader sizes).length = headerLen sizes := by
  simp only [StoredHeap.encodeHeader, encodeAddress, headerLen, List.length_append, littleEndian_length,
    List.length_replicate]
  change 4 + _ = _
  omega

theorem read_eq (widths : view.sizes.Valid) (held : heap.Held view) :
    read view heap.address = .ok ⟨heap.data⟩ := by
  have fields : Reads (parseHeader view.sizes) (heap.encodeHeader view.sizes)
      (heap.data.length, heap.segmentAddress) := by
    unfold parseHeader StoredHeap.encodeHeader
    apply (Cursor.reads_take heapSignature).bind
    rw [if_neg (not_not_intro rfl)]
    apply (@Cursor.reads_u8 0 (by decide)).bind
    rw [if_neg (not_not_intro rfl)]
    apply (Cursor.reads_skip (List.replicate 3 0)).bind
    apply (Cursor.reads_uint widths.length_le held.size).bind
    apply (FractalHeap.reads_any widths.length_le heap.freeListHead).bind
    exact (reads_addressRequired widths.offset_le held.place _).bind_pure fun place => (heap.data.length, place)
  have header := held.header.read
  have parsed := fields [] []
  rw [encodeHeader_length] at header
  simp only [List.nil_append, List.append_nil, List.length_nil] at parsed
  simp only [read, header, Cursor.start, parsed, held.segment.read, Outcome.ok_bind]

end LocalHeap

namespace SymbolTableNode

variable {sizes : Sizes} {view : View} {entries : List SymbolTableEntry}

def encodeHead (entries : List SymbolTableEntry) : Bytes :=
  snodSignature ++ (littleEndian 1 1 ++ (littleEndian 1 0 ++ littleEndian 2 entries.length))

def encode (sizes : Sizes) (entries : List SymbolTableEntry) : Bytes :=
  encodeHead entries ++ entries.flatMap (SymbolTableEntry.encode sizes)

/-- The file holds a symbol table node at an address. -/
structure Stands (view : View) (entries : List SymbolTableEntry) (address : Nat) : Prop where
  count : entries.length < 256 ^ 2
  fits : ∀ entry ∈ entries, entry.Fits view.sizes
  held : view.Holds address (encode view.sizes entries)

theorem encodeHead_length : (encodeHead entries).length = 8 := by
  simp [encodeHead, snodSignature]

theorem encode_length (widths : sizes.Valid) :
    (encode sizes entries).length = encodedLen entries.length sizes := by
  have body : (entries.flatMap (SymbolTableEntry.encode sizes)).length =
      entries.length * SymbolTableEntry.encodedLen sizes :=
    length_flatMap_block fun entry _ => SymbolTableEntry.encode_length widths entry
  rw [encode, List.length_append, encodeHead_length, body, encodedLen]

theorem read_eq {address : Nat} (widths : view.sizes.Valid) (stands : Stands view entries address) :
    read view address = .ok entries := by
  have head := stands.held.front.read
  have whole := stands.held.read
  rw [encodeHead_length] at head
  have counted : ofLittleEndian (slice (encodeHead entries) 6 2) = entries.length := by
    have last : slice (encodeHead entries) 6 2 = littleEndian 2 entries.length := rfl
    rw [last, ofLittleEndian_littleEndian 2 stands.count]
  have fields : Reads (parse view.sizes) (encode view.sizes entries) entries := by
    have each : ∀ entry ∈ entries, Reads (SymbolTableEntry.parse view.sizes)
        (SymbolTableEntry.encode view.sizes entry) (id entry) :=
      fun entry member => SymbolTableEntry.reads_entry widths (stands.fits entry member)
    have all := Reads.times each
    rw [List.map_id] at all
    unfold parse encode encodeHead
    simp only [List.append_assoc]
    apply (Cursor.reads_take snodSignature).bind
    rw [if_neg (not_not_intro rfl)]
    apply (@Cursor.reads_u8 1 (by decide)).bind
    rw [if_neg (not_not_intro rfl)]
    apply (Cursor.reads_skip (littleEndian 1 0)).bind
    exact (Cursor.reads_u16 stands.count).bind all
  have parsed := fields [] []
  rw [encode_length widths] at whole
  simp only [List.nil_append, List.append_nil, List.length_nil] at parsed
  simp only [read, head, Outcome.ok_bind, counted, whole, Cursor.start, parsed]

end SymbolTableNode

end Stored

end Oxcdf
