import Oxcdf.Btree1
import Oxcdf.Btree2.Stored

/-! Version 1 B-trees as they are stored.

A node has a child behind each of its keys, and one key more that bounds the last child.
What a key is depends on what the tree is for; the depth is part of the type, so that
all leaves of a tree are at one level.
-/

set_option autoImplicit false

namespace Oxcdf.Btree1

open Foundation Foundation.Buffer Foundation.Format Foundation.Explore
open BtreeV2 (Placed)

section Keys

/-- How the keys of one kind of tree are stored, and what is read of one. -/
structure Form (sizes : Sizes) (rank : Nat) (κ : Type) where
  nodeType : Nat
  width : Nat
  encodeKey : κ → Bytes
  Fits : κ → Prop
  key : κ → Option ChunkKey
  typed : nodeType < 256
  keyLen_eq : ∀ build, width < wordSize → keyLen build sizes rank nodeType = .ok width
  encodeKey_length : ∀ k, Fits k → (encodeKey k).length = width
  reads : ∀ k, Fits k → width ≤ isizeMax → Reads (parseKey rank width nodeType) (encodeKey k) (key k)

/-- A group's key is the place of a name in the local heap. -/
def groupForm (sizes : Sizes) : Form sizes 0 Nat where
  nodeType := nodeTypeGroup
  width := sizes.length
  encodeKey := littleEndian sizes.length
  Fits _ := True
  key _ := none
  typed := by decide
  keyLen_eq _ _ := rfl
  encodeKey_length k _ := littleEndian_length sizes.length k
  reads k _ _ := by
    have skipped := Cursor.reads_skip (littleEndian sizes.length k)
    rw [littleEndian_length] at skipped
    exact skipped.bind_pure fun _ => none

def ChunkKey.encode (key : ChunkKey) : Bytes :=
  littleEndian 4 key.size ++ (littleEndian 4 key.filterMask ++
    (key.offset.flatMap (littleEndian 8) ++ littleEndian 8 0))

/-- The fields of a key hold what is stored in them, and there is an offset for each axis. -/
structure ChunkKey.Fits (rank : Nat) (key : ChunkKey) : Prop where
  size : key.size < 256 ^ 4
  filterMask : key.filterMask < 256 ^ 4
  axes : key.offset.length = rank
  offset : ∀ start ∈ key.offset, start < 256 ^ 8

theorem ChunkKey.encode_length {rank : Nat} {key : ChunkKey} (fits : key.Fits rank) :
    key.encode.length = 4 + 4 + 8 * (rank + 1) := by
  have offsets : (key.offset.flatMap (littleEndian 8)).length = key.offset.length * 8 :=
    length_flatMap_block fun start _ => littleEndian_length 8 start
  simp only [ChunkKey.encode, List.length_append, littleEndian_length, offsets, fits.axes]
  omega

theorem reads_chunkKey {rank : Nat} {key : ChunkKey} (fits : key.Fits rank)
    (small : 4 + 4 + 8 * (rank + 1) ≤ isizeMax) : Reads (parseChunkKey rank) key.encode key := by
  have room : ChunkIndex.withCapacity rank 8 = .ok () := if_pos (by omega)
  have offsets : Reads (Format.times Cursor.u64 rank) (key.offset.flatMap (littleEndian 8)) key.offset := by
    have each : ∀ start ∈ key.offset, Reads Cursor.u64 (littleEndian 8 start) (id start) :=
      fun start member => Cursor.reads_u64 (fits.offset start member)
    have all := Reads.times each
    rwa [List.map_id, fits.axes] at all
  unfold parseChunkKey ChunkKey.encode
  apply (Cursor.reads_u32 fits.size).bind
  apply (Cursor.reads_u32 fits.filterMask).bind
  apply Reads.bind_lift room
  apply offsets.bind
  exact (Cursor.reads_skip (littleEndian 8 0)).bind_pure fun _ => key

/-- A chunk's key says how large it is and where it starts. -/
def chunkForm (sizes : Sizes) (rank : Nat) : Form sizes rank ChunkKey where
  nodeType := nodeTypeChunk
  width := 4 + 4 + 8 * (rank + 1)
  encodeKey := ChunkKey.encode
  Fits := ChunkKey.Fits rank
  key := some
  typed := by decide
  keyLen_eq build small := by
    have axes : (build.add rank 1 : Code Nat) = .ok (rank + 1) := build.word_of_lt (by omega)
    have offsets : (build.mul 8 (rank + 1) : Code Nat) = .ok (8 * (rank + 1)) := build.word_of_lt (by omega)
    have key : (build.add (4 + 4) (8 * (rank + 1)) : Code Nat) = .ok (4 + 4 + 8 * (rank + 1)) :=
      build.word_of_lt small
    simp [keyLen, nodeTypeChunk, nodeTypeGroup, axes, offsets, key]
  encodeKey_length k fits := ChunkKey.encode_length fits
  reads k fits small := (reads_chunkKey fits small).bind_pure some

end Keys

/-- What a node holds: children behind keys, a key behind the last, and the nodes beside it. -/
structure Page (κ β : Type) where
  left : Option Nat
  right : Option Nat
  entries : List (κ × β)
  last : κ

namespace Page

variable {κ β : Type} {sizes : Sizes} {rank : Nat} (form : Form sizes rank κ) (level : Nat)
  (addressOf : β → Nat) (page : Page κ β)

def children : List β := page.entries.map Prod.snd

def encodeHeader : Bytes :=
  treeSignature ++ (littleEndian 1 form.nodeType ++
    (littleEndian 1 level ++ (littleEndian 2 page.entries.length ++
    (encodeAddress sizes page.left ++ encodeAddress sizes page.right))))

def encodeEntry (entry : κ × β) : Bytes :=
  form.encodeKey entry.1 ++ encodeAddress sizes (some (addressOf entry.2))

def encodeBody : Bytes := page.entries.flatMap (encodeEntry form addressOf) ++ form.encodeKey page.last

def encode : Bytes := page.encodeHeader form level ++ page.encodeBody form addressOf

/-- The fields of a node hold what is stored in them. -/
structure Fits : Prop where
  level : level < 256 ^ 1
  entries : page.entries.length < 256 ^ 2
  left : sizes.FitsAddress page.left
  right : sizes.FitsAddress page.right
  keys : ∀ entry ∈ page.entries, form.Fits entry.1
  last : form.Fits page.last
  children : ∀ child ∈ page.children, addressOf child < undefinedForWidth sizes.offset

/-- The file holds a node at an address, and its body starts at an address as well. -/
structure Stands (view : View) (form : Form view.sizes rank κ) (address : Nat) : Prop where
  fits : page.Fits form level addressOf
  held : view.Holds address (page.encode form level addressOf)
  body : address + headerLen view.sizes < wordSize

def node : Node where
  nodeType := form.nodeType
  level := level
  children := page.children.map addressOf
  chunkKeys := page.entries.filterMap fun entry => form.key entry.1

variable {form level addressOf page}

theorem encodeHeader_length : (page.encodeHeader form level).length = headerLen sizes := by
  simp only [encodeHeader, encodeAddress, headerLen, List.length_append, littleEndian_length]
  change 4 + _ = _
  omega

theorem encodeEntry_length {entry : κ × β} (fits : form.Fits entry.1) :
    (encodeEntry form addressOf entry).length = form.width + sizes.offset := by
  rw [encodeEntry, List.length_append, form.encodeKey_length entry.1 fits, encodeAddress, littleEndian_length]

theorem encodeBody_length (fits : page.Fits form level addressOf) :
    (page.encodeBody form addressOf).length =
      (page.entries.length + 1) * form.width + page.entries.length * sizes.offset := by
  have entries : (page.entries.flatMap (encodeEntry form addressOf)).length =
      page.entries.length * (form.width + sizes.offset) :=
    length_flatMap_block fun entry member => encodeEntry_length (fits.keys entry member)
  rw [encodeBody, List.length_append, entries, form.encodeKey_length page.last fits.last]
  ring

theorem reads_header (narrow : sizes.offset ≤ 8) (fits : page.Fits form level addressOf) (address : Nat) :
    Reads (parseNodeHeader sizes address) (page.encodeHeader form level)
      (form.nodeType, level, page.entries.length) := by
  unfold parseNodeHeader encodeHeader
  apply (Cursor.reads_take treeSignature).bind
  rw [if_neg (not_not_intro rfl)]
  apply (Cursor.reads_u8 form.typed).bind
  apply (Cursor.reads_u8 fits.level).bind
  apply (Cursor.reads_u16 fits.entries).bind
  apply (reads_address narrow fits.left).bind
  exact (reads_address narrow fits.right).bind_pure fun _ => (form.nodeType, level, page.entries.length)

theorem reads_entry {entry : κ × β} (narrow : sizes.offset ≤ 8) (small : form.width ≤ isizeMax)
    (fits : form.Fits entry.1) (named : addressOf entry.2 < undefinedForWidth sizes.offset) :
    Reads (parseEntry sizes rank form.width form.nodeType) (encodeEntry form addressOf entry)
      (form.key entry.1, addressOf entry.2) := by
  unfold parseEntry encodeEntry
  apply (form.reads entry.1 fits small).bind
  exact (reads_addressRequired narrow named "B-tree child").bind_pure fun child => (form.key entry.1, child)

end Page

theorem readNode_eq {κ β : Type} {rank level address : Nat} {view : View} {form : Form view.sizes rank κ}
    {addressOf : β → Nat} {page : Page κ β} (narrow : view.sizes.offset ≤ 8)
    (stands : page.Stands level addressOf view form address) (build : Build) :
    readNode build view rank address = .ok (page.node form level addressOf) := by
  have fits := stands.fits
  have header := stands.held.front.read
  have body := stands.held.back
  rw [Page.encodeHeader_length] at header body
  -- The body lies in the file, so that nothing its length is worked out from leaves a word.
  have bounded := body.inside.le_isizeMax
  have long := Page.encodeBody_length fits
  have fewer : (page.entries.length + 1) * form.width ≤ isizeMax := by omega
  have pointers : page.entries.length * view.sizes.offset ≤ isizeMax := by omega
  have width : form.width ≤ isizeMax := le_trans (Nat.le_mul_of_pos_left _ (Nat.succ_pos _)) fewer
  have word {n : Nat} (small : n ≤ isizeMax) : n < wordSize := lt_of_le_of_lt small (by decide)
  have key := form.keyLen_eq build (word width)
  have keys : (build.mul (page.entries.length + 1) form.width : Code Nat) = .ok _ :=
    build.word_of_lt (word fewer)
  have addresses : (build.mul page.entries.length view.sizes.offset : Code Nat) = .ok _ :=
    build.word_of_lt (word pointers)
  have total : (build.add ((page.entries.length + 1) * form.width) (page.entries.length * view.sizes.offset) :
      Code Nat) = .ok _ := build.word_of_lt (by rw [← long]; exact word bounded)
  have start : (build.add address (headerLen view.sizes) : Code Nat) = .ok _ := build.word_of_lt stands.body
  have fields := Page.reads_header narrow fits address [] []
  have entries : Reads (Format.times (parseEntry view.sizes rank form.width form.nodeType) page.entries.length)
      (page.entries.flatMap (Page.encodeEntry form addressOf))
      (page.entries.map fun entry => (form.key entry.1, addressOf entry.2)) := by
    apply Reads.times
    intro entry member
    exact Page.reads_entry narrow width (fits.keys entry member)
      (fits.children entry.2 (List.mem_map_of_mem member))
  have parsed := entries [] (form.encodeKey page.last)
  rw [← long] at total
  change (Format.times _ _ ⟨page.encodeBody form addressOf, 0⟩) = _ at parsed
  simp only [List.nil_append, List.append_nil, List.length_nil] at fields
  simp only [readNode, header, body.read, Cursor.start, fields, key, keys, addresses, total, start, parsed,
    Outcome.ok_bind, Page.node, Page.children, List.map_map, List.filterMap_map]
  rfl

end Oxcdf.Btree1
