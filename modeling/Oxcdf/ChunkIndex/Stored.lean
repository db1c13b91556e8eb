import Oxcdf.ChunkIndex.Numbering

/-! The two arrays of chunk addresses as a file stores them, and what the readers
get of them. -/

set_option autoImplicit false

namespace Oxcdf.ChunkIndex

open Foundation Foundation.Format

section Elements

/-- How wide the stored sizes of filtered chunks are; an index over unfiltered
chunks stores addresses only. -/
abbrev SizeWidth := Option Nat

def SizeWidth.clientId : SizeWidth → Nat
  | none => 0
  | some _ => clientFilteredChunks

def SizeWidth.entrySize (sizes : Sizes) : SizeWidth → Nat
  | none => sizes.offset
  | some width => sizes.offset + 4 + width

namespace Element

def encode (sizes : Sizes) (element : Element) : SizeWidth → Bytes
  | none => encodeAddress sizes element.address
  | some width => encodeAddress sizes element.address ++
      (littleEndian width element.size ++ littleEndian 4 element.filterMask)

structure Fits (sizes : Sizes) (sizeWidth : SizeWidth) (element : Element) : Prop where
  address : sizes.FitsAddress element.address
  size : ∀ width, sizeWidth = some width → element.size < 256 ^ width
  filterMask : element.filterMask < 256 ^ 4

/-- What is read of an element: sizes are cut to 32 bits. -/
def meant (element : Element) : SizeWidth → Element
  | none => ⟨element.address, 0, 0⟩
  | some _ => ⟨element.address, element.size % 2 ^ 32, element.filterMask⟩

@[simp] theorem meant_address (element : Element) (sizeWidth : SizeWidth) :
    (element.meant sizeWidth).address = element.address := by
  cases sizeWidth <;> rfl

end Element

variable {sizes : Sizes} {sizeWidth : SizeWidth}

theorem encode_length (element : Element) :
    (element.encode sizes sizeWidth).length = sizeWidth.entrySize sizes := by
  cases sizeWidth with
  | none => exact encodeAddress_length sizes _
  | some width =>
    simp only [Element.encode, SizeWidth.entrySize, List.length_append, encodeAddress_length,
      littleEndian_length]
    omega

theorem flatMap_encode_length (elements : List Element) :
    (elements.flatMap fun element => element.encode sizes sizeWidth).length =
      elements.length * sizeWidth.entrySize sizes := by
  induction elements with
  | nil => simp
  | cons element elements ih =>
    rw [List.flatMap_cons, List.length_append, ih, encode_length, List.length_cons, Nat.succ_mul, Nat.add_comm]

theorem reads_element (narrow : sizes.offset ≤ 8) (short : ∀ width, sizeWidth = some width → width ≤ 8)
    {element : Element} (fits : element.Fits sizes sizeWidth) :
    Reads (readElement sizes (sizeWidth.entrySize sizes) sizeWidth.clientId) (element.encode sizes sizeWidth)
      (element.meant sizeWidth) := by
  cases sizeWidth with
  | none => exact (reads_address narrow fits.address).bind_pure _
  | some width =>
    have room : sizes.offset + 4 ≤ SizeWidth.entrySize sizes (some width) := Nat.le_add_right _ _
    have left : SizeWidth.entrySize sizes (some width) - (sizes.offset + 4) = width :=
      Nat.add_sub_cancel_left ..
    unfold readElement
    rw [if_pos (show SizeWidth.clientId (some width) = clientFilteredChunks from rfl), if_pos room, left]
    refine (reads_address narrow fits.address).bind (Reads.bind_lift rfl ?_)
    refine (Cursor.reads_uint (short width rfl) (fits.size width rfl)).bind ?_
    exact (Cursor.reads_u32 fits.filterMask).bind_pure _

theorem reads_elements (narrow : sizes.offset ≤ 8) (short : ∀ width, sizeWidth = some width → width ≤ 8)
    {elements : List Element} (fits : ∀ element ∈ elements, element.Fits sizes sizeWidth)
    (small : elements.length * 24 ≤ isizeMax) :
    Reads (readElements sizes elements.length (sizeWidth.entrySize sizes) sizeWidth.clientId)
      (elements.flatMap fun element => element.encode sizes sizeWidth)
      (elements.map fun element => element.meant sizeWidth) := by
  refine Reads.bind_lift (if_pos small) ?_
  exact Reads.times fun element member => reads_element narrow short (fits element member)

theorem reads_versionZero (what : String) : Reads (expectVersionZero what) (littleEndian 1 0) () :=
  (Cursor.reads_u8 (by decide)).bind_done fun _ => rfl

/-- The client and the header that a block belongs to are passed over. -/
theorem skips_client (client : Nat) : Reads (Cursor.skip 1) (littleEndian 1 client) () := by
  have skipped := Cursor.reads_skip (littleEndian 1 client)
  rwa [littleEndian_length] at skipped

theorem skips_owner (headerAddress : Nat) :
    Reads (Cursor.skip sizes.offset) (encodeAddress sizes (some headerAddress)) () := by
  have skipped := Cursor.reads_skip (encodeAddress sizes (some headerAddress))
  rwa [encodeAddress_length] at skipped

end Elements

section FixedArray

/-- A fixed array with one element for each chunk of the maximum shape. One without
a data block stores no chunk. -/
structure FixedArray where
  sizeWidth : SizeWidth
  pageBits : Nat
  elements : List Element
  headerAddress : Nat
  dataBlockAddress : Option Nat

namespace FixedArray

variable (array : FixedArray) (sizes : Sizes)

def encodeHeader : Bytes :=
  fahdSignature ++ (littleEndian 1 0 ++ (littleEndian 1 array.sizeWidth.clientId ++
    (littleEndian 1 (array.sizeWidth.entrySize sizes) ++ (littleEndian 1 array.pageBits ++
      (littleEndian sizes.length array.elements.length ++ encodeAddress sizes array.dataBlockAddress)))))

/-- What stands before the elements. -/
def encodeBlockStart : Bytes :=
  fadbSignature ++ (littleEndian 1 0 ++ (littleEndian 1 array.sizeWidth.clientId ++
    encodeAddress sizes (some array.headerAddress)))

def encodeElements : Bytes := array.elements.flatMap fun element => element.encode sizes array.sizeWidth

structure Fits : Prop where
  widths : sizes.Valid
  sizeWidth : ∀ width, array.sizeWidth = some width → width ≤ 8
  pageBits : array.pageBits < 64
  elements : ∀ element ∈ array.elements, element.Fits sizes array.sizeWidth
  count : array.elements.length < 256 ^ sizes.length
  memory : array.elements.length * 24 ≤ isizeMax
  dataBlockAddress : sizes.FitsAddress array.dataBlockAddress
  unallocated : array.dataBlockAddress = none → ∀ element ∈ array.elements, element.address = none

/-- The file holds the header and the data block. -/
structure Held (view : View) : Prop where
  header : view.Holds array.headerAddress (withChecksum (array.encodeHeader view.sizes))
  block : ∀ address, array.dataBlockAddress = some address →
    view.Holds address (withChecksum (array.encodeBlockStart view.sizes ++ array.encodeElements view.sizes))

/-- A data block of more elements than a page holds is divided into pages. -/
def Paged : Prop :=
  array.dataBlockAddress ≠ none ∧ 0 < array.pageBits ∧ 2 ^ array.pageBits < array.elements.length

instance : Decidable array.Paged := inferInstanceAs (Decidable (_ ∧ _ ∧ _))

def header : FixedArrayHeader :=
  ⟨array.sizeWidth.clientId, array.sizeWidth.entrySize sizes, array.pageBits, array.elements.length,
    array.dataBlockAddress⟩

variable {array sizes}

theorem entrySize_fits {sizeWidth : SizeWidth} (valid : sizes.Valid)
    (short : ∀ width, sizeWidth = some width → width ≤ 8) : sizeWidth.entrySize sizes < 256 ^ 1 := by
  have narrow := valid.offset_le
  cases sizeWidth with
  | none => exact lt_of_le_of_lt narrow (by decide)
  | some width =>
    have small := short width rfl
    change sizes.offset + 4 + width < 256 ^ 1
    omega

theorem clientId_fits (sizeWidth : SizeWidth) : sizeWidth.clientId < 256 ^ 1 := by
  cases sizeWidth with
  | none => exact Nat.zero_lt_succ _
  | some width => exact Nat.succ_lt_succ (Nat.zero_lt_succ _)

theorem reads_header (fits : array.Fits sizes) :
    Reads (parseFixedArrayHeader sizes) (array.encodeHeader sizes) (array.header sizes) := by
  refine (reads_signature rfl _).bind ((reads_versionZero _).bind ?_)
  refine (Cursor.reads_u8 (clientId_fits array.sizeWidth)).bind ?_
  refine (Cursor.reads_u8 (entrySize_fits fits.widths fits.sizeWidth)).bind ?_
  refine (Cursor.reads_u8 (lt_trans fits.pageBits (by decide))).bind ?_
  refine (Cursor.reads_uint fits.widths.length_le fits.count).bind ?_
  exact (reads_address fits.widths.offset_le fits.dataBlockAddress).bind_pure _

theorem reads_blockStart : Reads (skipFixedArrayBlock sizes) (array.encodeBlockStart sizes) () := by
  exact (reads_signature rfl _).bind ((reads_versionZero _).bind ((skips_client _).bind (skips_owner _)))

theorem header_length : (array.encodeHeader sizes).length + 4 =
    4 + 1 + 1 + 1 + 1 + sizes.length + sizes.offset + 4 := by
  simp only [encodeHeader, List.length_append, littleEndian_length, encodeAddress_length]
  change 4 + _ + 4 = _
  omega

theorem block_length : (array.encodeBlockStart sizes ++ array.encodeElements sizes).length =
    4 + 1 + 1 + sizes.offset + array.elements.length * array.sizeWidth.entrySize sizes := by
  simp only [encodeBlockStart, encodeElements, List.length_append, littleEndian_length, encodeAddress_length,
    flatMap_encode_length]
  change 4 + _ + _ = _
  omega

theorem readFixedArrayBlock_eq (build : Build) {view : View} (fits : array.Fits view.sizes) {address : Nat}
    (block : view.Holds address
      (withChecksum (array.encodeBlockStart view.sizes ++ array.encodeElements view.sizes))) :
    readFixedArrayBlock build view (array.header view.sizes) address array.elements.length =
      .ok (array.elements.map fun element => element.meant array.sizeWidth) := by
  have inside := block.inside.le_isizeMax
  rw [withChecksum_length, block_length] at inside
  have bounded := isizeMax_lt_wordSize
  have entries : (build.mul array.elements.length (array.header view.sizes).entrySize : Code Nat) =
      .ok (array.elements.length * array.sizeWidth.entrySize view.sizes) :=
    Build.word_of_lt build (show _ * array.sizeWidth.entrySize view.sizes < wordSize by omega)
  have read := block.read
  rw [withChecksum_length, block_length] at read
  have checked := verifyChecksum_withChecksum
    (array.encodeBlockStart view.sizes ++ array.encodeElements view.sizes) "fixed array data block"
  rw [block_length] at checked
  unfold readFixedArrayBlock
  rw [entries, Outcome.ok_bind, Build.add, Build.word_of_lt build (by omega), Outcome.ok_bind, Build.add,
    Build.word_of_lt build (by omega), Outcome.ok_bind, read, Outcome.ok_bind, Nat.add_sub_cancel,
    parse_withChecksum reads_blockStart _]
  dsimp only
  rw [checked]
  have elements := reads_elements fits.widths.offset_le fits.sizeWidth fits.elements fits.memory
  exact congrArg Prod.fst (elements (array.encodeBlockStart view.sizes) _)

theorem refusePaged_eq (build : Build) (fits : array.Fits sizes) :
    refusePaged build (array.header sizes) =
      if 0 < array.pageBits ∧ 2 ^ array.pageBits < array.elements.length then
        .error (.unsupported "paged fixed array data block")
      else .ok () := by
  have page : shiftOne build (array.header sizes).pageBits = .ok (2 ^ array.pageBits) := if_pos fits.pageBits
  unfold refusePaged
  rw [page, Outcome.ok_bind]
  change (if 0 < array.pageBits then if 2 ^ array.pageBits < array.elements.length then _ else _ else _) = _
  by_cases several : 0 < array.pageBits
  · by_cases large : 2 ^ array.pageBits < array.elements.length
    · rw [if_pos several, if_pos large, if_pos ⟨several, large⟩]
    · rw [if_pos several, if_neg large, if_neg fun both => large both.2]
  · rw [if_neg several, if_neg fun both => several both.1]

/-- What the reader gets of an array: its elements, or none when it has no data block. -/
def readBack (array : FixedArray) : List Element :=
  match array.dataBlockAddress with
  | none => []
  | some _ => array.elements.map fun element => element.meant array.sizeWidth

theorem readFixedArray_eq (build : Build) {view : View} (fits : array.Fits view.sizes) (held : array.Held view)
    (expected : Nat) : readFixedArray build view array.headerAddress expected =
      if array.Paged then .error (.unsupported "paged fixed array data block")
      else .ok array.readBack := by
  have read := held.header.read
  have checked := verifyChecksum_withChecksum (array.encodeHeader view.sizes) "fixed array header"
  have length := @header_length array view.sizes
  have parsed := parse_withChecksum (reads_header fits) []
  rw [withChecksum_length, length] at read
  rw [List.append_nil] at parsed
  unfold readFixedArray
  dsimp only
  rw [read, Outcome.ok_bind, parsed, Outcome.ok_bind, ← length, Nat.add_sub_cancel, checked]
  have count : min array.elements.length (max expected array.elements.length) = array.elements.length :=
    Nat.min_eq_left (Nat.le_max_right _ _)
  change (match array.dataBlockAddress with
    | none => (Outcome.ok [] : Code (List Element))
    | some dataBlockAddress => refusePaged build (array.header view.sizes) >>= fun _ =>
      readFixedArrayBlock build view (array.header view.sizes) dataBlockAddress
        (min array.elements.length (max expected array.elements.length))) = _
  rw [refusePaged_eq build fits, count]
  unfold readBack
  by_cases paged : array.Paged
  · obtain ⟨address, allocated⟩ := Option.ne_none_iff_exists'.mp paged.1
    rw [if_pos paged, allocated]
    dsimp only
    rw [if_pos paged.2, Outcome.error_bind]
  · rw [if_neg paged]
    cases allocated : array.dataBlockAddress with
    | none => rfl
    | some address =>
      have whole := fun both => paged ⟨allocated ▸ Option.some_ne_none address, both⟩
      dsimp only
      rw [if_neg whole, Outcome.ok_bind]
      exact readFixedArrayBlock_eq build fits (held.block address allocated)

theorem storedAt_readBack (fits : array.Fits sizes) (index : Nat) :
    storedAt array.readBack index = storedAt array.elements index := by
  unfold storedAt readBack
  cases allocated : array.dataBlockAddress with
  | none =>
    cases found : array.elements[index]? with
    | none => rfl
    | some element => exact (fits.unallocated allocated element (List.mem_of_getElem? found)).symm
  | some address =>
    rw [List.getElem?_map]
    cases array.elements[index]? with
    | none => rfl
    | some element => exact Element.meant_address element array.sizeWidth

end FixedArray

end FixedArray

section ExtensibleArray

/-- One data block, with where it starts in the array. -/
structure DataBlock where
  address : Nat
  blockOffset : Nat
  elements : List Element

/-- An extensible array as far as the two data blocks that the index block points
at directly and that stand alone in their super blocks. -/
structure ExtensibleArray where
  sizeWidth : SizeWidth
  maxNelmtsBits : Nat
  inline : List Element
  minElements : Nat
  minPointers : Nat
  pageBits : Nat
  statistics : List Nat
  maxIndexSet : Nat
  numElements : Nat
  first : Option DataBlock
  second : Option DataBlock
  /-- Data and super blocks further on. -/
  others : List (Option Nat)
  headerAddress : Nat
  indexBlockAddress : Option Nat

namespace ExtensibleArray

variable (array : ExtensibleArray) (sizes : Sizes)

def header : ExtensibleArrayHeader :=
  ⟨array.sizeWidth.clientId, array.sizeWidth.entrySize sizes, array.maxNelmtsBits, array.inline.length,
    array.minElements, array.maxIndexSet, array.indexBlockAddress⟩

def encodeHeader : Bytes :=
  eahdSignature ++ (littleEndian 1 0 ++ (littleEndian 1 array.sizeWidth.clientId ++
    (littleEndian 1 (array.sizeWidth.entrySize sizes) ++ (littleEndian 1 array.maxNelmtsBits ++
      (littleEndian 1 array.inline.length ++ (littleEndian 1 array.minElements ++
        (littleEndian 1 array.minPointers ++ (littleEndian 1 array.pageBits ++
          (array.statistics.flatMap (littleEndian sizes.length) ++
            (littleEndian sizes.length array.maxIndexSet ++ (littleEndian sizes.length array.numElements ++
              encodeAddress sizes array.indexBlockAddress)))))))))))

def encodeIndexBlockStart : Bytes :=
  eaibSignature ++ (littleEndian 1 0 ++ (littleEndian 1 array.sizeWidth.clientId ++
    encodeAddress sizes (some array.headerAddress)))

def encodeElements (elements : List Element) : Bytes :=
  elements.flatMap fun element => element.encode sizes array.sizeWidth

/-- The addresses after the elements of the index block. -/
def addresses : List (Option Nat) :=
  array.first.map DataBlock.address :: array.second.map DataBlock.address :: array.others

def encodeIndexBlock : Bytes :=
  array.encodeIndexBlockStart sizes ++ (array.encodeElements sizes array.inline ++
    array.addresses.flatMap (encodeAddress sizes))

def encodeDataBlockStart (block : DataBlock) : Bytes :=
  eadbSignature ++ (littleEndian 1 0 ++ (littleEndian 1 array.sizeWidth.clientId ++
    (encodeAddress sizes (some array.headerAddress) ++
      littleEndian ((array.maxNelmtsBits + 7) / 8) block.blockOffset)))

def encodeDataBlock (block : DataBlock) : Bytes :=
  array.encodeDataBlockStart sizes block ++ array.encodeElements sizes block.elements

/-- The elements of a data block; those of one that is not allocated are unwritten. -/
def run (capacity : Nat) : Option DataBlock → List Element
  | some block => block.elements
  | none => List.replicate capacity .unwritten

/-- Every element there is room for, in index order. -/
def whole : List Element :=
  array.inline ++ (run array.minElements array.first ++ run (array.minElements * 2) array.second)

/-- The elements of the array. One without an index block has none. -/
def elements : List Element :=
  match array.indexBlockAddress with
  | some _ => array.whole.take array.maxIndexSet
  | none => []

structure BlockFits (capacity : Nat) (block : DataBlock) : Prop where
  length : block.elements.length = capacity
  elements : ∀ element ∈ block.elements, element.Fits sizes array.sizeWidth

structure Fits : Prop where
  widths : sizes.Valid
  sizeWidth : ∀ width, array.sizeWidth = some width → width ≤ 8
  maxNelmtsBits : array.maxNelmtsBits < 256 ^ 1
  inlineCount : array.inline.length < 256 ^ 1
  inline : ∀ element ∈ array.inline, element.Fits sizes array.sizeWidth
  minElements : 0 < array.minElements ∧ array.minElements < 256 ^ 1
  minBits : Nat.log2 array.minElements ≤ array.maxNelmtsBits
  minPointers : array.minPointers < 256 ^ 1
  pageBits : array.pageBits < 256 ^ 1
  statistics : array.statistics.length = 4 ∧ ∀ n ∈ array.statistics, n < 256 ^ sizes.length
  maxIndexSet : array.maxIndexSet < 256 ^ sizes.length
  numElements : array.numElements < 256 ^ sizes.length
  direct : array.maxIndexSet ≤ array.inline.length + 3 * array.minElements
  first : ∀ block, array.first = some block → array.BlockFits sizes array.minElements block
  second : ∀ block, array.second = some block → array.BlockFits sizes (array.minElements * 2) block
  addresses : ∀ address ∈ array.addresses, sizes.FitsAddress address
  others : array.others.length = 1 + (array.maxNelmtsBits - Nat.log2 array.minElements)
  indexBlockAddress : sizes.FitsAddress array.indexBlockAddress

/-- The file holds the header, the index block and the data blocks. -/
structure Held (view : View) : Prop where
  header : view.Holds array.headerAddress (withChecksum (array.encodeHeader view.sizes))
  indexBlock : ∀ address, array.indexBlockAddress = some address →
    view.Holds address (withChecksum (array.encodeIndexBlock view.sizes))
  dataBlocks : ∀ block, array.first = some block ∨ array.second = some block →
    view.Holds block.address (withChecksum (array.encodeDataBlock view.sizes block))

variable {array sizes}

@[simp] theorem header_clientId : (array.header sizes).clientId = array.sizeWidth.clientId := rfl

@[simp] theorem header_elementSize : (array.header sizes).elementSize = array.sizeWidth.entrySize sizes := rfl

@[simp] theorem header_maxNelmtsBits : (array.header sizes).maxNelmtsBits = array.maxNelmtsBits := rfl

@[simp] theorem header_indexBlockElements : (array.header sizes).indexBlockElements = array.inline.length := rfl

@[simp] theorem header_dataBlockMinElements :
    (array.header sizes).dataBlockMinElements = array.minElements := rfl

@[simp] theorem header_maxIndexSet : (array.header sizes).maxIndexSet = array.maxIndexSet := rfl

@[simp] theorem header_indexBlockAddress :
    (array.header sizes).indexBlockAddress = array.indexBlockAddress := rfl

theorem reads_header (fits : array.Fits sizes) :
    Reads (parseExtensibleArrayHeader sizes) (array.encodeHeader sizes) (array.header sizes) := by
  have narrow := fits.widths.length_le
  have statistics : Reads (Format.times (Cursor.length sizes) 4)
      (array.statistics.flatMap (littleEndian sizes.length)) (array.statistics.map id) := by
    rw [← fits.statistics.1]
    exact Reads.times fun n member => Cursor.reads_uint narrow (fits.statistics.2 n member)
  refine (reads_signature rfl _).bind ((reads_versionZero _).bind ?_)
  refine (Cursor.reads_u8 (FixedArray.clientId_fits array.sizeWidth)).bind ?_
  refine (Cursor.reads_u8 (FixedArray.entrySize_fits fits.widths fits.sizeWidth)).bind ?_
  refine (Cursor.reads_u8 fits.maxNelmtsBits).bind ((Cursor.reads_u8 fits.inlineCount).bind ?_)
  refine (Cursor.reads_u8 fits.minElements.2).bind ((Cursor.reads_u8 fits.minPointers).bind ?_)
  refine (Cursor.reads_u8 fits.pageBits).bind (statistics.bind ?_)
  refine (Cursor.reads_uint narrow fits.maxIndexSet).bind ((Cursor.reads_uint narrow fits.numElements).bind ?_)
  exact (reads_address fits.widths.offset_le fits.indexBlockAddress).bind_pure _

theorem reads_indexBlockStart : Reads (skipIndexBlock sizes) (array.encodeIndexBlockStart sizes) () := by
  exact (reads_signature rfl _).bind ((reads_versionZero _).bind ((skips_client _).bind (skips_owner _)))

theorem reads_dataBlockStart (block : DataBlock) :
    Reads (skipDataBlock sizes ((array.maxNelmtsBits + 7) / 8))
      (array.encodeDataBlockStart sizes block) () := by
  have offset := Cursor.reads_skip (littleEndian ((array.maxNelmtsBits + 7) / 8) block.blockOffset)
  rw [littleEndian_length] at offset
  refine (reads_signature rfl _).bind ((reads_versionZero _).bind ?_)
  exact (skips_client _).bind ((skips_owner _).bind offset)

theorem reads_front (fits : array.Fits sizes) {elements : List Element}
    (each : ∀ element ∈ elements, element.Fits sizes array.sizeWidth) {wanted : Nat}
    (few : wanted ≤ elements.length) (small : wanted * 24 ≤ isizeMax) :
    Reads (readElements sizes wanted (array.sizeWidth.entrySize sizes) array.sizeWidth.clientId)
      (array.encodeElements sizes (elements.take wanted))
      ((elements.map fun element => element.meant array.sizeWidth).take wanted) := by
  have length : (elements.take wanted).length = wanted := List.length_take_of_le few
  have reads := reads_elements fits.widths.offset_le fits.sizeWidth
    (fun element member => each element (List.mem_of_mem_take member)) (by rw [length]; exact small)
  rwa [length, List.map_take] at reads

theorem encodeElements_split (elements : List Element) (wanted : Nat) :
    array.encodeElements sizes elements = array.encodeElements sizes (elements.take wanted) ++
      array.encodeElements sizes (elements.drop wanted) := by
  unfold encodeElements
  rw [← List.flatMap_append, List.take_append_drop]

theorem dataBlock_length {capacity : Nat} {block : DataBlock} (fits : array.BlockFits sizes capacity block) :
    (array.encodeDataBlock sizes block).length = 4 + 1 + 1 + sizes.offset + (array.maxNelmtsBits + 7) / 8 +
      capacity * array.sizeWidth.entrySize sizes := by
  simp only [encodeDataBlock, encodeDataBlockStart, encodeElements, List.length_append, littleEndian_length,
    encodeAddress_length, flatMap_encode_length, fits.length]
  change 4 + _ + _ = _
  omega

theorem readDataBlock_eq {view : View} (fits : array.Fits view.sizes) {capacity wanted : Nat}
    {block : DataBlock} (blockFits : array.BlockFits view.sizes capacity block)
    (held : view.Holds block.address (withChecksum (array.encodeDataBlock view.sizes block)))
    (few : wanted ≤ capacity) (small : wanted * 24 ≤ isizeMax) :
    readDataBlock view (array.header view.sizes) block.address wanted capacity =
      .ok ((block.elements.map fun element => element.meant array.sizeWidth).take wanted) := by
  have read := held.read
  rw [withChecksum_length, dataBlock_length blockFits] at read
  have checked := verifyChecksum_withChecksum (array.encodeDataBlock view.sizes block)
    "extensible array data block"
  rw [dataBlock_length blockFits] at checked
  have skipped := parse_withChecksum (@reads_dataBlockStart array view.sizes block)
    (array.encodeElements view.sizes block.elements)
  have elements := reads_front fits blockFits.elements (blockFits.length.symm ▸ few) small
  have buffer : withChecksum (array.encodeDataBlock view.sizes block) =
      array.encodeDataBlockStart view.sizes block ++
        array.encodeElements view.sizes (block.elements.take wanted) ++
          (array.encodeElements view.sizes (block.elements.drop wanted) ++
            littleEndian 4 (Checksum.metadata (array.encodeDataBlock view.sizes block)).toNat) := by
    rw [withChecksum, encodeDataBlock, encodeElements_split block.elements wanted]
    simp only [List.append_assoc]
  unfold readDataBlock
  dsimp only [header]
  rw [read, Outcome.ok_bind]
  rw [encodeDataBlock] at buffer checked ⊢
  rw [skipped]
  dsimp only
  rw [Outcome.ok_bind, Nat.add_sub_cancel, checked, Outcome.ok_bind, buffer]
  exact congrArg Prod.fst (elements _ _)

/-- A data block adds its run to the elements before it, up to the end of the array. -/
theorem appendDataBlock_eq {view : View} (fits : array.Fits view.sizes) {sblk capacity : Nat}
    (capacity_eq : dataBlockCapacity sblk array.minElements = capacity) (few : capacity * 24 ≤ isizeMax)
    {block : Option DataBlock}
    (blockFits : ∀ stored, block = some stored → array.BlockFits view.sizes capacity stored)
    (held : ∀ stored, block = some stored →
      view.Holds stored.address (withChecksum (array.encodeDataBlock view.sizes stored)))
    (front : List Element) :
    appendDataBlock view (array.header view.sizes) (front.take array.maxIndexSet) sblk
        (block.map DataBlock.address) =
      .ok ((front ++ (run capacity block).map fun element => element.meant array.sizeWidth).take
        array.maxIndexSet) := by
  unfold appendDataBlock
  rw [header_maxIndexSet, header_dataBlockMinElements, capacity_eq]
  by_cases full : (front.take array.maxIndexSet).length ≥ array.maxIndexSet
  · rw [if_pos full, List.take_append_of_le_length]
    rw [List.length_take] at full
    exact (le_min_iff.mp full).2
  · have short : front.length < array.maxIndexSet := by
      rw [List.length_take] at full
      omega
    rw [if_neg full, List.take_of_length_le short.le, List.take_append, List.take_of_length_le short.le]
    dsimp only
    cases block with
    | none =>
      have unwritten : (List.replicate capacity Element.unwritten).map (fun element =>
          element.meant array.sizeWidth) = List.replicate capacity Element.unwritten := by
        rw [List.map_replicate]
        cases array.sizeWidth <;> rfl
      dsimp only [Option.map_none, run]
      rw [unwritten, List.take_replicate, Nat.min_comm]
    | some stored =>
      have length := (blockFits stored rfl).length
      have small : min capacity (array.maxIndexSet - front.length) * 24 ≤ isizeMax :=
        (Nat.mul_le_mul_right 24 (Nat.min_le_left _ _)).trans few
      have found := readDataBlock_eq fits (blockFits stored rfl) (held stored rfl) (Nat.min_le_left _ _) small
      have cut : ∀ n, (stored.elements.map fun element => element.meant array.sizeWidth).take (min capacity n) =
          (stored.elements.map fun element => element.meant array.sizeWidth).take n := by
        intro n
        rw [List.take_eq_take_iff, List.length_map, length]
        omega
      dsimp only [Option.map_some, run]
      rw [found, Outcome.ok_bind, cut]

theorem indexBlock_length (fits : array.Fits sizes) : (array.encodeIndexBlock sizes).length =
    4 + 1 + 1 + sizes.offset + array.inline.length * array.sizeWidth.entrySize sizes +
      (sblkFirstIdx + (1 + (array.maxNelmtsBits - Nat.log2 array.minElements))) * sizes.offset := by
  have addresses : (array.addresses.flatMap (encodeAddress sizes)).length =
      array.addresses.length * sizes.offset := by
    rw [List.length_flatMap, List.map_congr_left fun address _ => encodeAddress_length sizes address,
      List.map_const', List.sum_replicate_nat]
  have count : array.addresses.length =
      sblkFirstIdx + (1 + (array.maxNelmtsBits - Nat.log2 array.minElements)) := by
    rw [ExtensibleArray.addresses, List.length_cons, List.length_cons, fits.others, sblkFirstIdx]
    omega
  simp only [encodeIndexBlock, encodeIndexBlockStart, encodeElements, List.length_append, littleEndian_length,
    encodeAddress_length, flatMap_encode_length, addresses, count]
  change 4 + _ + _ = _
  omega

theorem indexBlockLen_eq (build : Build) (fits : array.Fits sizes)
    (small : (array.encodeIndexBlock sizes).length + 4 ≤ isizeMax) :
    indexBlockLen build sizes (array.header sizes) = .ok ((array.encodeIndexBlock sizes).length + 4) := by
  have bounded := isizeMax_lt_wordSize
  have bits := fits.maxNelmtsBits
  rw [indexBlock_length fits] at small ⊢
  unfold indexBlockLen
  simp only [header_maxNelmtsBits, header_dataBlockMinElements, header_indexBlockElements, header_elementSize,
    Build.add, Build.mul]
  rw [Build.sub_of_le build fits.minBits, Outcome.ok_bind]
  have word : (256 : Nat) ^ 1 + 3 < wordSize := by decide
  simp only [sblkFirstIdx] at small ⊢
  rw [Build.word_of_lt build (by omega), Outcome.ok_bind, Build.word_of_lt build (by omega), Outcome.ok_bind,
    Build.word_of_lt build (by omega), Outcome.ok_bind, Build.word_of_lt build (by omega), Outcome.ok_bind,
    Build.word_of_lt build (by omega), Outcome.ok_bind, Build.word_of_lt build (by omega), Outcome.ok_bind,
    Build.word_of_lt build (by omega)]

theorem reads_inline (fits : array.Fits sizes) :
    Reads (readInline sizes (array.header sizes)) (array.encodeElements sizes array.inline)
      ((array.inline.map fun element => element.meant array.sizeWidth).take array.maxIndexSet) := by
  have few : min array.inline.length array.maxIndexSet * 24 ≤ isizeMax := by
    have count := fits.inlineCount
    have room : (256 : Nat) ^ 1 * 24 ≤ isizeMax := by decide
    exact (Nat.mul_le_mul_right 24 ((Nat.min_le_left _ _).trans count.le)).trans room
  have front := reads_front fits fits.inline (Nat.min_le_left _ array.maxIndexSet) few
  have rest := Cursor.reads_skip (array.encodeElements sizes (array.inline.drop
    (min array.inline.length array.maxIndexSet)))
  have cut : (array.inline.map fun element => element.meant array.sizeWidth).take
      (min array.inline.length array.maxIndexSet) =
        (array.inline.map fun element => element.meant array.sizeWidth).take array.maxIndexSet := by
    rw [List.take_eq_take_iff, List.length_map]
    omega
  rw [encodeElements, flatMap_encode_length, List.length_drop] at rest
  rw [encodeElements_split array.inline (min array.inline.length array.maxIndexSet), ← cut]
  exact front.bind (rest.bind_pure fun _ => _)

theorem reads_addresses (fits : array.Fits sizes) :
    Reads (Format.times (Cursor.address sizes) sblkFirstIdx)
      ([array.first.map DataBlock.address, array.second.map DataBlock.address].flatMap (encodeAddress sizes))
      [array.first.map DataBlock.address, array.second.map DataBlock.address] := by
  have each : ∀ address ∈ [array.first.map DataBlock.address, array.second.map DataBlock.address],
      Reads (Cursor.address sizes) (encodeAddress sizes address) (id address) := by
    intro address member
    refine reads_address fits.widths.offset_le (fits.addresses address ?_)
    rw [ExtensibleArray.addresses]
    simp only [List.mem_cons, List.not_mem_nil, or_false] at member ⊢
    exact member.imp id .inl
  exact Reads.times each

def readBack (array : ExtensibleArray) : List Element :=
  array.elements.map fun element => element.meant array.sizeWidth

theorem whole_length (fits : array.Fits sizes) :
    array.whole.length = array.inline.length + 3 * array.minElements := by
  have each : ∀ capacity block, (∀ stored, block = some stored → array.BlockFits sizes capacity stored) →
      (run capacity block).length = capacity := by
    intro capacity block blockFits
    cases block with
    | none => exact List.length_replicate ..
    | some stored => exact (blockFits stored rfl).length
  rw [whole, List.length_append, List.length_append, each _ _ fits.first, each _ _ fits.second]
  omega

theorem readDataBlocks_eq {view : View} (fits : array.Fits view.sizes) (held : array.Held view) :
    readDataBlocks view (array.header view.sizes)
        ((array.inline.map fun element => element.meant array.sizeWidth).take array.maxIndexSet)
        [array.first.map DataBlock.address, array.second.map DataBlock.address] =
      .ok ((array.whole.map fun element => element.meant array.sizeWidth).take array.maxIndexSet) := by
  have bound : (256 : Nat) ^ 1 * 2 * 24 ≤ isizeMax := by decide
  have min_ := fits.minElements.2
  have one := @appendDataBlock_eq array view fits 0 array.minElements (Nat.mul_one _) (by omega) _ fits.first
    fun stored found => held.dataBlocks stored (.inl found)
  have two := @appendDataBlock_eq array view fits 1 (array.minElements * 2) rfl (by omega) _ fits.second
    fun stored found => held.dataBlocks stored (.inr found)
  have full : ¬ ((array.whole.map fun element => element.meant array.sizeWidth).take array.maxIndexSet).length <
      array.maxIndexSet := by
    rw [List.length_take, List.length_map, whole_length fits]
    have direct := fits.direct
    omega
  have folded : (appendDataBlock view (array.header view.sizes)
        ((array.inline.map fun element => element.meant array.sizeWidth).take array.maxIndexSet) 0
        (array.first.map DataBlock.address) >>= fun out =>
      appendDataBlock view (array.header view.sizes) out 1 (array.second.map DataBlock.address) >>= fun out =>
        Outcome.ok out) =
        .ok ((array.whole.map fun element => element.meant array.sizeWidth).take array.maxIndexSet) := by
    rw [one, Outcome.ok_bind, two, Outcome.ok_bind, whole, List.map_append, List.map_append, List.append_assoc]
  unfold readDataBlocks
  refine (congrArg (· >>= _) folded).trans ?_
  rw [Outcome.ok_bind, header_maxIndexSet, if_neg full]

theorem readIndexBlock_eq (build : Build) {view : View} (fits : array.Fits view.sizes) (held : array.Held view)
    {address : Nat} (allocated : array.indexBlockAddress = some address) :
    readIndexBlock build view (array.header view.sizes) address =
      .ok ((array.whole.map fun element => element.meant array.sizeWidth).take array.maxIndexSet) := by
  have block := held.indexBlock address allocated
  have small := block.inside.le_isizeMax
  have read := block.read
  rw [withChecksum_length] at small read
  have checked := verifyChecksum_withChecksum (array.encodeIndexBlock view.sizes) "extensible array index block"
  have skipped := parse_withChecksum (@reads_indexBlockStart array view.sizes)
    (array.encodeElements view.sizes array.inline ++ array.addresses.flatMap (encodeAddress view.sizes))
  rw [← encodeIndexBlock] at skipped
  unfold readIndexBlock
  rw [indexBlockLen_eq build fits small, Outcome.ok_bind, read, Outcome.ok_bind, skipped]
  dsimp only
  rw [Outcome.ok_bind, Nat.add_sub_cancel, checked, Outcome.ok_bind]
  -- What follows the inline elements: two addresses of data blocks, then others that are not read.
  have buffer : withChecksum (array.encodeIndexBlock view.sizes) =
      array.encodeIndexBlockStart view.sizes ++ array.encodeElements view.sizes array.inline ++
        ([array.first.map DataBlock.address, array.second.map DataBlock.address].flatMap
          (encodeAddress view.sizes) ++ (array.others.flatMap (encodeAddress view.sizes) ++
            littleEndian 4 (Checksum.metadata (array.encodeIndexBlock view.sizes)).toNat)) := by
    rw [withChecksum, encodeIndexBlock, ExtensibleArray.addresses]
    simp only [List.flatMap_cons, List.flatMap_nil, List.append_assoc, List.append_nil]
  have inline := reads_inline fits (array.encodeIndexBlockStart view.sizes)
    ([array.first.map DataBlock.address, array.second.map DataBlock.address].flatMap
      (encodeAddress view.sizes) ++ (array.others.flatMap (encodeAddress view.sizes) ++
        littleEndian 4 (Checksum.metadata (array.encodeIndexBlock view.sizes)).toNat))
  have addresses := reads_addresses fits
    (array.encodeIndexBlockStart view.sizes ++ array.encodeElements view.sizes array.inline)
    (array.others.flatMap (encodeAddress view.sizes) ++
      littleEndian 4 (Checksum.metadata (array.encodeIndexBlock view.sizes)).toNat)
  rw [buffer, inline]
  dsimp only
  rw [Outcome.ok_bind, header_maxIndexSet]
  split
  · next full =>
    rw [List.length_take, List.length_map] at full
    rw [whole, List.map_append, List.take_append_of_le_length]
    rw [List.length_map]
    exact (le_min_iff.mp full).2
  · rw [List.append_assoc (array.encodeIndexBlockStart view.sizes ++ _),
      @List.length_append _ (array.encodeIndexBlockStart view.sizes)] at addresses
    rw [addresses, Outcome.ok_bind]
    exact readDataBlocks_eq fits held

theorem header_length (fits : array.Fits sizes) : (array.encodeHeader sizes).length + 4 =
    4 + 1 + 1 + 1 + 1 + 1 + 1 + 1 + 1 + sizes.length * 6 + sizes.offset + 4 := by
  have statistics : (array.statistics.flatMap (littleEndian sizes.length)).length = 4 * sizes.length := by
    rw [List.length_flatMap, List.map_congr_left fun n _ => littleEndian_length sizes.length n,
      List.map_const', List.sum_replicate_nat, fits.statistics.1]
  simp only [encodeHeader, List.length_append, littleEndian_length, encodeAddress_length, statistics]
  change 4 + _ + 4 = _
  omega

theorem entrySize_pos {sizeWidth : SizeWidth} (valid : sizes.Valid) : 0 < sizeWidth.entrySize sizes := by
  have listed := valid.offset
  simp only [List.mem_cons, List.not_mem_nil, or_false] at listed
  cases sizeWidth with
  | none =>
    change 0 < sizes.offset
    omega
  | some width =>
    change 0 < sizes.offset + 4 + width
    omega

/-- An array within its directly addressed data blocks is read back whole. -/
theorem readExtensibleArray_eq (build : Build) {view : View} (fits : array.Fits view.sizes)
    (held : array.Held view) :
    readExtensibleArray build view array.headerAddress = .ok array.readBack := by
  have read := held.header.read
  have checked := verifyChecksum_withChecksum (array.encodeHeader view.sizes) "extensible array header"
  have length := header_length fits
  have parsed := parse_withChecksum (reads_header fits) []
  rw [withChecksum_length, length] at read
  rw [List.append_nil] at parsed
  unfold readExtensibleArray
  dsimp only
  rw [read, Outcome.ok_bind, parsed, Outcome.ok_bind, ← length, Nat.add_sub_cancel, checked, Outcome.ok_bind]
  have shaped : ¬ (array.sizeWidth.entrySize view.sizes = 0 ∨ array.minElements = 0) := by
    have entry := @entrySize_pos view.sizes array.sizeWidth fits.widths
    have block := fits.minElements.1
    omega
  rw [header_indexBlockAddress]
  unfold readBack elements
  cases allocated : array.indexBlockAddress with
  | none => rfl
  | some address =>
    dsimp only
    rw [header_elementSize, header_dataBlockMinElements, if_neg shaped,
      readIndexBlock_eq build fits held allocated, List.map_take]

theorem storedAt_readBack (index : Nat) : storedAt array.readBack index = storedAt array.elements index := by
  unfold storedAt readBack
  rw [List.getElem?_map]
  cases array.elements[index]? with
  | none => rfl
  | some element => exact Element.meant_address element array.sizeWidth

end ExtensibleArray

end ExtensibleArray

end Oxcdf.ChunkIndex
