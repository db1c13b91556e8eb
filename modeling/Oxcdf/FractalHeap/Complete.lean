import Oxcdf.FractalHeap.Loaded

/-! When a heap is loaded whole, so that every managed object is found by its ID. -/

set_option autoImplicit false

namespace Oxcdf.FractalHeap

open Foundation Foundation.Buffer Foundation.Format Foundation.Doubling

namespace StoredHeap

variable {heap : StoredHeap} {sizes : Sizes} {view : View} {build : Build}

section Conditions

/-- The table of the root, if the root is an indirect block. -/
def rootChildren (heap : StoredHeap) : List (Option StoredBlock) :=
  match heap.root with
  | some (.indirect _ children) => children
  | _ => []

/-- An indirect block stands at a place of the root's table. -/
def HasChild (heap : StoredHeap) (entry address : Nat) : Prop :=
  ∃ children, heap.rootChildren[entry]? = some (some (.indirect address children))

/-- What the reader of a heap relies on: not implausibly many blocks, no indirect block
below the root unless a row is as wide as the largest direct block twice, and a
largest direct block that a checked build can double. -/
structure Readable (build : Build) (heap : StoredHeap) (sizes : Sizes) : Prop where
  few : (heap.blocks sizes).length ≤ maxBlocks + 1
  aligned : (∃ entry address, heap.HasChild entry address) →
    2 * heap.maxDirectBlockSize = heap.tableWidth * heap.startingBlockSize
  shifts : build = .debug → heap.rootChildren ≠ [] → 2 * heap.maxDirectBlockSize < wordSize

/-- The heap is loaded with every allocated direct block once, and each managed object
is found by its ID. -/
def Complete (build : Build) (view : View) (heap : StoredHeap) : Prop :=
  ∃ found, read build view heap.headerAddress = .ok found ∧ found.blocks = heap.blocks view.sizes ∧
    ∀ offset bytes, heap.Stores view.sizes offset bytes → bytes.length < 256 ^ heap.lengthSize →
      get build found (heap.heapId offset bytes.length) = .ok bytes

theorem two_mul_maxDirect (heap : StoredHeap) : 2 * heap.maxDirectBlockSize = 2 ^ (heap.maxDirectBits + 1) :=
  (Nat.pow_succ' ..).symm

theorem aligned_iff : 2 * heap.maxDirectBlockSize = heap.tableWidth * heap.startingBlockSize ↔
    heap.maxDirectBits + 1 = heap.widthBits + heap.startBits := by
  rw [two_mul_maxDirect, tableWidth, startingBlockSize, ← Nat.pow_add]
  exact Nat.pow_right_inj (by decide)

theorem shifts_iff : 2 * heap.maxDirectBlockSize < wordSize ↔ heap.maxDirectBits < 63 := by
  rw [two_mul_maxDirect, wordSize, Nat.pow_lt_pow_iff_right (by decide)]
  exact Nat.succ_lt_succ_iff

theorem maxDirectBits_le (fits : heap.Fits sizes) : heap.maxDirectBits ≤ 63 := by
  have word : 2 ^ heap.maxDirectBits < 2 ^ 64 :=
    lt_of_lt_of_le fits.maxDirectBlockSize (Nat.pow_le_pow_right (by decide) fits.widths.length_le)
  exact Nat.le_of_lt_succ ((Nat.pow_lt_pow_iff_right (by decide)).mp word)

end Conditions

section Root

variable {address : Nat} {children : List (Option StoredBlock)}

theorem managedSpace_of_root (root : heap.root = some (.indirect address children)) :
    heap.managedSpace = heap.span heap.rootRows := by
  unfold managedSpace
  rw [root]

theorem rootChildren_of_root (root : heap.root = some (.indirect address children)) :
    heap.rootChildren = children := by
  unfold rootChildren
  rw [root]

theorem rootRows_le (fits : heap.Fits sizes) (root : heap.root = some (.indirect address children)) :
    heap.widthBits + heap.startBits + heap.rootRows ≤ 64 := by
  have some_ := (fits.root _ root).1
  have word := managedSpace_lt fits
  rw [managedSpace_of_root root, span, span_of_pos _ _ some_, tableWidth, startingBlockSize, ← Nat.pow_add,
    ← Nat.pow_add] at word
  have bits := (Nat.pow_lt_pow_iff_right (by decide)).mp (word : _ < 2 ^ 64)
  omega

theorem exists_counted (fits : heap.Fits sizes) (root : heap.root = some (.indirect address children))
    (shifts : build = .debug → 2 * heap.maxDirectBlockSize < wordSize) :
    ∃ maxDirectRows, heap.header.maxDirectRows build = .ok maxDirectRows ∧
      heap.Separates maxDirectRows heap.rootRows := by
  have ordered := fits.ordered
  have rows := rootRows_le fits root
  have most := maxDirectBits_le fits
  by_cases half : heap.maxDirectBits < 63
  · refine ⟨_, maxDirectRows_eq fits half, fun row _ => ?_⟩
    rw [rowSize_le_iff]
    omega
  · have full : heap.maxDirectBits = 63 := by omega
    cases build with
    | debug => exact absurd (shifts_iff.mp (shifts rfl)) half
    | release =>
      refine ⟨_, maxDirectRows_release fits full, fun row before => ?_⟩
      rw [rowSize_le_iff]
      omega

theorem header_root {block : StoredBlock} (root : heap.root = some block) :
    heap.header.rootBlockAddress = some block.address :=
  congrArg (Option.map StoredBlock.address) root

theorem readRoot_eq (fits : heap.Fits view.sizes) (held : heap.Held view)
    (aligned : (∃ entry address, heap.HasChild entry address) →
      2 * heap.maxDirectBlockSize = heap.tableWidth * heap.startingBlockSize)
    (shifts : build = .debug → heap.rootChildren ≠ [] → 2 * heap.maxDirectBlockSize < wordSize) :
    readRoot build view heap.header = pushAll [] (heap.blocks view.sizes) := by
  unfold readRoot blocks
  cases root : heap.root with
  | none =>
    rw [show heap.header.rootBlockAddress = none from congrArg (Option.map StoredBlock.address) root]
    rfl
  | some block =>
    rw [header_root root]
    have shape := fits.root block root
    have stands := held.root block root
    cases block with
    | direct address payload =>
      obtain ⟨single, fills⟩ := shape
      cases fills with
      | direct named small whole =>
        cases stands with
        | direct block =>
          have space : 0 + heap.startingBlockSize ≤ heap.managedSpace := by
            unfold managedSpace
            rw [root, Nat.zero_add]
          change (if heap.rootRows = 0 then _ else _) = _
          rw [if_pos single]
          exact (readDirectBlock_eq fits block whole space []).trans (pushAll_singleton _ _).symm
    | indirect address children =>
      obtain ⟨some_, named, long, inner⟩ := shape
      have known := rootChildren_of_root root
      have table : children ≠ [] := by
        rintro rfl
        have positive := Nat.mul_pos some_ heap.tableWidth_pos
        rw [← long] at positive
        exact absurd positive (Nat.lt_irrefl 0)
      -- The code tells the rows of direct blocks from the others as the heap does.
      obtain ⟨maxDirectRows, counted, separates⟩ := exists_counted fits root fun debug =>
        shifts debug (known ▸ table)
      have rows := rootRows_le fits root
      have inside : 0 + heap.span heap.rootRows ≤ heap.managedSpace := by
        rw [managedSpace_of_root root, Nat.zero_add]
      change (if heap.rootRows = 0 then _ else _) = _
      rw [if_neg (Nat.ne_of_gt some_)]
      change readIndirectBlock build view heap.header (64 + 1) address heap.rootRows [] =
        pushAll [] (heap.loadedFrom view.sizes 0 0 children)
      have aligned : ∀ (entry address : Nat) later, children[entry]? = some (some (.indirect address later)) →
          heap.maxDirectBits + 1 = heap.widthBits + heap.startBits := fun entry child later there =>
        aligned_iff.mp (aligned ⟨entry, child, later, known ▸ there⟩)
      apply readIndirectBlock_of_loads fits counted separates (Nat.le_refl _)
        (by omega) long inner aligned _ stands inside
      intro entry child there
      cases child with
      | direct address payload =>
        intro _ _ _ _ _ same
        cases same
      | indirect address later =>
        exact fills_loads fits counted separates (aligned entry address later there) (inner entry _ there)

end Root

section Objects

theorem read_eq (fits : heap.Fits view.sizes) (held : heap.Held view) :
    read build view heap.headerAddress =
      readRoot build view heap.header >>= fun blocks =>
        .ok ⟨sortBlocks blocks, heap.managedObjectCount, heap.heapIdLen, heap.offsetSize⟩ := by
  rw [read, read_header fits held, Outcome.ok_bind]
  rfl

/-- Blocks one after the other, all within 64 bits, are searched without overflow. -/
theorem findObject_eq {base stop : Nat} {blocks : HeapBlocks} (laid : Extents.Laid base stop blocks)
    (word : stop < wordSize) (offset length : Nat) :
    findObject build offset length blocks =
      match Extents.find offset blocks with
      | none => .error (.malformed s!"fractal heap offset {offset} falls in no direct block")
      | some (start, payload) => build.add (offset - start) length >>= fun last =>
        if last > payload.length then
          .error (.malformed "fractal heap object runs past the end of its direct block")
        else range payload (offset - start) last := by
  induction blocks generalizing base with
  | nil => rfl
  | cons block blocks ih =>
    obtain ⟨start, payload⟩ := block
    have ends := laid.2.le
    dsimp only at ends
    rw [findObject, Build.add, Build.word_of_lt build (by omega), Outcome.ok_bind]
    by_cases inside : start ≤ offset ∧ offset < start + payload.length
    · rw [if_pos inside, Extents.find, List.find?_cons_of_pos (by simpa using inside)]
    · rw [if_neg inside, ih laid.2, Extents.find, Extents.find, List.find?_cons_of_neg (by simpa using inside)]

theorem findObject_of_mem {base stop : Nat} {blocks : HeapBlocks} (laid : Extents.Laid base stop blocks)
    (word : stop < wordSize) {block : Nat × Bytes} (member : block ∈ blocks) {skip length : Nat}
    (inside : skip + length ≤ block.2.length) (some_ : 0 < length) :
    findObject build (block.1 + skip) length blocks = .ok (slice block.2 skip length) := by
  have ends := (laid.bounds block member).2
  rw [findObject_eq laid word, laid.find_eq member (Nat.le_add_right _ _) (by omega)]
  change (build.add (block.1 + skip - block.1) length >>= _) = _
  rw [Nat.add_sub_cancel_left, Build.add, Build.word_of_lt build (by omega), Outcome.ok_bind]
  rw [if_neg (Nat.not_lt.mpr inside), range_of_le _ inside]

theorem reads_heapId (fits : heap.Fits sizes) {offset length : Nat} (before : offset < 256 ^ heap.offsetSize)
    (short : length < 256 ^ heap.lengthSize) :
    Reads (parseHeapId heap.offsetSize heap.lengthSize)
      (littleEndian heap.offsetSize offset ++ littleEndian heap.lengthSize length) (offset, length) := by
  have narrow := offsetSize_le fits
  have small := fits.lengthSize
  unfold parseHeapId
  rw [Nat.mod_eq_of_lt (by omega : heap.offsetSize < 256), Nat.mod_eq_of_lt (by omega : heap.lengthSize < 256)]
  exact (Cursor.reads_uint narrow before).bind ((Cursor.reads_uint small short).bind_pure _)

/-- The heap with every direct block loaded. -/
def inMemory (heap : StoredHeap) (sizes : Sizes) : FractalHeap :=
  ⟨heap.blocks sizes, heap.managedObjectCount, heap.heapIdLen, heap.offsetSize⟩

/-- A heap ID is resolved to the bytes at its offset, whatever stands behind it. -/
theorem get_eq (fits : heap.Fits sizes) (blocks : HeapBlocks) {offset length : Nat}
    (before : offset < 256 ^ heap.offsetSize) (short : length < 256 ^ heap.lengthSize) (rest : Bytes) :
    get build ⟨blocks, heap.managedObjectCount, heap.heapIdLen, heap.offsetSize⟩
        (heap.heapId offset length ++ rest) =
      findObject build offset length blocks := by
  have long : heap.heapIdLen ≤ (heap.heapId offset length ++ rest).length := by
    unfold heapId heapIdLen
    simp only [List.length_append, littleEndian_length]
    omega
  have flags : (range (heap.heapId offset length ++ rest) 0 1 : Code Bytes) = .ok [0] := rfl
  have front : (build.sub heap.heapIdLen 1 : Code Nat) = .ok (heap.offsetSize + heap.lengthSize) := by
    have some_ : 1 ≤ heap.heapIdLen := by
      unfold heapIdLen
      omega
    rw [Build.sub_of_le build some_, heapIdLen, Nat.add_assoc, Nat.add_sub_cancel_left]
  have lengthSize : (build.sub (heap.offsetSize + heap.lengthSize) heap.offsetSize : Code Nat) =
    .ok heap.lengthSize := by
    rw [Build.sub_of_le build (Nat.le_add_right _ _), Nat.add_sub_cancel_left]
  have parsed := reads_heapId fits before short [0] rest
  have found : (parseHeapId heap.offsetSize heap.lengthSize
      (Cursor.startAt (heap.heapId offset length ++ rest) 1)).1 = .ok (offset, length) :=
    congrArg Prod.fst parsed
  unfold get
  rw [if_neg (Nat.not_lt.mpr long), flags, Outcome.ok_bind]
  dsimp only
  rw [if_neg (by decide), front, Outcome.ok_bind, lengthSize, Outcome.ok_bind, found, Outcome.ok_bind]

/-- A managed object is found by its ID. -/
theorem get_of_stores (fits : heap.Fits sizes) {offset : Nat} {bytes : Bytes}
    (stores : heap.Stores sizes offset bytes) (short : bytes.length < 256 ^ heap.lengthSize) (rest : Bytes) :
    get build (heap.inMemory sizes) (heap.heapId offset bytes.length ++ rest) = .ok bytes := by
  obtain ⟨block, member, skip, rfl, inside, same, some_⟩ := stores
  have laid := blocks_laid fits
  have ends := (laid.bounds block member).2
  have positive := List.length_pos_iff.mpr some_
  rw [inMemory, get_eq fits _ (offset_fits fits (by omega)) short,
    findObject_of_mem laid (managedSpace_lt fits) member inside positive, same]

theorem read_of_readable (fits : heap.Fits view.sizes) (held : heap.Held view)
    (readable : heap.Readable build view.sizes) :
    read build view heap.headerAddress = .ok (heap.inMemory view.sizes) := by
  have few : ([] : HeapBlocks).length + (heap.blocks view.sizes).length ≤ maxBlocks + 1 := by
    rw [List.length_nil, Nat.zero_add]
    exact readable.few
  rw [read_eq fits held, readRoot_eq fits held readable.aligned readable.shifts, pushAll_of_le few,
    List.nil_append, Outcome.ok_bind, sortBlocks_eq fits, inMemory]

theorem complete_of_readable (fits : heap.Fits view.sizes) (held : heap.Held view)
    (readable : heap.Readable build view.sizes) : heap.Complete build view := by
  refine ⟨heap.inMemory view.sizes, read_of_readable fits held readable, rfl, ?_⟩
  intro offset bytes stores short
  have found := @get_of_stores heap view.sizes build fits offset bytes stores short []
  rwa [List.append_nil] at found

end Objects

section Mistaken

def countedRows (heap : StoredHeap) (entry : Nat) : Nat :=
  entry / heap.tableWidth - (heap.maxDirectBits - heap.startBits + 2) + 1

/-- How long an indirect block of some rows is. -/
def lengthOf (heap : StoredHeap) (sizes : Sizes) (rows : Nat) : Nat :=
  let maxDirectRows := heap.maxDirectBits - heap.startBits + 2
  indirectBlockLen heap.header sizes (min rows maxDirectRows * heap.tableWidth)
    ((rows - maxDirectRows) * heap.tableWidth)

/-- Where the rows of the blocks below the root are counted wrong, no checksum matches
by coincidence. -/
def Detected (view : View) (heap : StoredHeap) : Prop :=
  2 * heap.maxDirectBlockSize ≠ heap.tableWidth * heap.startingBlockSize →
    ∀ entry address, heap.HasChild entry address → ∀ block,
      view.read address (heap.lengthOf view.sizes (heap.countedRows entry)) = .ok block →
        verifyChecksum block (block.length - 4) "fractal heap indirect block" ≠ .ok ()

theorem visitAll_ne_ok {visit : Nat → Nat → HeapBlocks → Code HeapBlocks}
    {children : List (Option Nat)} {i a : Nat}
    (there : children[i]? = some (some a)) {entry : Nat}
    (fails : ∀ out kept, visit (entry + i) a out ≠ .ok kept)
    (out kept : HeapBlocks) : visitAll visit entry children out ≠ .ok kept := by
  induction children generalizing i entry out with
  | nil => exact absurd there nofun
  | cons child children ih =>
    intro visited
    cases i with
    | zero =>
      obtain rfl : child = some a := Option.some.inj there
      obtain ⟨next, here, -⟩ := Outcome.bind_eq_ok.mp visited
      exact fails out next here
    | succ i =>
      rw [Nat.add_succ, ← Nat.succ_add] at fails
      cases child with
      | none => exact ih there fails out visited
      | some other =>
        obtain ⟨next, -, later⟩ := Outcome.bind_eq_ok.mp visited
        exact ih there fails next later

theorem readIndirectBlock_ne_ok {maxDirectRows address rows : Nat}
    (counted : heap.header.maxDirectRows build = .ok maxDirectRows)
    (refused : ∀ block, view.read address (indirectBlockLen heap.header view.sizes
      (min rows maxDirectRows * heap.tableWidth) ((rows - maxDirectRows) * heap.tableWidth)) = .ok block →
        verifyChecksum block (block.length - 4) "fractal heap indirect block" ≠ .ok ())
    (levels : Nat) (out kept : HeapBlocks) :
    readIndirectBlock build view heap.header levels address rows out ≠ .ok kept := by
  cases levels with
  | zero => exact nofun
  | succ levels =>
    intro done
    rw [readIndirectBlock, counted, Outcome.ok_bind] at done
    obtain ⟨block, read, done⟩ := Outcome.bind_eq_ok.mp done
    obtain ⟨-, -, done⟩ := Outcome.bind_eq_ok.mp done
    obtain ⟨_, verified, -⟩ := Outcome.bind_eq_ok.mp done
    exact refused block read verified

variable {address : Nat} {children : List (Option StoredBlock)}

theorem readRoot_of_indirect (fits : heap.Fits sizes) (root : heap.root = some (.indirect address children)) :
    readRoot build view heap.header =
      readIndirectBlock build view heap.header maxLevels address heap.rootRows [] := by
  have rows : heap.rootRows ≠ 0 := Nat.ne_of_gt (fits.root _ root).1
  unfold readRoot
  rw [header_root root]
  exact if_neg rows

theorem root_of_children (some_ : heap.rootChildren ≠ []) :
    ∃ address, heap.root = some (.indirect address heap.rootChildren) := by
  unfold rootChildren at some_ ⊢
  split at some_
  · next address children root => exact ⟨address, root⟩
  · exact absurd rfl some_

/-- A child whose rows are counted wrong is not read, and neither is the heap. -/
theorem readRoot_mistaken (fits : heap.Fits view.sizes) (held : heap.Held view) (detected : heap.Detected view)
    (shifts : build = .debug → 2 * heap.maxDirectBlockSize < wordSize) {entry child : Nat}
    (hasChild : heap.HasChild entry child)
    (wrong : 2 * heap.maxDirectBlockSize ≠ heap.tableWidth * heap.startingBlockSize) (kept : HeapBlocks) :
    readRoot build view heap.header ≠ .ok kept := by
  obtain ⟨later, there⟩ := hasChild
  have some_ : heap.rootChildren ≠ [] := by
    intro none
    rw [none] at there
    exact absurd there nofun
  obtain ⟨address, root⟩ := root_of_children some_
  obtain ⟨positive, named, long, inner⟩ := fits.root _ root
  obtain ⟨maxDirectRows, counted, separates⟩ := exists_counted fits root shifts
  have bound := (List.getElem?_eq_some_iff.mp there).1
  have row : entry / heap.tableWidth < heap.rootRows := by
    rw [Nat.div_lt_iff_lt_mul heap.tableWidth_pos, ← long]
    exact bound
  have beyond : maxDirectRows ≤ entry / heap.tableWidth := by
    cases inner entry _ there with
    | indirect named large =>
      have after := mt (separates _ row).mp (Nat.not_le.mpr large)
      omega
  obtain rfl := separates.eq fits.ordered (Nat.lt_of_le_of_lt beyond row)
  have refused := detected wrong entry child ⟨later, there⟩
  have stands := held.root _ root
  obtain ⟨direct, indirect, parts, front, back⟩ :=
    split_table (heap.maxDirectBits - heap.startBits + 2) long
  rw [parts] at there stands inner
  have before : (heap.maxDirectBits - heap.startBits + 2) * heap.tableWidth ≤ entry :=
    (Nat.le_div_iff_mul_le heap.tableWidth_pos).mp beyond
  have full : direct.length = (heap.maxDirectBits - heap.startBits + 2) * heap.tableWidth := by
    rw [front, Nat.min_eq_right (by omega)]
  rw [List.getElem?_append_right (by omega)] at there
  have visited : (indirect.map (Option.map StoredBlock.address))[entry - direct.length]? =
    some (some child) := by
    rw [List.getElem?_map, there]
    rfl
  -- Its row among the rows of indirect blocks is what the code counts by.
  have counts : heap.maxDirectBits - heap.startBits + 2 + (entry - direct.length) / heap.tableWidth -
      (heap.maxDirectBits - heap.startBits + 2) + 1 = heap.countedRows entry := by
    rw [Nat.add_sub_cancel_left, full, Nat.mul_comm, Nat.sub_mul_div]
    rfl
  rw [readRoot_of_indirect fits root]
  cases stands with
  | indirect block below =>
    rw [maxLevels, readIndirectBlock_step fits counted block front back (children_named inner)]
    intro done
    obtain ⟨out, -, done⟩ := Outcome.bind_eq_ok.mp done
    refine visitAll_ne_ok visited (fun out kept => ?_) out kept done
    rw [Nat.zero_add]
    change readIndirectBlock build view heap.header _ child (_ + _ / heap.tableWidth - _ + 1) out ≠ _
    rw [counts]
    exact readIndirectBlock_ne_ok counted refused _ out kept

/-- A heap that is loaded is one that the reader can rely on. -/
theorem readable_of_read (fits : heap.Fits view.sizes) (held : heap.Held view)
    (detected : heap.Detected view) {found : FractalHeap}
    (done : read build view heap.headerAddress = .ok found) : heap.Readable build view.sizes := by
  rw [read_eq fits held] at done
  obtain ⟨kept, loaded, -⟩ := Outcome.bind_eq_ok.mp done
  have shifts : build = .debug → heap.rootChildren ≠ [] → 2 * heap.maxDirectBlockSize < wordSize := by
    rintro rfl some_
    by_contra large
    have full : heap.maxDirectBits = 63 := by
      have most := maxDirectBits_le fits
      have half := mt shifts_iff.mpr large
      omega
    obtain ⟨address, root⟩ := root_of_children some_
    rw [readRoot_of_indirect fits root, maxLevels, readIndirectBlock, maxDirectRows_debug fits full] at loaded
    cases loaded
  have aligned : (∃ entry address, heap.HasChild entry address) →
      2 * heap.maxDirectBlockSize = heap.tableWidth * heap.startingBlockSize := by
    rintro ⟨entry, child, hasChild⟩
    by_contra wrong
    have some_ : heap.rootChildren ≠ [] := by
      obtain ⟨later, there⟩ := hasChild
      intro none
      rw [none] at there
      cases there
    exact readRoot_mistaken fits held detected (fun debug => shifts debug some_) hasChild wrong kept loaded
  refine ⟨?_, aligned, shifts⟩
  rw [readRoot_eq fits held aligned shifts] at loaded
  by_cases none : heap.blocks view.sizes = []
  · rw [none]
    exact Nat.zero_le _
  · have few := length_le_of_pushAll loaded none
    rwa [List.length_nil, Nat.zero_add] at few

theorem readable_of_complete (fits : heap.Fits view.sizes) (held : heap.Held view)
    (detected : heap.Detected view) (complete : heap.Complete build view) :
    heap.Readable build view.sizes := by
  obtain ⟨found, done, -, -⟩ := complete
  exact readable_of_read fits held detected done

end Mistaken

/-- A stored heap is loaded whole, and its objects are found by their IDs, if it is
readable; and only then, where no checksum matches by coincidence. -/
theorem heap_complete (fits : heap.Fits view.sizes) (held : heap.Held view) :
    (heap.Readable build view.sizes → heap.Complete build view) ∧
      (heap.Detected view → heap.Complete build view → heap.Readable build view.sizes) :=
  ⟨complete_of_readable fits held, readable_of_complete fits held⟩

section Nested

/-! Heaps whose only block below the root is an indirect one with one object in it. -/

def eightBytes : Sizes := ⟨8, 8⟩

def nestedPayload : Bytes := [1, 2, 3] ++ List.replicate 492 0

/-- Addresses of blocks that stand one after the other. -/
def childAddress (row : Nat) : Nat := 146 + (32 * (row + 1) + 21)

def payloadAddress (row rows : Nat) : Nat := childAddress row + (32 * rows + 21)

def nestedChild (row rows : Nat) : List (Option StoredBlock) :=
  some (.direct (payloadAddress row rows) nestedPayload) :: List.replicate (4 * rows - 1) none

def nestedRoot (row rows : Nat) : List (Option StoredBlock) :=
  List.replicate (4 * row) none ++
    some (.indirect (childAddress row) (nestedChild row rows)) :: List.replicate 3 none

/-- A heap with rows of four blocks, which start with 512 bytes. -/
def nestedHeap (maxDirectBits row rows : Nat) : StoredHeap where
  headerAddress := 0
  widthBits := 2
  startBits := 9
  maxDirectBits
  maxHeapSizeBits := 32
  flags := 0
  lengthSize := 2
  managedObjectCount := 1
  rootRows := row + 1
  root := some (.indirect 146 (nestedRoot row rows))
  bookkeeping := {}

variable {maxDirectBits row rows : Nat}

theorem nestedChild_get {entry : Nat} {child : StoredBlock}
    (found : (nestedChild row rows)[entry]? = some (some child)) :
    entry = 0 ∧ child = .direct (payloadAddress row rows) nestedPayload := by
  cases entry with
  | zero => exact ⟨rfl, (Option.some.inj (Option.some.inj found)).symm⟩
  | succ entry =>
    rw [nestedChild, List.getElem?_cons_succ, List.getElem?_replicate] at found
    split at found <;> cases found

theorem nestedRoot_get {entry : Nat} {child : StoredBlock}
    (found : (nestedRoot row rows)[entry]? = some (some child)) :
    entry = 4 * row ∧ child = .indirect (childAddress row) (nestedChild row rows) := by
  unfold nestedRoot at found
  rcases Nat.lt_or_ge entry (4 * row) with before | after
  · rw [List.getElem?_append_left (by rwa [List.length_replicate]), List.getElem?_replicate,
      if_pos before] at found
    cases found
  · rw [List.getElem?_append_right (by rwa [List.length_replicate]), List.length_replicate] at found
    obtain ⟨later, rfl⟩ := Nat.exists_eq_add_of_le after
    rw [Nat.add_sub_cancel_left] at found
    cases later with
    | zero => exact ⟨rfl, (Option.some.inj (Option.some.inj found)).symm⟩
    | succ later =>
      rw [List.getElem?_cons_succ, List.getElem?_replicate] at found
      split at found <;> cases found

theorem nestedChild_length (some_ : 0 < rows) : (nestedChild row rows).length = rows * 4 := by
  rw [nestedChild, List.length_cons, List.length_replicate]
  omega

theorem nestedRoot_length : (nestedRoot row rows).length = (row + 1) * 4 := by
  rw [nestedRoot, List.length_append, List.length_cons, List.length_replicate, List.length_replicate]
  omega

theorem nestedPayload_length : nestedPayload.length = 495 := by
  rw [nestedPayload, List.length_append, List.length_replicate]
  rfl

theorem nested_headerLen : (nestedHeap maxDirectBits row rows).header.directBlockHeaderLen eightBytes = 17 := by
  simp [nestedHeap, Header.directBlockHeaderLen, Header.checksumsDirectBlocks, header, offsetSize, eightBytes]

/-- The block below the root has two rows less than the row it stands in, and a direct
block of that size would be too large. -/
theorem nested_fits (least : 9 ≤ maxDirectBits) (large : maxDirectBits < row + 8) (told : rows + 2 = row)
    (some_ : 0 < rows) (small : row ≤ 20) : (nestedHeap maxDirectBits row rows).Fits eightBytes := by
  have wide : (nestedHeap maxDirectBits row rows).tableWidth = 4 := rfl
  have space : (nestedHeap maxDirectBits row rows).managedSpace = 2 ^ (11 + row) := by
    change Doubling.span (2 ^ 2) (2 ^ 9) (row + 1) = _
    rw [span_succ, ← Nat.pow_add, ← Nat.pow_add]
  have first : (nestedHeap maxDirectBits row rows).rowSize (0 / 4) = 512 := rfl
  have place : (nestedHeap maxDirectBits row rows).rowSize (4 * row / 4) = 2 ^ (9 + (row - 1)) := by
    rw [Nat.mul_div_cancel_left _ (by decide), rowSize_eq]
    rfl
  have below : ∀ entry child, (nestedChild row rows)[entry]? = some (some child) →
      (nestedHeap maxDirectBits row rows).Fills eightBytes
        ((nestedHeap maxDirectBits row rows).rowSize (entry / 4)) child := by
    intro entry child found
    obtain ⟨rfl, rfl⟩ := nestedChild_get found
    rw [first]
    apply Fills.direct
    · change payloadAddress row rows < 2 ^ 64 - 1
      unfold payloadAddress childAddress
      omega
    · exact Nat.pow_le_pow_right (Nat.succ_pos 1) least
    · rw [nested_headerLen, nestedPayload_length]
  have covers : (nestedHeap maxDirectBits row rows).span rows = 2 ^ (9 + (row - 1)) := by
    rw [← rowSize_two]
    exact (span_eq_rowSize some_ (by omega)).mpr told
  constructor
  case widths => exact ⟨by decide, by decide⟩
  case headerAddress => exact (by decide : 0 < undefinedForWidth 8)
  case tableWidth => exact (by decide : 2 < 16)
  case ordered => exact least
  case maxDirectBlockSize => exact Nat.pow_lt_pow_right (by decide) (by omega : maxDirectBits < 64)
  case maxHeapSizeBits => exact (by decide : 32 ≤ 64)
  case flags => exact (by decide : 0 < 256 ^ 1)
  case lengthSize => exact (by decide : 2 ≤ 8)
  case managedObjectCount => exact (by decide : 1 < 256 ^ 8)
  case rootRows =>
    change row + 1 < 256 ^ 2
    omega
  case addressed =>
    rw [space]
    exact Nat.pow_le_pow_right (by decide) (by change 11 + row ≤ 32; omega)
  case managedSpace =>
    rw [space]
    exact Nat.pow_lt_pow_right (by decide) (by omega : 11 + row < 64)
  case root =>
    intro root same
    cases same
    refine ⟨Nat.succ_pos _, (by decide : 146 < undefinedForWidth 8), nestedRoot_length,
      fun entry child found => ?_⟩
    obtain ⟨rfl, rfl⟩ := nestedRoot_get found
    rw [wide, place]
    apply Fills.indirect _ _ some_ covers (nestedChild_length some_) below
    · change childAddress row < 2 ^ 64 - 1
      unfold childAddress
      omega
    · exact Nat.pow_lt_pow_right (by decide) (by omega : maxDirectBits < 9 + (row - 1))

/-- The header, the root, the block below it and its direct block, one after the other. -/
def nestedBytes (maxDirectBits row rows : Nat) : Bytes :=
  let heap := nestedHeap maxDirectBits row rows
  heap.encodeHeader eightBytes ++ (heap.encodeIndirect eightBytes 0 (nestedRoot row rows) ++
    (heap.encodeIndirect eightBytes (0 + heap.place (4 * row)) (nestedChild row rows) ++
      heap.encodeDirect eightBytes (0 + heap.place (4 * row) + heap.place 0) nestedPayload))

theorem nestedHeader_length : ((nestedHeap maxDirectBits row rows).encodeHeader eightBytes).length = 146 := by
  unfold encodeHeader encodeFields encodeAddress encodeStart
  simp only [withChecksum_length, List.length_append, littleEndian_length]
  rfl

theorem nestedFront_length {signature : Bytes} (four : signature.length = 4) (offset : Nat) :
    ((nestedHeap maxDirectBits row rows).encodeFront eightBytes signature offset).length = 17 := by
  rw [encodeFront_length four offset]
  simp [nestedHeap, offsetSize, eightBytes]

theorem nestedIndirect_length (offset : Nat) {children : List (Option StoredBlock)} {count : Nat}
    (long : children.length = count * 4) :
    ((nestedHeap maxDirectBits row rows).encodeIndirect eightBytes offset children).length =
      32 * count + 21 := by
  unfold encodeIndirect
  rw [withChecksum_length, List.length_append, nestedFront_length rfl, encodeChildren_length, long]
  change 17 + count * 4 * 8 + 4 = _
  omega

theorem nestedDirect_length (offset : Nat) :
    ((nestedHeap maxDirectBits row rows).encodeDirect eightBytes offset nestedPayload).length = 512 := by
  rw [encodeDirect_length, nested_headerLen, nestedPayload_length]

theorem nestedBytes_length (some_ : 0 < rows) (small : row ≤ 20) (told : rows + 2 = row) :
    (nestedBytes maxDirectBits row rows).length ≤ isizeMax := by
  have room : (nestedBytes maxDirectBits row rows).length = 32 * (row + 1) + 32 * rows + 700 := by
    unfold nestedBytes
    rw [List.length_append, List.length_append, List.length_append, nestedHeader_length,
      nestedIndirect_length 0 nestedRoot_length, nestedIndirect_length _ (nestedChild_length some_),
      nestedDirect_length]
    omega
  have few : 32 * (row + 1) + 32 * rows + 700 ≤ 2000 := by omega
  rw [room]
  exact Nat.le_trans few (by decide)

/-- A file with nothing but the heap in it. -/
def nestedView (maxDirectBits row rows : Nat) (some_ : 0 < rows) (small : row ≤ 20)
    (told : rows + 2 = row) : View where
  file := ⟨nestedBytes maxDirectBits row rows, nestedBytes_length some_ small told⟩
  baseAddress := 0
  sizes := eightBytes

theorem nested_held (some_ : 0 < rows) (small : row ≤ 20) (told : rows + 2 = row) :
    (nestedHeap maxDirectBits row rows).Held (nestedView maxDirectBits row rows some_ small told) := by
  obtain ⟨header, root, child, direct⟩ :=
    @View.holds_in_turn (nestedView maxDirectBits row rows some_ small told) _ _ _ _ rfl rfl
  rw [nestedHeader_length] at root
  rw [List.length_append, nestedHeader_length, nestedIndirect_length 0 nestedRoot_length] at child
  rw [List.length_append, List.length_append, nestedHeader_length, nestedIndirect_length 0 nestedRoot_length,
    nestedIndirect_length _ (nestedChild_length some_)] at direct
  constructor
  · exact header
  · intro block same
    cases same
    apply Stands.indirect root
    intro entry block found
    obtain ⟨rfl, rfl⟩ := nestedRoot_get found
    apply Stands.indirect child
    intro entry block found
    obtain ⟨rfl, rfl⟩ := nestedChild_get found
    exact Stands.direct direct

/-- The largest direct block of 1024 bytes is half a row of the root. -/
theorem heap_complete_nested :
    (nestedHeap 10 3 1).Complete .release (nestedView 10 3 1 (by decide) (by decide) (by decide)) := by
  have fits : (nestedHeap 10 3 1).Fits eightBytes :=
    nested_fits (by decide) (by decide) (by decide) (by decide) (by decide)
  have held := @nested_held 10 3 1 (by decide) (by decide) (by decide)
  apply (@heap_complete (nestedHeap 10 3 1) (nestedView 10 3 1 (by decide) (by decide) (by decide)) .release
    fits held).1
  constructor
  · decide
  · intro _
    rfl
  · nofun

/-- With the sizes that heaps of groups have by default, the block below a root of ten
rows has seven rows and is read as one of a single row. -/
theorem nested_by_default : ∃ some_ small told,
    (nestedHeap 16 9 7).Fits eightBytes ∧ (nestedHeap 16 9 7).Held (nestedView 16 9 7 some_ small told) ∧
      read .release (nestedView 16 9 7 some_ small told) 0 =
        .error (.checksumMismatch "fractal heap indirect block" 4294967295 2184133187) ∧
      ¬ (nestedHeap 16 9 7).Complete .release (nestedView 16 9 7 some_ small told) := by
  have failed : read .release (nestedView 16 9 7 (by decide) (by decide) (by decide)) 0 =
      .error (.checksumMismatch "fractal heap indirect block" 4294967295 2184133187) := by
    decide +kernel
  refine ⟨by decide, by decide, by decide, ?_, nested_held _ _ _, failed, ?_⟩
  · exact nested_fits (by decide) (by decide) (by decide) (by decide) (by decide)
  · rintro ⟨found, done, -⟩
    rw [show (nestedHeap 16 9 7).headerAddress = 0 from rfl, failed] at done
    cases done

end Nested

end StoredHeap

end Oxcdf.FractalHeap
