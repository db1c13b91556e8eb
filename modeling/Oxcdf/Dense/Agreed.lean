import Oxcdf.Dense.Enumerated

/-! When the links and the attributes that are read of dense storage are the live ones. -/

set_option autoImplicit false

namespace Oxcdf.Dense

open Foundation Foundation.Buffer Foundation.Format Foundation.Extents FractalHeap

section Indexed

variable {α : Type} {heap : StoredHeap} {tree : BtreeV2.StoredTree} {sizes : Sizes} {parse : Parse α}
  {skip : Nat} {live : List (LiveRecord α)} {build : Build}

theorem heapIdAfter_eq {front : Bytes} (rest : Bytes) :
    heapIdAfter front.length (front ++ rest) = .ok rest := by
  unfold heapIdAfter
  rw [range_eq_ok]
  refine ⟨by rw [List.length_append]; omega, Nat.le_refl _, ?_⟩
  simp [slice]

/-- The index names the live objects, and each is parsed as the record it is. -/
theorem walkIndexed_eq (describes : Describes heap tree sizes parse skip live) (fits : heap.Fits sizes)
    (recordType recordSize : Nat) :
    (heap.inMemory sizes).walkIndexed build ⟨recordType, recordSize, tree.records⟩ (heapIdAfter skip) parse =
      .ok (values (records live)) := by
  obtain ⟨-, stored, short, parsed, -, listed⟩ := describes
  unfold walkIndexed
  generalize tree.records = named at listed
  dsimp only
  induction listed with
  | nil => rfl
  | @cons record object named live names listed ih =>
    obtain ⟨front, rest, rfl, rfl⟩ := names
    obtain ⟨stands, others⟩ := List.forall_mem_cons.mp stored
    obtain ⟨fitting, small⟩ := List.forall_mem_cons.mp short
    obtain ⟨whole, each⟩ := List.forall_mem_cons.mp parsed
    have found := @StoredHeap.get_of_stores heap sizes build fits _ _ stands fitting rest
    rw [List.mapM_cons, heapIdAfter_eq, Outcome.ok_bind, found, Outcome.ok_bind, whole, Outcome.ok_bind,
      ih others small each]
    rfl

end Indexed

section Reading

variable {build : Build} {view : View} {heap : StoredHeap} {tree : BtreeV2.StoredTree}
  {layout : BtreeV2.NodeLayout} {sizes : Sizes}

/-- A heap and an index of its records, as a file holds them. -/
structure Stored (view : View) (heap : StoredHeap) (tree : BtreeV2.StoredTree)
    (layout : BtreeV2.NodeLayout) : Prop where
  fits : heap.Fits view.sizes
  held : heap.Held view
  treeFits : tree.Fits view.sizes layout
  treeHeld : tree.Held layout view
  widths : BtreeV2.NodeLayout.derive .release tree.nodeSize tree.recordSize tree.depth view.sizes.offset =
    .ok layout

/-- What is read of a heap and a tree that can be relied on: what the walk finds where that is all, and
what the index names elsewhere. -/
theorem read_eq_ok_iff {α β : Type} {parse : Parse α} {skip : Nat} {live : List (LiveRecord α)} {what : String}
    (stored : Stored view heap tree layout) (describes : Describes heap tree view.sizes parse skip live)
    (readable : heap.Readable build view.sizes) (delimits : SelfDelimiting parse)
    {next : FractalHeap → List α × Bool → Code β} {later : List α → BtreeV2 → Code β} (wrap : List α → β)
    (wraps : Function.Injective wrap)
    (complete : ∀ found, next (heap.inMemory view.sizes) (found, true) = .ok (wrap found))
    (gaps : ∀ found, next (heap.inMemory view.sizes) (found, false) =
      BtreeV2.read build view tree.address >>= later found)
    (indexed : ∀ found btree listed,
      (heap.inMemory view.sizes).walkIndexed build btree (heapIdAfter skip) parse = .ok listed →
        later found btree = .ok (wrap listed)) {out : List α} :
    (FractalHeap.read build view heap.headerAddress >>= fun heap =>
        heap.walkLenient what parse >>= next heap) = .ok (wrap out) ↔
      Yields heap tree view.sizes parse live build out := by
  rw [StoredHeap.read_of_readable stored.fits stored.held readable, Outcome.ok_bind,
    walkLenient_bind_eq_ok delimits]
  refine exists_congr fun found => and_congr_right fun met => ?_
  have limit : found.length ≤ heap.managedObjectCount := met.length_le
  change next _ (_, decide (found.length = heap.managedObjectCount)) = _ ↔ _
  rcases Nat.lt_or_eq_of_le limit with short | whole
  -- The walk has met a gap: the index is followed.
  · have fewer := Nat.ne_of_lt short
    have named := indexed (values found) _ _ (walkIndexed_eq describes stored.fits tree.recordType tree.recordSize)
    rw [decide_eq_false fewer, gaps, BtreeV2.read_bind_eq_ok stored.treeFits stored.treeHeld stored.widths, named,
      Outcome.ok.injEq, wraps.eq_iff]
    simp only [fewer, short, false_and, true_and, false_or, eq_comm]
  · rw [decide_eq_true whole, complete, Outcome.ok.injEq, wraps.eq_iff]
    simp only [whole, Nat.lt_irrefl, false_and, true_and, or_false, eq_comm]

/-- The links are those that the walk and the index between them yield. -/
theorem readDenseLinks_eq_ok (stored : Stored view heap tree layout) {live : List (LiveRecord Link)}
    (describes : Describes heap tree view.sizes (Link.parseAt view.sizes) linkRecordHeapIdOffset live)
    (readable : heap.Readable build view.sizes) {links : List Link} :
    readDenseLinks build view heap.headerAddress (some tree.address) = .ok links ↔
      Yields heap tree view.sizes (Link.parseAt view.sizes) live build links := by
  apply read_eq_ok_iff stored describes readable (Link.selfDelimiting view.sizes) id Function.injective_id
  · exact fun _ => rfl
  · exact fun _ => rfl
  · exact fun _ _ _ listed => listed

/-- The attributes that are said to be all are those that the walk and the index yield. -/
theorem readDenseAttributes_eq_ok (stored : Stored view heap tree layout) {live : List (LiveRecord Attribute)}
    (describes : Describes heap tree view.sizes (Attribute.parseAt sizes) attributeRecordHeapIdOffset live)
    (readable : heap.Readable build view.sizes) {attributes : List Attribute} :
    readDenseAttributes build view heap.headerAddress (some tree.address) sizes = .ok (attributes, true) ↔
      Yields heap tree view.sizes (Attribute.parseAt sizes) live build attributes := by
  apply read_eq_ok_iff stored describes readable (Attribute.selfDelimiting sizes) (fun found => (found, true))
    (fun _ _ same => (Prod.mk.inj same).1)
  · exact fun _ => rfl
  · exact fun _ => rfl
  · intro found btree listed named
    rw [named]

/-- The links that are read are the live ones. -/
def LinksAgree (build : Build) (view : View) (heap : StoredHeap) (tree : BtreeV2.StoredTree)
    (live : List (LiveRecord Link)) : Prop :=
  ∃ links, readDenseLinks build view heap.headerAddress (some tree.address) = .ok links ∧
    links.Perm (values (records live))

/-- The attributes that are read are the live ones, and are said to be all. -/
def AttributesAgree (build : Build) (view : View) (heap : StoredHeap) (tree : BtreeV2.StoredTree)
    (sizes : Sizes) (live : List (LiveRecord Attribute)) : Prop :=
  ∃ attributes,
    readDenseAttributes build view heap.headerAddress (some tree.address) sizes = .ok (attributes, true) ∧
      attributes.Perm (values (records live))

theorem linksAgree_iff (stored : Stored view heap tree layout) {live : List (LiveRecord Link)}
    (describes : Describes heap tree view.sizes (Link.parseAt view.sizes) linkRecordHeapIdOffset live)
    (readable : heap.Readable build view.sizes) :
    LinksAgree build view heap tree live ↔
      Enumerates heap tree view.sizes (Link.parseAt view.sizes) live build := by
  rw [← yields_iff describes stored.fits (Link.selfDelimiting view.sizes)]
  exact exists_congr fun links => and_congr_left' (readDenseLinks_eq_ok stored describes readable)

theorem attributesAgree_iff (stored : Stored view heap tree layout) {live : List (LiveRecord Attribute)}
    (describes : Describes heap tree view.sizes (Attribute.parseAt sizes) attributeRecordHeapIdOffset live)
    (readable : heap.Readable build view.sizes) :
    AttributesAgree build view heap tree sizes live ↔
      Enumerates heap tree view.sizes (Attribute.parseAt sizes) live build := by
  rw [← yields_iff describes stored.fits (Attribute.selfDelimiting sizes)]
  exact exists_congr fun attributes => and_congr_left' (readDenseAttributes_eq_ok stored describes readable)

/-- Nothing is read of a heap that the reader cannot rely on. -/
theorem readable_of_bind (stored : Stored view heap tree layout) (detected : heap.Detected view) {α : Type}
    {next : FractalHeap → Code α} {a : α}
    (done : (FractalHeap.read build view heap.headerAddress >>= next) = .ok a) :
    heap.Readable build view.sizes := by
  obtain ⟨found, read, -⟩ := Outcome.bind_eq_ok.mp done
  exact StoredHeap.readable_of_read stored.fits stored.held detected read

/-- Whatever the index of a heap names is parsed as what is live. The links and the attributes that are
read are these exactly if the walk and the index between them find what is live, of a heap that its
reader can rely on; of any other heap nothing is read, where no checksum matches by coincidence. -/
theorem dense_agrees_iff (stored : Stored view heap tree layout) :
    (∀ live, Describes heap tree view.sizes (Link.parseAt view.sizes) linkRecordHeapIdOffset live →
      (heap.inMemory view.sizes).walkIndexed build ⟨tree.recordType, tree.recordSize, tree.records⟩
          (heapIdAfter linkRecordHeapIdOffset) (Link.parseAt view.sizes) = .ok (values (records live)) ∧
        (heap.Readable build view.sizes → (LinksAgree build view heap tree live ↔
          Enumerates heap tree view.sizes (Link.parseAt view.sizes) live build)) ∧
        (heap.Detected view → LinksAgree build view heap tree live → heap.Readable build view.sizes)) ∧
    ∀ sizes live, Describes heap tree view.sizes (Attribute.parseAt sizes) attributeRecordHeapIdOffset live →
      (heap.inMemory view.sizes).walkIndexed build ⟨tree.recordType, tree.recordSize, tree.records⟩
          (heapIdAfter attributeRecordHeapIdOffset) (Attribute.parseAt sizes) = .ok (values (records live)) ∧
        (heap.Readable build view.sizes → (AttributesAgree build view heap tree sizes live ↔
          Enumerates heap tree view.sizes (Attribute.parseAt sizes) live build)) ∧
        (heap.Detected view → AttributesAgree build view heap tree sizes live →
          heap.Readable build view.sizes) := by
  constructor
  · intro live describes
    refine ⟨walkIndexed_eq describes stored.fits _ _, linksAgree_iff stored describes, ?_⟩
    rintro detected ⟨links, done, -⟩
    exact readable_of_bind stored detected done
  · intro sizes live describes
    refine ⟨walkIndexed_eq describes stored.fits _ _, attributesAgree_iff stored describes, ?_⟩
    rintro detected ⟨attributes, done, -⟩
    exact readable_of_bind stored detected done

end Reading

section Gap

/-! A heap with one live link, behind twelve bytes that belong to none. -/

open StoredHeap (eightBytes)

/-- A hard link with a name of one letter. -/
def linkTo (letter address : UInt8) : Bytes := [1, 0, 1, letter, address, 0, 0, 0, 0, 0, 0, 0]

def linkOf (letter address : UInt8) : Link := ⟨fromUtf8Lossy [letter], .hard address.toNat, none⟩

def gapPayload (front : Bytes) : Bytes := front ++ (linkTo 98 200 ++ List.replicate 23 0)

def gapHeap (front : Bytes) : StoredHeap where
  headerAddress := 0
  widthBits := 2
  startBits := 6
  maxDirectBits := 6
  maxHeapSizeBits := 32
  flags := 0
  lengthSize := 2
  managedObjectCount := 1
  rootRows := 0
  root := some (.direct 146 (gapPayload front))
  bookkeeping := {}

/-- The hash of a name is not looked at. -/
def gapRecord : Bytes := [0, 0, 0, 0] ++ [0, 29, 0, 0, 0, 12, 0]

def gapLeaf : BtreeV2.StoredNode 0 := ⟨248, ([gapRecord] : List Bytes)⟩

def gapTree : BtreeV2.StoredTree where
  address := 210
  recordType := 5
  nodeSize := 512
  recordSize := 11
  depth := 0
  splitPercent := 100
  mergePercent := 40
  root := some gapLeaf

def gapLayout : BtreeV2.NodeLayout := ⟨1, [0]⟩

def gapLive : List (LiveRecord Link) := [⟨⟨29, linkOf 98 200⟩, linkTo 98 200⟩]

def gapBytes (front : Bytes) : Bytes :=
  (gapHeap front).encodeHeader eightBytes ++ ((gapHeap front).encodeDirect eightBytes 0 (gapPayload front) ++
    (gapTree.encodeHeader eightBytes ++ BtreeV2.Body.encode gapLayout 8 5 0 gapLeaf.body))

variable {front : Bytes}

theorem gapPayload_length (twelve : front.length = 12) : (gapPayload front).length = 47 := by
  rw [gapPayload, List.length_append, twelve]
  rfl

theorem gap_headerLen : (gapHeap front).header.directBlockHeaderLen eightBytes = 17 := by
  simp [gapHeap, Header.directBlockHeaderLen, Header.checksumsDirectBlocks, StoredHeap.header,
    StoredHeap.offsetSize, eightBytes]

theorem gapHeader_length : ((gapHeap front).encodeHeader eightBytes).length = 146 := by
  unfold StoredHeap.encodeHeader StoredHeap.encodeFields encodeAddress StoredHeap.encodeStart
  simp only [withChecksum_length, List.length_append, littleEndian_length]
  rfl

theorem gapDirect_length (twelve : front.length = 12) :
    ((gapHeap front).encodeDirect eightBytes 0 (gapPayload front)).length = 64 := by
  rw [StoredHeap.encodeDirect_length, gap_headerLen, gapPayload_length twelve]

theorem gapTree_length : (gapTree.encodeHeader eightBytes).length = 38 := BtreeV2.encodeHeader_length

theorem gapLeaf_length : (BtreeV2.Body.encode gapLayout 8 5 0 gapLeaf.body).length = 21 :=
  BtreeV2.encode_leaf_length _

theorem gapBytes_length (twelve : front.length = 12) : (gapBytes front).length ≤ isizeMax := by
  unfold gapBytes
  rw [List.length_append, List.length_append, List.length_append, gapHeader_length, gapDirect_length twelve,
    gapTree_length, gapLeaf_length]
  decide

/-- A file with nothing but the heap and its index in it. -/
def gapView (front : Bytes) (twelve : front.length = 12) : View where
  file := ⟨gapBytes front, gapBytes_length twelve⟩
  baseAddress := 0
  sizes := eightBytes

theorem gap_fits (twelve : front.length = 12) : (gapHeap front).Fits eightBytes := by
  constructor
  case widths => exact ⟨by decide, by decide⟩
  case headerAddress => exact (by decide : 0 < undefinedForWidth 8)
  case tableWidth => exact (by decide : 2 < 16)
  case ordered => exact Nat.le_refl 6
  case maxDirectBlockSize => exact (by decide : 2 ^ 6 < 256 ^ 8)
  case maxHeapSizeBits => exact (by decide : 32 ≤ 64)
  case flags => exact (by decide : 0 < 256 ^ 1)
  case lengthSize => exact (by decide : 2 ≤ 8)
  case managedObjectCount => exact (by decide : 1 < 256 ^ 8)
  case rootRows => exact (by decide : 0 < 256 ^ 2)
  case addressed => exact (by decide : 2 ^ 6 ≤ 2 ^ 32)
  case managedSpace => exact (by decide : 2 ^ 6 < 256 ^ 8)
  case root =>
    intro root same
    cases same
    refine ⟨rfl, StoredHeap.Fills.direct (by decide : 146 < undefinedForWidth 8) (Nat.le_refl _) ?_⟩
    rw [gap_headerLen, gapPayload_length twelve]
    rfl

theorem gapTree_fits : gapTree.Fits eightBytes gapLayout where
  widths := ⟨by decide, by decide⟩
  recordType := by decide
  nodeSize := by decide
  recordSize := by decide
  depth := by decide
  rootAddress := by
    rintro a ⟨⟩
    decide
  rootRecords := by decide
  root := by
    rintro root ⟨⟩ record member
    obtain rfl : record = gapRecord := List.mem_singleton.mp member
    rfl

theorem gap_stored (twelve : front.length = 12) :
    Stored (gapView front twelve) (gapHeap front) gapTree gapLayout := by
  obtain ⟨header, direct, tree, leaf⟩ := @View.holds_in_turn (gapView front twelve) _ _ _ _ rfl rfl
  rw [gapHeader_length] at direct
  rw [List.length_append, gapHeader_length, gapDirect_length twelve] at tree
  rw [List.length_append, List.length_append, gapHeader_length, gapDirect_length twelve, gapTree_length] at leaf
  have widths : BtreeV2.NodeLayout.derive .release 512 11 0 8 = .ok gapLayout := by decide
  refine ⟨gap_fits twelve, ⟨header, ?_⟩, gapTree_fits, ⟨tree, ?_⟩, widths⟩
  · rintro root ⟨⟩
    exact StoredHeap.Stands.direct direct
  · rintro root ⟨⟩
    exact leaf

theorem gap_blocks : (gapHeap front).blocks eightBytes = [(17, gapPayload front)] := by
  have start : (0 : Nat) + (gapHeap front).header.directBlockHeaderLen eightBytes = 17 := by rw [gap_headerLen]
  unfold StoredHeap.blocks gapHeap StoredHeap.loaded
  exact congrArg (fun place => [(place, gapPayload front)]) start

theorem parse_live : Link.parseAt eightBytes (Cursor.start (linkTo 98 200)) =
    (.ok (linkOf 98 200), Cursor.startAt (linkTo 98 200) 12) := by decide

theorem parse_freed : Link.parseAt eightBytes (Cursor.start (linkTo 97 100)) =
    (.ok (linkOf 97 100), Cursor.startAt (linkTo 97 100) 12) := by decide

theorem gap_heapId : (gapHeap front).heapId 29 12 = [0, 29, 0, 0, 0, 12, 0] := by
  have offsetSize : (gapHeap front).offsetSize = 4 := by simp [gapHeap, StoredHeap.offsetSize]
  have lengthSize : (gapHeap front).lengthSize = 2 := rfl
  rw [StoredHeap.heapId, offsetSize, lengthSize]
  decide

theorem gap_describes (twelve : front.length = 12) :
    Describes (gapHeap front) gapTree eightBytes (Link.parseAt eightBytes) linkRecordHeapIdOffset gapLive where
  counted := rfl
  stored := by
    intro object member
    obtain rfl := List.mem_singleton.mp member
    refine ⟨(17, gapPayload front), ?_, 12, rfl, ?_, ?_, List.cons_ne_nil _ _⟩
    · rw [gap_blocks]
      exact List.mem_singleton_self _
    · rw [gapPayload_length twelve]
      decide
    · rw [gapPayload, slice, ← twelve, List.drop_left]
      rfl
  short := by
    intro object member
    obtain rfl := List.mem_singleton.mp member
    exact (by decide : 12 < 256 ^ 2)
  parsed := by
    intro object member
    obtain rfl := List.mem_singleton.mp member
    exact parse_live
  apart := List.pairwise_singleton _ _
  listed := by
    refine List.Forall₂.cons ⟨[0, 0, 0, 0], [], rfl, ?_⟩ List.Forall₂.nil
    change gapRecord = [0, 0, 0, 0] ++ ((gapHeap front).heapId 29 12 ++ [])
    rw [gap_heapId]
    rfl

theorem gap_readable : (gapHeap front).Readable .release eightBytes where
  few := by
    rw [gap_blocks]
    exact (by decide : 1 ≤ maxBlocks + 1)
  aligned := by
    rintro ⟨entry, address, children, there⟩
    exact absurd there nofun
  shifts := nofun

theorem gapTree_readable : gapTree.Readable .release eightBytes := ⟨by decide, nofun⟩

def zeroFront : Bytes := List.replicate 12 0

/-- Behind zeros the walk finds nothing, and the index is followed. -/
theorem dense_agrees_zeros :
    LinksAgree .release (gapView zeroFront rfl) (gapHeap zeroFront) gapTree gapLive := by
  have describes := @gap_describes zeroFront rfl
  apply (((@dense_agrees_iff .release (gapView zeroFront rfl) (gapHeap zeroFront) gapTree gapLayout
    (gap_stored rfl)).1 gapLive describes).2.1 gap_readable).mpr
  refine ⟨[], ?_, fun whole => absurd whole (by decide), fun _ => gapTree_readable⟩
  rw [show (gapView zeroFront rfl).sizes = eightBytes from rfl, gap_blocks]
  exact .leave rfl (.done _)

/-- The remains of a freed link are read as a link, and the live one behind them is lost. -/
theorem dense_reports_freed :
    Stored (gapView (linkTo 97 100) rfl) (gapHeap (linkTo 97 100)) gapTree gapLayout ∧
      Describes (gapHeap (linkTo 97 100)) gapTree eightBytes (Link.parseAt eightBytes) linkRecordHeapIdOffset
        gapLive ∧
      readDenseLinks .release (gapView (linkTo 97 100) rfl) 0 (some 210) = .ok [linkOf 97 100] ∧
      ¬ LinksAgree .release (gapView (linkTo 97 100) rfl) (gapHeap (linkTo 97 100)) gapTree gapLive := by
  have describes := @gap_describes (linkTo 97 100) rfl
  have stored := @gap_stored (linkTo 97 100) rfl
  have delimits := Link.selfDelimiting eightBytes
  have met : Met (Link.parseAt eightBytes) 1 ((gapHeap (linkTo 97 100)).blocks eightBytes)
      [⟨17, linkOf 97 100⟩] := by
    rw [gap_blocks]
    exact .record (delimits.isLocal.reads_whole parse_freed) (.enough _)
  refine ⟨stored, describes, ?_, fun agree => ?_⟩
  · exact (readDenseLinks_eq_ok stored describes gap_readable).mpr ⟨_, met, .inl ⟨rfl, rfl⟩⟩
  · have enumerates := (linksAgree_iff stored describes gap_readable).mp agree
    refine not_enumerates_of_freed delimits met rfl (List.mem_singleton_self _) ?_ ?_ enumerates
    · decide
    · intro member
      obtain same := List.mem_singleton.mp member
      cases congrArg Link.target same

end Gap

end Oxcdf.Dense
