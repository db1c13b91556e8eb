import Oxcdf.FractalHeap
import Oxcdf.View.Steady

/-! When reading a fractal heap, and an object of it, panics. -/

set_option autoImplicit false

namespace Oxcdf.FractalHeap

open Foundation Foundation.Buffer Foundation.Format Cursor

section Headers

variable {sizes : Sizes} {view : View} {address : Nat}

theorem steady_start (signature : Bytes) (letters what : String) :
    Steady (expectStart signature letters what) := by
  unfold expectStart
  apply (steady_take 4).bind
  intro found
  split
  · exact Steady.throw _
  · exact steady_u8.bind fun _ => Steady.ite (Steady.throw _) (Steady.pure ())

theorem steady_passed : Steady passed := ⟨Ahead.refl, fun _ _ => nofun⟩

theorem steady_checksum (what : String) : Steady (Header.expectChecksum what) :=
  steady_passed.bind fun _ => steady_u32.bind fun _ => Steady.ite (Steady.throw _) (Steady.pure ())

theorem steady_filters (encodedLen : Nat) : Steady (Header.skipFilters sizes encodedLen) := by
  unfold Header.skipFilters
  apply Steady.ite
  · exact (steady_length sizes).bind fun _ => steady_u32.bind fun _ => steady_skip encodedLen
  · exact Steady.pure ()

theorem steady_fields : Steady (Header.parseFields sizes address) := by
  unfold Header.parseFields
  refine (steady_start _ _ _).bind fun _ => steady_u16.bind fun _ => steady_u16.bind fun _ =>
    steady_u8.bind fun _ =>
    steady_u32.bind fun _ => (steady_length sizes).bind fun _ => (steady_address sizes).bind fun _ =>
    (steady_length sizes).bind fun _ => (steady_address sizes).bind fun _ => ?_
  iterate 8 refine (steady_length sizes).bind fun _ => ?_
  exact steady_u16.bind fun _ => (steady_length sizes).bind fun _ => (steady_length sizes).bind fun _ =>
    steady_u16.bind fun _ => steady_u16.bind fun _ => (steady_address sizes).bind fun _ =>
      steady_u16.bind fun _ =>
    Steady.pure _

theorem steady_header : Steady (Header.parse sizes address) := by
  unfold Header.parse
  refine steady_fields.bind fun header => (steady_filters _).bind fun _ => (steady_checksum _).bind fun _ => ?_
  exact Steady.ite (Steady.throw _) (Steady.pure header)

theorem readHeader_safe : ¬ (Header.read view address).Panics :=
  Outcome.not_panics_bind View.readUpto_safe fun buf => steady_header.fst_safe (inBounds_start buf)

/-- Bounds that the fields of a header have from their widths, and those it is checked for. -/
structure Header.Bounded (header : Header) : Prop where
  tableWidth : 0 < header.tableWidth ∧ header.tableWidth < 256 ^ 2
  startingBlockSize : 0 < header.startingBlockSize
  blockOffsetSize : header.blockOffsetSize ≤ 256 ^ 2
  currentRootRows : header.currentRootRows < 256 ^ 2

theorem yields_fields : (Header.parseFields sizes address).Yields fun header =>
    header.tableWidth < 256 ^ 2 ∧ header.blockOffsetSize ≤ 256 ^ 2 ∧ header.currentRootRows < 256 ^ 2 := by
  unfold Header.parseFields
  -- Seventeen fields stand before the width of the table.
  iterate 17 refine Session.Yields.last fun _ => ?_
  refine yields_u16.bind fun tableWidth narrow => ?_
  iterate 2 refine Session.Yields.last fun _ => ?_
  refine yields_u16.bind fun maxHeapSizeBits bits => ?_
  iterate 2 refine Session.Yields.last fun _ => ?_
  refine yields_u16.bind fun currentRootRows rows => Session.Yields.pure ⟨narrow, ?_, rows⟩
  dsimp only
  omega

theorem yields_header : (Header.parse sizes address).Yields Header.Bounded := by
  refine yields_fields.bind fun header ⟨narrow, offsets, rows⟩ => ?_
  iterate 2 refine Session.Yields.last fun _ => ?_
  split
  · exact Session.Yields.throw _
  · next positive =>
    rw [not_or] at positive
    exact Session.Yields.pure
      ⟨⟨Nat.pos_of_ne_zero positive.1, narrow⟩, Nat.pos_of_ne_zero positive.2, offsets, rows⟩

theorem bounded_of_read {header : Header} (found : Header.read view address = .ok header) : header.Bounded := by
  obtain ⟨buf, -, parsed⟩ := Outcome.bind_eq_ok.mp found
  exact yields_header _ header _ (Prod.ext parsed rfl)

end Headers

section Rows

variable {build : Build} (header : Header)

/-- The size of the blocks in a row, without the bits shifted out. An unchecked build takes the
shift modulo the width of a word. -/
def Header.rowSize (row : Nat) : Nat :=
  if row < 2 then header.startingBlockSize else header.startingBlockSize * 2 ^ ((row - 1) % 64) % wordSize

variable {header}

theorem rowBlockSize_eq {row : Nat} (shifts : build = .release ∨ row < 65) :
    header.rowBlockSize build row = .ok (header.rowSize row) := by
  unfold Header.rowBlockSize Header.rowSize Header.shiftLeft
  split
  · rfl
  · split
    · next small => rw [Nat.mod_eq_of_lt small]
    · next large =>
      obtain rfl := shifts.resolve_right (by omega)
      rfl

theorem rowBlockSize_panics {row : Nat} (large : 65 ≤ row) : (header.rowBlockSize .debug row).Panics := by
  unfold Header.rowBlockSize Header.shiftLeft
  rw [if_neg (by omega), if_neg (by omega)]
  exact Outcome.panics_panic _

theorem rowBlockSize_eq_ok {row size : Nat} (found : header.rowBlockSize build row = .ok size) :
    size = header.rowSize row := by
  rcases Nat.lt_or_ge row 65 with small | large
  · rw [rowBlockSize_eq (.inr small)] at found
    exact (Outcome.ok.inj found).symm
  · cases build with
    | debug =>
      have panics := @rowBlockSize_panics header row large
      rw [found] at panics
      exact absurd panics (Outcome.not_panics_ok size)
    | release =>
      rw [rowBlockSize_eq (.inl rfl)] at found
      exact (Outcome.ok.inj found).symm

theorem countDirectRows_release (budget row : Nat) : ¬ (header.countDirectRows .release budget row).Panics := by
  induction budget generalizing row with
  | zero => exact Outcome.not_panics_ok row
  | succ budget ih =>
    rw [Header.countDirectRows, rowBlockSize_eq (.inl rfl), Outcome.ok_bind]
    split
    · exact ih (row + 1)
    · exact Outcome.not_panics_ok row

/-- A checked build counts up to the first row whose shift has the width of a word, unless a row
before it is too large. -/
theorem countDirectRows_debug {budget row : Nat} (within : row ≤ 65) (enough : 65 < row + budget) :
    (header.countDirectRows .debug budget row).Panics ↔
      ∀ r, row ≤ r → r < 65 → header.rowSize r ≤ header.maxDirectBlockSize := by
  induction budget generalizing row with
  | zero => omega
  | succ budget ih =>
    rcases Nat.lt_or_ge row 65 with small | large
    · rw [Header.countDirectRows, rowBlockSize_eq (.inr small), Outcome.ok_bind]
      split
      · next fits =>
        rw [ih small (by omega)]
        constructor
        · intro rest r first below
          rcases Nat.lt_or_eq_of_le first with later | rfl
          · exact rest r later below
          · exact fits
        · exact fun all r later below => all r (Nat.le_of_succ_le later) below
      · next larger =>
        exact ⟨fun panics => absurd panics (Outcome.not_panics_ok row),
          fun all => absurd (all row (Nat.le_refl row) small) larger⟩
    · rw [Header.countDirectRows, Outcome.panics_bind]
      exact ⟨fun _ r first below => absurd (Nat.lt_of_le_of_lt first below) (Nat.not_lt.mpr large),
        fun _ => .inl (rowBlockSize_panics large)⟩

theorem countDirectRows_ok {budget row count : Nat}
    (found : header.countDirectRows build budget row = .ok count)
    (r : Nat) (first : row ≤ r) (before : r < count) :
    header.rowBlockSize build r = .ok (header.rowSize r) := by
  induction budget generalizing row with
  | zero =>
    cases found
    exact absurd before (Nat.not_lt.mpr first)
  | succ budget ih =>
    obtain ⟨size, sized, later⟩ := Outcome.bind_eq_ok.mp found
    split at later
    · rcases Nat.lt_or_eq_of_le first with beyond | rfl
      · exact ih later beyond
      · rw [sized, rowBlockSize_eq_ok sized]
    · cases later
      exact absurd before (Nat.not_lt.mpr first)

variable (header) in
def Header.AllRowsDirect : Prop := ∀ row < 65, header.rowSize row ≤ header.maxDirectBlockSize

theorem maxDirectRows_panics : (header.maxDirectRows build).Panics ↔ build = .debug ∧ header.AllRowsDirect := by
  cases build with
  | debug =>
    rw [Header.maxDirectRows, countDirectRows_debug (Nat.zero_le 65) (by decide)]
    simp [Header.AllRowsDirect]
  | release => simp [Header.maxDirectRows, countDirectRows_release]

end Rows

section Blocks

variable {build : Build} {view : View} {header : Header}

theorem steady_heapAddress {sizes : Sizes} (block : String) : Steady (expectHeapAddress header sizes block) :=
  (steady_addressRequired sizes _).bind fun _ => Steady.ite (Steady.throw _) (Steady.pure ())

theorem steady_block {sizes : Sizes} (signature : Bytes) (letters block : String) :
    Steady (expectBlock header sizes signature letters block) :=
  (steady_start _ _ _).bind fun _ => steady_heapAddress block

theorem steady_blockChecksum (block : Bytes) : Steady (expectBlockChecksum block) :=
  steady_position.bind fun _ => steady_u32.bind fun _ => Steady.ite (Steady.throw _) (Steady.pure ())

theorem steady_directBlock {sizes : Sizes} (block : Bytes) : Steady (parseDirectBlock header sizes block) := by
  refine (steady_block _ _ _).bind fun _ => (steady_uint _).bind fun _ => ?_
  refine Steady.bind ?_ fun _ => Steady.pure _
  exact Steady.ite (steady_blockChecksum block) (Steady.pure ())

theorem steady_indirectBlock {sizes : Sizes} : Steady (parseIndirectBlock header sizes) :=
  (steady_block _ _ _).bind fun _ => steady_skip _

/-- A direct block that no allocation may hold, or one that a checked build cannot place: its
header ends past the last offset that a word has. -/
def HarmfulBlock (build : Build) (view : View) (header : Header) (address size : Nat) : Prop :=
  isizeMax < size ∨ build = .debug ∧ ∃ block blockOffset, view.read address size = .ok block ∧
    (parseDirectBlock header view.sizes block (Cursor.start block)).1 = .ok blockOffset ∧
    header.directBlockHeaderLen view.sizes ≤ size ∧
    wordSize ≤ blockOffset + header.directBlockHeaderLen view.sizes

theorem readDirectBlock_panics {address size : Nat} {out : HeapBlocks} :
    (readDirectBlock build view header address size out).Panics ↔
      out.length ≤ maxBlocks ∧ HarmfulBlock build view header address size := by
  unfold readDirectBlock
  split
  · next many => simp [Nat.not_le.mpr many]
  · next few =>
    rw [Outcome.panics_bind, View.read_panics, and_iff_right (Nat.not_lt.mp few)]
    apply or_congr_right
    constructor
    · rintro ⟨block, read, panics⟩
      rw [Outcome.panics_bind] at panics
      obtain ⟨blockOffset, parsed, later⟩ :=
        panics.resolve_left ((steady_directBlock block).fst_safe (inBounds_start block))
      dsimp only at later
      split at later
      · exact absurd later (Outcome.not_panics_error _)
      · next room =>
        rw [View.read_length read] at room
        rw [Outcome.panics_bind] at later
        obtain ⟨debug, large⟩ := Build.word_panics.mp (later.resolve_right fun ⟨_, _, done⟩ => nomatch done)
        exact ⟨debug, block, blockOffset, read, parsed, Nat.not_lt.mp room, large⟩
    · rintro ⟨debug, block, blockOffset, read, parsed, room, large⟩
      refine ⟨block, read, ?_⟩
      rw [parsed, Outcome.ok_bind]
      dsimp only
      rw [View.read_length read, if_neg (Nat.not_lt.mpr room), Outcome.panics_bind]
      exact .inl (Build.word_panics.mpr ⟨debug, large⟩)

end Blocks

section Walking

variable {build : Build} {view : View} {header : Header} {sizes : Sizes}

theorem forward_children (visit : Nat → Nat → HeapBlocks → Code HeapBlocks) (count : Nat) :
    ∀ (entry : Nat) (out : HeapBlocks), Forward (readChildren sizes visit entry count out) := by
  induction count with
  | zero => exact fun entry out => Forward.pure out
  | succ count ih =>
    intro entry out
    exact (steady_address sizes).forward.bind fun child => (Forward.lift _).bind fun out => ih (entry + 1) out

/-- Reading children comes to one, after those before it were read. -/
def ComesTo (sizes : Sizes) (visit : Nat → Nat → HeapBlocks → Code HeapBlocks) (entry turn : Nat)
    (out : HeapBlocks) (cursor : Cursor) (before : HeapBlocks) (child : Nat) : Prop :=
  ∃ middle after, readChildren sizes visit entry turn out cursor = (.ok before, middle) ∧
    Cursor.address sizes middle = (.ok (some child), after)

variable {visit : Nat → Nat → HeapBlocks → Code HeapBlocks} {entry turn child : Nat} {out before : HeapBlocks}
  {cursor : Cursor}

theorem comesTo_first : ComesTo sizes visit entry 0 out cursor before child ↔
    out = before ∧ ∃ after, Cursor.address sizes cursor = (.ok (some child), after) := by
  constructor
  · rintro ⟨middle, after, none, found⟩
    cases none
    exact ⟨rfl, after, found⟩
  · rintro ⟨rfl, after, found⟩
    exact ⟨cursor, after, rfl, found⟩

theorem comesTo_later : ComesTo sizes visit entry (turn + 1) out cursor before child ↔
    ∃ first after read, Cursor.address sizes cursor = (.ok first, after) ∧
      (match first with
        | none => .ok out
        | some address => visit entry address out : Code HeapBlocks) = .ok read ∧
      ComesTo sizes visit (entry + 1) turn read after before child := by
  constructor
  · rintro ⟨middle, last, children, found⟩
    obtain ⟨first, after, here, later⟩ := Session.bind_eq_ok.mp children
    obtain ⟨read, _, lifted, rest⟩ := Session.bind_eq_ok.mp later
    obtain ⟨visited, rfl⟩ := Session.lift_eq_ok.mp lifted
    exact ⟨first, after, read, here, visited, middle, last, rest, found⟩
  · rintro ⟨first, after, read, here, visited, middle, last, rest, found⟩
    refine ⟨middle, last, ?_, found⟩
    exact Session.bind_eq_ok.mpr ⟨first, after, here,
      Session.bind_eq_ok.mpr ⟨read, after, Session.lift_eq_ok.mpr ⟨visited, rfl⟩, rest⟩⟩

theorem readChildren_panics {count : Nat} (within : cursor.InBounds) :
    (readChildren sizes visit entry count out).Panics cursor ↔
      ∃ turn < count, ∃ before child, ComesTo sizes visit entry turn out cursor before child ∧
        (visit (entry + turn) child before).Panics := by
  induction count generalizing entry out cursor with
  | zero =>
    refine ⟨fun panics => absurd panics (Session.not_panics_pure out cursor), ?_⟩
    rintro ⟨turn, impossible, -⟩
    exact absurd impossible (Nat.not_lt_zero turn)
  | succ count ih =>
    rw [readChildren, (steady_address sizes).panics_bind within]
    constructor
    · rintro ⟨first, after, here, inBounds, panics⟩
      rcases Session.panics_bind.mp panics with visited | ⟨read, _, lifted, rest⟩
      · cases first with
        | none => exact absurd visited (Outcome.not_panics_ok out)
        | some child =>
          exact ⟨0, Nat.succ_pos count, out, child, comesTo_first.mpr ⟨rfl, after, here⟩, visited⟩
      · obtain ⟨visited, rfl⟩ := Session.lift_eq_ok.mp lifted
        obtain ⟨turn, few, before, child, comes, later⟩ := (ih inBounds).mp rest
        refine ⟨turn + 1, Nat.succ_lt_succ few, before, child, ?_, ?_⟩
        · exact comesTo_later.mpr ⟨first, after, read, here, visited, comes⟩
        · rwa [Nat.add_right_comm] at later
    · rintro ⟨turn, few, before, child, comes, panics⟩
      cases turn with
      | zero =>
        obtain ⟨rfl, after, here⟩ := comesTo_first.mp comes
        refine ⟨_, after, here, (steady_address sizes).inBounds within here, ?_⟩
        exact Session.panics_bind.mpr (.inl panics)
      | succ turn =>
        obtain ⟨first, after, read, here, visited, comes⟩ := comesTo_later.mp comes
        have inBounds := (steady_address sizes).inBounds within here
        refine ⟨first, after, here, inBounds, Session.panics_bind.mpr (.inr ?_)⟩
        refine ⟨read, after, Session.lift_eq_ok.mpr ⟨visited, rfl⟩, (ih inBounds).mpr ?_⟩
        refine ⟨turn, Nat.lt_of_succ_lt_succ few, before, child, comes, ?_⟩
        rwa [Nat.add_right_comm]

theorem four_le_of_indirect (block : Bytes) (found : Unit) (cursor : Cursor)
    (opened : parseIndirectBlock header sizes (Cursor.start block) = (.ok found, cursor)) :
    4 ≤ block.length := by
  obtain ⟨⟨⟩, after, front, -⟩ := Session.bind_eq_ok.mp opened
  obtain ⟨⟨⟩, middle, start, -⟩ := Session.bind_eq_ok.mp front
  exact four_le_of_take start

/-- The table of an indirect block, whatever the header declares, is a request that is answered. -/
theorem indirectBlockLen_le {direct indirect : Nat} (bounded : header.Bounded) (narrow : sizes.offset ≤ 8)
    (few : direct < 256 ^ 4) (fewer : indirect < 256 ^ 4) :
    indirectBlockLen header sizes direct indirect ≤ isizeMax := by
  have first : direct * sizes.offset ≤ 256 ^ 4 * 8 := Nat.mul_le_mul few.le narrow
  have second : indirect * sizes.offset ≤ 256 ^ 4 * 8 := Nat.mul_le_mul fewer.le narrow
  have offsets := bounded.blockOffsetSize
  unfold indirectBlockLen isizeMax
  omega

/-- An indirect block that covers so many rows, as it is opened. -/
abbrev OpensIndirect (view : View) (header : Header) (maxDirectRows address rows : Nat) (block : Bytes)
    (cursor : Cursor) : Prop :=
  view.Opens (parseIndirectBlock header view.sizes) address
    (indirectBlockLen header view.sizes (min rows maxDirectRows * header.tableWidth)
      ((rows - maxDirectRows) * header.tableWidth))
    "fractal heap indirect block" block () cursor

/-- Walking an indirect block comes to a harmful direct block, in its own table or below. -/
inductive ComesToHarm (build : Build) (view : View) (header : Header) (maxDirectRows : Nat) :
    Nat → Nat → Nat → HeapBlocks → Prop
  | direct {levels address rows turn child : Nat} {out before : HeapBlocks} {block : Bytes} {cursor : Cursor}
      (opened : OpensIndirect view header maxDirectRows address rows block cursor)
      (listed : turn < min rows maxDirectRows * header.tableWidth)
      (comes : ComesTo view.sizes (readDirectChild build view header) 0 turn out cursor before child)
      (few : before.length ≤ maxBlocks)
      (harmful : HarmfulBlock build view header child (header.rowSize (turn / header.tableWidth))) :
      ComesToHarm build view header maxDirectRows (levels + 1) address rows out
  | indirect {levels address rows turn child : Nat} {out middle before : HeapBlocks} {block : Bytes}
      {cursor behind : Cursor}
      (opened : OpensIndirect view header maxDirectRows address rows block cursor)
      (direct : readChildren view.sizes (readDirectChild build view header) 0
        (min rows maxDirectRows * header.tableWidth) out cursor = (.ok middle, behind))
      (listed : turn < (rows - maxDirectRows) * header.tableWidth)
      (comes : ComesTo view.sizes (readIndirectChild header maxDirectRows
        (readIndirectBlock build view header levels)) 0 turn middle behind before child)
      (below : ComesToHarm build view header maxDirectRows levels child (turn / header.tableWidth + 1) before) :
      ComesToHarm build view header maxDirectRows (levels + 1) address rows out

variable {maxDirectRows : Nat}

theorem readDirectChild_panics (counted : header.maxDirectRows build = .ok maxDirectRows)
    (row : turn / header.tableWidth < maxDirectRows) :
    (readDirectChild build view header turn child out).Panics ↔ out.length ≤ maxBlocks ∧
      HarmfulBlock build view header child (header.rowSize (turn / header.tableWidth)) := by
  rw [readDirectChild, countDirectRows_ok counted _ (Nat.zero_le _) row, Outcome.ok_bind,
    readDirectBlock_panics]

theorem readIndirectChild_eq (walk : Nat → Nat → HeapBlocks → Code HeapBlocks) :
    readIndirectChild header maxDirectRows walk turn child out =
      walk child (turn / header.tableWidth + 1) out := by
  unfold readIndirectChild
  dsimp only
  rw [Nat.add_sub_cancel_left]

theorem readTable_panics {rows : Nat} {walk : Nat → Nat → HeapBlocks → Code HeapBlocks}
    (within : cursor.InBounds) :
    (readTable build view header maxDirectRows walk rows out).Panics cursor ↔
      (∃ turn < min rows maxDirectRows * header.tableWidth, ∃ before child,
        ComesTo view.sizes (readDirectChild build view header) 0 turn out cursor before child ∧
          (readDirectChild build view header turn child before).Panics) ∨
      ∃ middle behind, readChildren view.sizes (readDirectChild build view header) 0
          (min rows maxDirectRows * header.tableWidth) out cursor = (.ok middle, behind) ∧
        ∃ turn < (rows - maxDirectRows) * header.tableWidth, ∃ before child,
          ComesTo view.sizes (readIndirectChild header maxDirectRows walk) 0 turn middle behind before child ∧
            (walk child (turn / header.tableWidth + 1) before).Panics := by
  rw [readTable, Session.panics_bind, readChildren_panics within]
  simp only [Nat.zero_add]
  apply or_congr_right
  apply exists_congr
  intro middle
  apply exists_congr
  intro behind
  apply and_congr_right
  intro direct
  have ahead : Ahead cursor (readChildren view.sizes (readDirectChild build view header) 0
      (min rows maxDirectRows * header.tableWidth) out cursor).2 := forward_children _ _ 0 out cursor
  rw [direct] at ahead
  rw [readChildren_panics (ahead.inBounds within)]
  simp only [Nat.zero_add, readIndirectChild_eq]

theorem row_lt {rows : Nat} (listed : turn < rows * header.tableWidth) : turn / header.tableWidth < rows :=
  Nat.div_lt_of_lt_mul (Nat.mul_comm rows _ ▸ listed)

theorem readIndirectBlock_panics (counted : header.maxDirectRows build = .ok maxDirectRows)
    (bounded : header.Bounded) (narrow : view.sizes.offset ≤ 8) (levels : Nat) {address rows : Nat}
    (few : rows < 256 ^ 2) :
    (readIndirectBlock build view header levels address rows out).Panics ↔
      ComesToHarm build view header maxDirectRows levels address rows out := by
  induction levels generalizing address rows out with
  | zero => exact ⟨fun panics => absurd panics (Outcome.not_panics_error _), nofun⟩
  | succ levels ih =>
    have steady := @steady_indirectBlock header view.sizes
    have width := bounded.tableWidth.2
    have table {rows : Nat} (few : rows < 256 ^ 2) : rows * header.tableWidth < 256 ^ 4 := by
      have product : rows * header.tableWidth < 256 ^ 2 * 256 ^ 2 := Nat.mul_lt_mul_of_lt_of_lt few width
      exact product
    have answered : ¬ isizeMax < indirectBlockLen header view.sizes (min rows maxDirectRows * header.tableWidth)
        ((rows - maxDirectRows) * header.tableWidth) :=
      Nat.not_lt.mpr (indirectBlockLen_le bounded narrow (table (by omega)) (table (by omega)))
    rw [readIndirectBlock, counted, Outcome.ok_bind]
    refine Iff.trans (View.open_panics (fun _ _ cursor =>
        (readTable build view header maxDirectRows
          (readIndirectBlock build view header levels) rows out cursor).1)
      (fun block => block.length - 4) (fun _ whole => congrArg (· - 4) whole) steady four_le_of_indirect) ?_
    rw [or_iff_right answered]
    constructor
    · rintro ⟨block, ⟨⟩, cursor, opened, panics⟩
      rcases (readTable_panics (opened.inBounds steady)).mp panics with
        ⟨turn, listed, before, child, comes, panics⟩ |
        ⟨middle, behind, direct, turn, listed, before, child, comes, panics⟩
      · have row : turn / header.tableWidth < maxDirectRows := (row_lt listed).trans_le (Nat.min_le_right _ _)
        obtain ⟨few, harmful⟩ := (readDirectChild_panics counted row).mp panics
        exact .direct opened listed comes few harmful
      · have below := row_lt listed
        exact .indirect opened direct listed comes ((ih (by omega)).mp panics)
    · intro harm
      cases harm with
      | @direct _ _ _ turn child _ before block cursor opened listed comes few harmful =>
        have row : turn / header.tableWidth < maxDirectRows := (row_lt listed).trans_le (Nat.min_le_right _ _)
        refine ⟨block, (), cursor, opened, (readTable_panics (opened.inBounds steady)).mpr (.inl ?_)⟩
        exact ⟨turn, listed, before, child, comes, (readDirectChild_panics counted row).mpr ⟨few, harmful⟩⟩
      | @indirect _ _ _ turn child _ middle before block cursor behind opened direct listed comes harm =>
        have below := row_lt listed
        refine ⟨block, (), cursor, opened, (readTable_panics (opened.inBounds steady)).mpr (.inr ?_)⟩
        exact ⟨middle, behind, direct, turn, listed, before, child, comes, (ih (by omega)).mpr harm⟩

end Walking

section Reading

variable {build : Build} {view : View} {header : Header} {address : Nat}

/-- A root whose walk does harm: as the only direct block, in counting the rows of direct blocks,
or further down. -/
def HarmfulRoot (build : Build) (view : View) (header : Header) (root : Nat) : Prop :=
  if header.currentRootRows = 0 then HarmfulBlock build view header root header.startingBlockSize
  else build = .debug ∧ header.AllRowsDirect ∨ ∃ maxDirectRows, header.maxDirectRows build = .ok maxDirectRows ∧
    ComesToHarm build view header maxDirectRows maxLevels root header.currentRootRows []

/-- A heap that is read as far as its root, where the walk does harm. -/
def HarmfulHeap (build : Build) (view : View) (address : Nat) : Prop :=
  ∃ header root, Header.read view address = .ok header ∧ header.ioFilterEncodedLen = 0 ∧
    header.rootBlockAddress = some root ∧ HarmfulRoot build view header root

theorem readRoot_panics (bounded : header.Bounded) (narrow : view.sizes.offset ≤ 8) :
    (readRoot build view header).Panics ↔
      ∃ root, header.rootBlockAddress = some root ∧ HarmfulRoot build view header root := by
  unfold readRoot
  cases header.rootBlockAddress with
  | none => simp
  | some root =>
    simp only [Option.some.injEq, exists_eq_left', HarmfulRoot]
    split
    · rw [readDirectBlock_panics]
      exact and_iff_right (Nat.zero_le maxBlocks)
    · rw [← maxDirectRows_panics, maxLevels]
      cases counted : header.maxDirectRows build with
      | ok maxDirectRows =>
        rw [readIndirectBlock_panics counted bounded narrow 65 bounded.currentRootRows]
        simp only [Outcome.not_panics_ok, false_or, Outcome.ok.injEq, exists_eq_left']
      | error e =>
        rw [readIndirectBlock, counted]
        simp only [Outcome.error_bind, Outcome.not_panics_error, reduceCtorEq, false_and, exists_false, or_self]
      | panic why =>
        rw [readIndirectBlock, counted]
        simp only [Outcome.panic_bind, Outcome.panics_panic, true_or]

theorem read_panics (narrow : view.sizes.offset ≤ 8) :
    (read build view address).Panics ↔ HarmfulHeap build view address := by
  rw [read, Outcome.panics_bind, or_iff_right readHeader_safe]
  apply exists_congr
  intro header
  rw [exists_and_left]
  apply and_congr_right
  intro found
  split
  · next filtered => simp [Nat.ne_of_gt filtered]
  · next plain =>
    rw [exists_and_left, and_iff_right (Nat.eq_zero_of_not_pos plain), Outcome.panics_bind,
      readRoot_panics (bounded_of_read found) narrow]
    exact or_iff_left fun ⟨_, _, done⟩ => Outcome.not_panics_ok _ done

end Reading

section Objects

variable {build : Build} {offset length : Nat}

/-- The width of a length in an ID: what the flags byte and the offset leave of it. -/
def lengthSize (build : Build) (heap : FractalHeap) : Code Nat :=
  build.sub heap.heapIdLen 1 >>= fun rest => build.sub rest heap.offsetSize

end Objects

end Oxcdf.FractalHeap
