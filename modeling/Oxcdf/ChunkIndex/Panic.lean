import Oxcdf.ChunkIndex.Btree
import Oxcdf.ChunkIndex.Numbering

/-! When resolving a chunk index panics: which headers of the arrays ask for a shift, a length
or a number of elements that the machine does not have. -/

set_option autoImplicit false

namespace Oxcdf

open Foundation Foundation.Buffer Foundation.Format Cursor

namespace ChunkIndex

section Elements

variable {sizes : Sizes} {count entrySize clientId : Nat}

theorem steady_element : Steady (readElement sizes entrySize clientId) := by
  unfold readElement
  apply Steady.ite
  · refine (steady_address sizes).bind fun address => Steady.bind (Steady.lift ?_) fun width =>
      (steady_uint width).bind fun size => steady_u32.bind fun _ => Steady.pure _
    intro why
    split <;> simp
  · exact (steady_address sizes).bind fun _ => Steady.pure _

theorem withCapacity_panics {width : Nat} : (withCapacity count width).Panics ↔ isizeMax < count * width := by
  unfold withCapacity
  split
  · next small => simp [Nat.not_lt.mpr small]
  · next large => simp [Nat.lt_of_not_le large]

theorem readElements_panics {cursor : Cursor} (within : cursor.InBounds) :
    (readElements sizes count entrySize clientId).Panics cursor ↔ isizeMax < count * 24 := by
  rw [readElements, Session.panics_bind]
  constructor
  · rintro (here | ⟨⟨⟩, after, lifted, later⟩)
    · exact withCapacity_panics.mp here
    · obtain ⟨-, rfl⟩ := Session.lift_eq_ok.mp lifted
      exact absurd later ((steady_element.times count).safe cursor within)
  · exact fun large => .inl (withCapacity_panics.mpr large)

theorem steady_versionZero (what : String) : Steady (expectVersionZero what) :=
  steady_u8.bind fun _ => Steady.ite (Steady.throw _) (Steady.pure ())

/-- What starts with a signature is read of a buffer of at least four bytes. -/
theorem four_le_of_signature {α : Type} {signature : Bytes} {what : String} {next : Parse α} {block : Bytes}
    {found : α} {cursor : Cursor}
    (opened : (expectSignature signature what >>= fun _ => next) (Cursor.start block) = (.ok found, cursor)) :
    4 ≤ block.length := by
  obtain ⟨⟨⟩, after, front, -⟩ := Session.bind_eq_ok.mp opened
  exact four_le_of_take front

end Elements

section FixedArray

variable {build : Build} {view : View} {sizes : Sizes} {header : FixedArrayHeader} {address : Nat}

theorem steady_fixedArrayHeader : Steady (parseFixedArrayHeader sizes) :=
  (steady_signature _ _).bind fun _ => (steady_versionZero _).bind fun _ => steady_u8.bind fun _ =>
    steady_u8.bind fun _ => steady_u8.bind fun _ => (steady_length sizes).bind fun _ =>
    (steady_address sizes).bind fun _ => Steady.pure _

theorem steady_fixedArrayBlock : Steady (skipFixedArrayBlock sizes) :=
  (steady_signature _ _).bind fun _ => (steady_versionZero _).bind fun _ => (steady_skip 1).bind fun _ =>
    steady_skip sizes.offset

theorem shiftOne_panics {bits : Nat} : (shiftOne build bits).Panics ↔ build = .debug ∧ 64 ≤ bits := by
  unfold shiftOne
  split
  · next small => simp [Nat.not_le.mpr small]
  · next large => cases build <;> simp [Nat.not_lt.mp large]

theorem refusePaged_panics : (refusePaged build header).Panics ↔ build = .debug ∧ 64 ≤ header.pageBits := by
  unfold refusePaged
  split
  · rw [Outcome.panics_bind, shiftOne_panics]
    apply or_iff_left
    rintro ⟨page, -, later⟩
    split at later
    · exact absurd later (Outcome.not_panics_error _)
    · exact absurd later (Outcome.not_panics_ok _)
  · next none =>
    refine ⟨fun panics => absurd panics (Outcome.not_panics_ok _), fun ⟨_, wide⟩ => ?_⟩
    omega

/-- The length of a data block, as a number of any size. -/
def fixedArrayBlockLen (sizes : Sizes) (header : FixedArrayHeader) : Nat :=
  4 + 1 + 1 + sizes.offset + header.maxEntries * header.entrySize + 4

/-- A data block whose length is no word, or whose length or elements no allocation may hold. -/
def HarmfulFixedArrayBlock (build : Build) (view : View) (header : FixedArrayHeader) (address : Nat) : Prop :=
  build = .debug ∧ wordSize ≤ fixedArrayBlockLen view.sizes header ∨
    isizeMax < fixedArrayBlockLen view.sizes header % wordSize ∨
    ∃ block cursor, view.Opens (skipFixedArrayBlock view.sizes) address
        (fixedArrayBlockLen view.sizes header % wordSize) "fixed array data block" block () cursor ∧
      isizeMax < header.maxEntries * 24

theorem readFixedArrayBlock_panics :
    (readFixedArrayBlock build view header address header.maxEntries).Panics ↔
      HarmfulFixedArrayBlock build view header address := by
  rw [readFixedArrayBlock, Build.mul, Build.word_then_add_left, Build.word_then_add]
  refine Build.word_bind_panics.trans (or_congr_right ?_)
  refine (View.open_panics (fun _ _ cursor =>
    (readElements view.sizes header.maxEntries header.entrySize header.clientId cursor).1) (fun _ => _)
    (fun _ _ => rfl) steady_fixedArrayBlock fun _ _ _ => four_le_of_signature).trans ?_
  apply or_congr_right
  apply exists_congr
  intro block
  constructor
  · rintro ⟨⟨⟩, cursor, opened, panics⟩
    exact ⟨cursor, opened, (readElements_panics (opened.inBounds steady_fixedArrayBlock)).mp panics⟩
  · rintro ⟨cursor, opened, large⟩
    exact ⟨(), cursor, opened, (readElements_panics (opened.inBounds steady_fixedArrayBlock)).mpr large⟩

/-- A fixed array whose header is in order, and which shifts by the width of a word to see whether
it is paged, or has a harmful data block that is not. -/
def HarmfulFixedArray (build : Build) (view : View) (address : Nat) : Prop :=
  ∃ buf header cursor dataBlock,
    view.Opens (parseFixedArrayHeader view.sizes) address
      (4 + 1 + 1 + 1 + 1 + view.sizes.length + view.sizes.offset + 4) "fixed array header" buf header cursor ∧
    header.dataBlockAddress = some dataBlock ∧
    (build = .debug ∧ 64 ≤ header.pageBits ∨
      refusePaged build header = .ok () ∧ HarmfulFixedArrayBlock build view header dataBlock)

theorem readFixedArray_panics {expected : Nat} (valid : view.sizes.Valid) :
    (readFixedArray build view address expected).Panics ↔ HarmfulFixedArray build view address := by
  have answered : ¬ isizeMax < 4 + 1 + 1 + 1 + 1 + view.sizes.length + view.sizes.offset + 4 := by
    have offset := valid.offset_le
    have length := valid.length_le
    unfold isizeMax
    omega
  have contents (header : FixedArrayHeader) (dataBlock : Nat) : (do
        let _ ← refusePaged build header
        readFixedArrayBlock build view header dataBlock (min header.maxEntries (max expected header.maxEntries)) :
          Code (List Element)).Panics ↔
      build = .debug ∧ 64 ≤ header.pageBits ∨
        refusePaged build header = .ok () ∧ HarmfulFixedArrayBlock build view header dataBlock := by
    have count : min header.maxEntries (max expected header.maxEntries) = header.maxEntries :=
      Nat.min_eq_left (Nat.le_max_right _ _)
    rw [count, Outcome.panics_bind, refusePaged_panics, readFixedArrayBlock_panics]
    apply or_congr_right
    constructor
    · rintro ⟨⟨⟩, plain, harm⟩
      exact ⟨plain, harm⟩
    · rintro ⟨plain, harm⟩
      exact ⟨(), plain, harm⟩
  refine (View.open_panics (fun _ header _ => _) (fun _ => _) (fun _ _ => rfl) steady_fixedArrayHeader
    fun _ _ _ => four_le_of_signature).trans ?_
  rw [or_iff_right answered]
  constructor
  · rintro ⟨buf, header, cursor, opened, panics⟩
    cases found : header.dataBlockAddress with
    | none =>
      rw [found] at panics
      exact absurd panics (Outcome.not_panics_ok _)
    | some dataBlock =>
      rw [found] at panics
      exact ⟨buf, header, cursor, dataBlock, opened, found, (contents header dataBlock).mp panics⟩
  · rintro ⟨buf, header, cursor, dataBlock, opened, found, harm⟩
    refine ⟨buf, header, cursor, opened, ?_⟩
    rw [found]
    exact (contents header dataBlock).mpr harm

end FixedArray

section ExtensibleArray

variable {build : Build} {view : View} {sizes : Sizes} {header : ExtensibleArrayHeader} {address : Nat}

structure ExtensibleArrayHeader.Bounded (header : ExtensibleArrayHeader) : Prop where
  elementSize : header.elementSize < 256
  maxNelmtsBits : header.maxNelmtsBits < 256
  indexBlockElements : header.indexBlockElements < 256
  dataBlockMinElements : header.dataBlockMinElements < 256

theorem yields_extensibleArrayHeader :
    (parseExtensibleArrayHeader sizes).Yields ExtensibleArrayHeader.Bounded := by
  unfold parseExtensibleArrayHeader
  iterate 3 refine Session.Yields.last fun _ => ?_
  refine yields_u8.bind fun elementSize small => yields_u8.bind fun bits few => ?_
  refine yields_u8.bind fun indexBlockElements inline => yields_u8.bind fun dataBlockMinElements least => ?_
  iterate 6 refine Session.Yields.last fun _ => ?_
  exact Session.Yields.pure ⟨small, few, inline, least⟩

theorem steady_extensibleArrayHeader : Steady (parseExtensibleArrayHeader sizes) := by
  refine (steady_signature _ _).bind fun _ => (steady_versionZero _).bind fun _ => ?_
  iterate 7 refine steady_u8.bind fun _ => ?_
  exact ((steady_length sizes).times 4).bind fun _ => (steady_length sizes).bind fun _ =>
    (steady_length sizes).bind fun _ => (steady_address sizes).bind fun _ => Steady.pure _

/-- The length of an index block before the addresses of the super blocks that the least data
block saves are taken off. -/
def indexBlockSpan (sizes : Sizes) (header : ExtensibleArrayHeader) : Nat :=
  4 + 1 + 1 + sizes.offset + header.indexBlockElements * header.elementSize +
    (sblkFirstIdx + 1 + header.maxNelmtsBits) * sizes.offset + 4

def savedAddresses (sizes : Sizes) (header : ExtensibleArrayHeader) : Nat :=
  Nat.log2 header.dataBlockMinElements * sizes.offset

theorem indexBlockSpan_le (bounded : header.Bounded) (valid : sizes.Valid) :
    indexBlockSpan sizes header ≤ 2 ^ 20 := by
  have offset := valid.offset_le
  have elements : header.indexBlockElements * header.elementSize ≤ 255 * 255 :=
    Nat.mul_le_mul (Nat.le_of_lt_succ bounded.indexBlockElements) (Nat.le_of_lt_succ bounded.elementSize)
  have addresses : (sblkFirstIdx + 1 + header.maxNelmtsBits) * sizes.offset ≤ (2 + 1 + 255) * 8 :=
    Nat.mul_le_mul (Nat.add_le_add_left (Nat.le_of_lt_succ bounded.maxNelmtsBits) _) offset
  unfold indexBlockSpan
  omega

theorem savedAddresses_le (bounded : header.Bounded) (valid : sizes.Valid) :
    savedAddresses sizes header ≤ 64 := by
  have log : Nat.log2 header.dataBlockMinElements ≤ 8 := by
    rcases Nat.eq_zero_or_pos header.dataBlockMinElements with none | some
    · simp [none]
    · exact Nat.le_of_lt ((Nat.log2_lt (Nat.ne_of_gt some)).mpr bounded.dataBlockMinElements)
  exact Nat.mul_le_mul log valid.offset_le

/-- With a word for the number of super blocks, an unchecked build takes the length modulo the
size of a word. -/
theorem indexBlockLen_release {supers : Nat}
    (counted : (Build.release.sub header.maxNelmtsBits (Nat.log2 header.dataBlockMinElements) : Code Nat) =
      .ok supers) :
    indexBlockLen .release sizes header =
      .ok ((4 + 1 + 1 + sizes.offset + header.indexBlockElements * header.elementSize +
        (sblkFirstIdx + (1 + supers)) * sizes.offset + 4) % wordSize) := by
  rw [indexBlockLen, counted, Outcome.ok_bind]
  simp [Build.add, Build.mul, Build.word_release, Nat.add_mod, Nat.mul_mod]

/-- The bits of the least data block are not more than those of the array. -/
def LeastFits (header : ExtensibleArrayHeader) : Prop :=
  Nat.log2 header.dataBlockMinElements ≤ header.maxNelmtsBits

theorem indexBlockLen_of_fits (bounded : header.Bounded) (valid : sizes.Valid) (fits : LeastFits header) :
    indexBlockLen build sizes header = .ok (indexBlockSpan sizes header - savedAddresses sizes header) := by
  have span := indexBlockSpan_le bounded valid
  have offset := valid.offset_le
  have bits := bounded.maxNelmtsBits
  have word : 2 ^ 20 < wordSize := by decide
  have addresses : (sblkFirstIdx + (1 + (header.maxNelmtsBits - Nat.log2 header.dataBlockMinElements))) *
      sizes.offset =
        (sblkFirstIdx + 1 + header.maxNelmtsBits) * sizes.offset - savedAddresses sizes header := by
    rw [savedAddresses, ← Nat.sub_mul]
    unfold LeastFits at fits
    congr 1
    omega
  have saved : savedAddresses sizes header ≤ (sblkFirstIdx + 1 + header.maxNelmtsBits) * sizes.offset :=
    Nat.mul_le_mul_right _ (fits.trans (Nat.le_add_left _ _))
  unfold indexBlockSpan at span ⊢
  have few : sblkFirstIdx + (1 + (header.maxNelmtsBits - Nat.log2 header.dataBlockMinElements)) < wordSize := by
    unfold sblkFirstIdx
    omega
  rw [indexBlockLen, Build.sub_of_le build fits, Outcome.ok_bind]
  simp only [Build.add, Build.mul]
  rw [Build.word_of_lt build (by omega), Outcome.ok_bind, Build.word_of_lt build few, Outcome.ok_bind,
    Build.word_of_lt build (by omega), Outcome.ok_bind, addresses, Build.word_of_lt build (by omega),
    Outcome.ok_bind, Build.word_of_lt build (by omega), Outcome.ok_bind,
    Build.word_of_lt build (by omega), Outcome.ok_bind, Build.word_of_lt build (by omega)]
  congr 1
  omega

/-- Where they are more, a checked build panics, and an unchecked one asks for the whole length or
for nearly a whole word of bytes. -/
theorem indexBlockLen_of_not_fits (bounded : header.Bounded) (valid : sizes.Valid)
    (short : ¬ LeastFits header) :
    indexBlockLen .release sizes header =
      .ok (if savedAddresses sizes header ≤ indexBlockSpan sizes header then
          indexBlockSpan sizes header - savedAddresses sizes header
        else wordSize - (savedAddresses sizes header - indexBlockSpan sizes header)) := by
  have span := indexBlockSpan_le bounded valid
  have saved := savedAddresses_le bounded valid
  have counted : (Build.release.sub header.maxNelmtsBits (Nat.log2 header.dataBlockMinElements) : Code Nat) =
      .ok (header.maxNelmtsBits + wordSize - Nat.log2 header.dataBlockMinElements) := if_neg short
  have word : 2 ^ 20 < wordSize := by decide
  obtain ⟨below, width⟩ : ∃ below, sizes.offset = below + 1 := ⟨sizes.offset - 1, by
    have listed := valid.offset
    simp only [List.mem_cons, List.not_mem_nil, or_false] at listed
    omega⟩
  have wraps : wordSize * sizes.offset = wordSize * below + wordSize := by rw [width, Nat.mul_succ]
  have total : 4 + 1 + 1 + sizes.offset + header.indexBlockElements * header.elementSize +
      (sblkFirstIdx + (1 + (header.maxNelmtsBits + wordSize - Nat.log2 header.dataBlockMinElements))) *
        sizes.offset + 4 =
      indexBlockSpan sizes header + wordSize * sizes.offset - savedAddresses sizes header := by
    have log : Nat.log2 header.dataBlockMinElements * 1 ≤ 64 :=
      (Nat.mul_le_mul_left _ (by omega)).trans saved
    have supers : sblkFirstIdx + (1 +
      (header.maxNelmtsBits + wordSize - Nat.log2 header.dataBlockMinElements)) =
        sblkFirstIdx + 1 + header.maxNelmtsBits + wordSize - Nat.log2 header.dataBlockMinElements := by
      omega
    rw [supers, Nat.sub_mul, Nat.add_mul _ wordSize]
    unfold indexBlockSpan savedAddresses at *
    omega
  rw [indexBlockLen_release counted, total, wraps]
  congr 1
  split
  · next within =>
    have regroup : indexBlockSpan sizes header + (wordSize * below + wordSize) - savedAddresses sizes header =
        indexBlockSpan sizes header - savedAddresses sizes header + wordSize * (below + 1) := by
      rw [Nat.mul_succ]
      omega
    rw [regroup, Nat.add_mul_mod_self_left, Nat.mod_eq_of_lt (by omega)]
  · next past =>
    have regroup : indexBlockSpan sizes header + (wordSize * below + wordSize) - savedAddresses sizes header =
        wordSize - (savedAddresses sizes header - indexBlockSpan sizes header) + wordSize * below := by
      omega
    rw [regroup, Nat.add_mul_mod_self_left, Nat.mod_eq_of_lt (by omega)]

theorem steady_elements {count entrySize clientId : Nat} (few : count ≤ 2 ^ 10) :
    Steady (readElements sizes count entrySize clientId) := by
  refine (Steady.lift fun why panics => ?_).bind fun _ => steady_element.times count
  have large := withCapacity_panics.mp ⟨why, panics⟩
  unfold isizeMax at large
  omega

theorem steady_inline (bounded : header.Bounded) : Steady (readInline sizes header) := by
  have inline := bounded.indexBlockElements
  refine (steady_elements ?_).bind fun out => (steady_skip _).bind fun _ => Steady.pure out
  omega

theorem steady_indexBlock : Steady (skipIndexBlock sizes) :=
  (steady_signature _ _).bind fun _ => (steady_versionZero _).bind fun _ => (steady_skip 1).bind fun _ =>
    steady_skip sizes.offset

theorem steady_dataBlock (blockOffsetSize : Nat) : Steady (skipDataBlock sizes blockOffsetSize) :=
  (steady_signature _ _).bind fun _ => (steady_versionZero _).bind fun _ => (steady_skip 1).bind fun _ =>
    (steady_skip sizes.offset).bind fun _ => steady_skip blockOffsetSize

theorem dataBlockCapacity_le (bounded : header.Bounded) {sblk : Nat} (direct : sblk < sblkFirstIdx) :
    dataBlockCapacity sblk header.dataBlockMinElements ≤ 2 ^ 9 := by
  have power : 2 ^ ((sblk + 1) / 2) ≤ 2 ^ 1 := by
    unfold sblkFirstIdx at direct
    exact Nat.pow_le_pow_right (by decide) (by omega)
  exact Nat.mul_le_mul bounded.dataBlockMinElements.le power

theorem readDataBlock_safe (bounded : header.Bounded) (valid : view.sizes.Valid) {wanted capacity : Nat}
    (less : wanted ≤ capacity) (few : capacity ≤ 2 ^ 9) :
    ¬ (readDataBlock view header address wanted capacity).Panics := by
  have offset := valid.offset_le
  have bits := bounded.maxNelmtsBits
  have elements : capacity * header.elementSize ≤ 2 ^ 9 * 256 := Nat.mul_le_mul few bounded.elementSize.le
  have steady := @steady_dataBlock view.sizes ((header.maxNelmtsBits + 7) / 8)
  intro panics
  rcases (View.open_panics (fun _ _ cursor =>
    (readElements view.sizes wanted header.elementSize header.clientId cursor).1) (fun _ => _) (fun _ _ => rfl)
    steady fun _ _ _ => four_le_of_signature).mp panics with large | ⟨block, ⟨⟩, cursor, opened, later⟩
  · unfold isizeMax at large
    omega
  · exact (steady_elements (by omega)).safe cursor (opened.inBounds steady) later

theorem readDataBlocks_safe (bounded : header.Bounded) (valid : view.sizes.Valid) {out : List Element}
    {addresses : List (Option Nat)} (direct : addresses.length = sblkFirstIdx) :
    ¬ (readDataBlocks view header out addresses).Panics := by
  apply Outcome.not_panics_bind
  · apply Outcome.not_panics_foldlM
    rintro out ⟨address, sblk⟩ member
    have bound : sblk < sblkFirstIdx := direct ▸ (List.mem_zipIdx' member).1
    have capacity := dataBlockCapacity_le bounded bound
    dsimp only
    unfold appendDataBlock
    split
    · exact Outcome.not_panics_ok _
    · cases address with
      | none => exact Outcome.not_panics_ok _
      | some address =>
        exact Outcome.not_panics_bind (readDataBlock_safe bounded valid (Nat.min_le_left _ _) capacity)
          fun _ => Outcome.not_panics_ok _
  · intro out
    split
    · exact Outcome.not_panics_error _
    · exact Outcome.not_panics_ok _

/-- What stands in an index block, and in the data blocks it points at, does no harm. -/
theorem indexBlock_safe (bounded : header.Bounded) (valid : view.sizes.Valid) {cursor : Cursor}
    (within : cursor.InBounds) :
    ¬ ((readInline view.sizes header cursor).1 >>= fun out =>
      if out.length ≥ header.maxIndexSet then .ok out
      else (Format.times (Cursor.address view.sizes) sblkFirstIdx (readInline view.sizes header cursor).2).1 >>=
        fun addresses => readDataBlocks view header out addresses : Code (List Element)).Panics := by
  have steady := @steady_inline view.sizes header bounded
  rw [Outcome.panics_bind]
  rintro (here | ⟨out, found, later⟩)
  · exact steady.fst_safe within here
  · have behind : (readInline view.sizes header cursor).2.InBounds :=
      (steady.forward cursor).inBounds within
    split at later
    · exact Outcome.not_panics_ok _ later
    · have addresses := (steady_address view.sizes).times sblkFirstIdx
      obtain ⟨pointers, read, later⟩ := (Outcome.panics_bind.mp later).resolve_left (addresses.fst_safe behind)
      exact readDataBlocks_safe bounded valid (times_length (Prod.ext read rfl)) later

/-- Past its length, an index block does no harm. -/
theorem readIndexBlock_panics {len : Nat} (bounded : header.Bounded) (valid : view.sizes.Valid)
    (found : indexBlockLen build view.sizes header = .ok len) :
    (readIndexBlock build view header address).Panics ↔ isizeMax < len := by
  rw [readIndexBlock, found, Outcome.ok_bind]
  refine (View.open_panics (fun _ _ cursor => (readInline view.sizes header cursor).1 >>= fun out =>
      if out.length ≥ header.maxIndexSet then .ok out
      else (Format.times (Cursor.address view.sizes) sblkFirstIdx (readInline view.sizes header cursor).2).1 >>=
        fun addresses => readDataBlocks view header out addresses) (fun _ => len - 4) (fun _ _ => rfl)
    steady_indexBlock fun _ _ _ => four_le_of_signature).trans ?_
  apply or_iff_left
  rintro ⟨block, found, cursor, opened, panics⟩
  exact indexBlock_safe bounded valid (opened.inBounds steady_indexBlock) panics

/-- An extensible array whose header is in order, and whose least data block has more bits than
the array; in an unchecked build, so many more that the index block would have a negative
length. -/
def HarmfulExtensibleArray (build : Build) (view : View) (address : Nat) : Prop :=
  ∃ buf header cursor indexBlock,
    view.Opens (parseExtensibleArrayHeader view.sizes) address
      (4 + 1 + 1 + 1 + 1 + 1 + 1 + 1 + 1 + view.sizes.length * 6 + view.sizes.offset + 4)
      "extensible array header" buf header cursor ∧
    header.indexBlockAddress = some indexBlock ∧ header.elementSize ≠ 0 ∧ header.dataBlockMinElements ≠ 0 ∧
    ¬ LeastFits header ∧
    (build = .debug ∨ indexBlockSpan view.sizes header < savedAddresses view.sizes header)

theorem indexBlock_panics (bounded : header.Bounded) (valid : view.sizes.Valid) :
    (readIndexBlock build view header address).Panics ↔ ¬ LeastFits header ∧
      (build = .debug ∨ indexBlockSpan view.sizes header < savedAddresses view.sizes header) := by
  have span := indexBlockSpan_le bounded valid
  have saved := savedAddresses_le bounded valid
  have word : isizeMax + 64 < wordSize := by decide
  have large : 2 ^ 20 ≤ isizeMax := by decide
  by_cases fits : LeastFits header
  · rw [readIndexBlock_panics bounded valid (indexBlockLen_of_fits bounded valid fits)]
    exact ⟨fun past => by omega, fun ⟨short, _⟩ => absurd fits short⟩
  · rw [and_iff_right fits]
    cases build with
    | debug =>
      have short : (Build.debug.sub header.maxNelmtsBits
        (Nat.log2 header.dataBlockMinElements) : Code Nat).Panics :=
        Build.sub_panics.mpr ⟨rfl, Nat.not_le.mp fits⟩
      have len : (indexBlockLen .debug view.sizes header).Panics := Outcome.panics_bind.mpr (.inl short)
      exact ⟨fun _ => .inl rfl, fun _ => Outcome.panics_bind.mpr (.inl len)⟩
    | release =>
      rw [readIndexBlock_panics bounded valid (indexBlockLen_of_not_fits bounded valid fits),
        or_iff_right nofun]
      split
      · next within => exact ⟨fun past => by omega, fun past => by omega⟩
      · next past => exact ⟨fun _ => by omega, fun _ => by omega⟩

theorem readExtensibleArray_panics (valid : view.sizes.Valid) :
    (readExtensibleArray build view address).Panics ↔ HarmfulExtensibleArray build view address := by
  have answered : ¬ isizeMax < 4 + 1 + 1 + 1 + 1 + 1 + 1 + 1 + 1 + view.sizes.length * 6 +
    view.sizes.offset + 4 := by
    have offset := valid.offset_le
    have length := valid.length_le
    unfold isizeMax
    omega
  have contents {header : ExtensibleArrayHeader} (bounded : header.Bounded) (indexBlock : Nat) :
      (if header.elementSize = 0 ∨ header.dataBlockMinElements = 0 then
        .error (.malformed "extensible array header declares a zero element or block size")
      else readIndexBlock build view header indexBlock : Code (List Element)).Panics ↔
      header.elementSize ≠ 0 ∧ header.dataBlockMinElements ≠ 0 ∧ ¬ LeastFits header ∧
        (build = .debug ∨ indexBlockSpan view.sizes header < savedAddresses view.sizes header) := by
    split
    · next zero =>
      refine iff_of_false (Outcome.not_panics_error _) ?_
      rintro ⟨size, least, -⟩
      exact absurd zero (not_or.mpr ⟨size, least⟩)
    · next positive =>
      obtain ⟨size, least⟩ := not_or.mp positive
      rw [and_iff_right size, and_iff_right least, indexBlock_panics bounded valid]
  refine (View.open_panics (fun _ header _ => _) (fun _ => _) (fun _ _ => rfl) steady_extensibleArrayHeader
    fun _ _ _ => four_le_of_signature).trans ?_
  rw [or_iff_right answered]
  constructor
  · rintro ⟨buf, header, cursor, opened, panics⟩
    have bounded := yields_extensibleArrayHeader _ header cursor opened.front
    cases found : header.indexBlockAddress with
    | none =>
      rw [found] at panics
      exact absurd panics (Outcome.not_panics_ok _)
    | some indexBlock =>
      rw [found] at panics
      exact ⟨buf, header, cursor, indexBlock, opened, found, (contents bounded indexBlock).mp panics⟩
  · rintro ⟨buf, header, cursor, indexBlock, opened, found, harm⟩
    have bounded := yields_extensibleArrayHeader _ header cursor opened.front
    refine ⟨buf, header, cursor, opened, ?_⟩
    rw [found]
    exact (contents bounded indexBlock).mpr harm

end ExtensibleArray

section Resolving

variable {build : Build} {view : View}

/-- An index that does harm where it is resolved. A single chunk and chunks back to back do none. -/
def HarmfulIndex (build : Build) (view : View) (index : ChunkIndex) (address : Nat) (shape chunkDims : List Nat)
    (filtered : Bool) : Prop :=
  match index with
  | .fixedArray _ => elementCount (chunkGrid shape chunkDims) ≤ view.size ∧ HarmfulFixedArray build view address
  | .extensibleArray .. => HarmfulExtensibleArray build view address
  | .btreeV2 .. => HarmfulTree build view address chunkDims filtered
  | _ => False

theorem chunkCount_safe (total : Nat) : ¬ (chunkCount view total).Panics := by
  unfold chunkCount
  split
  · exact Outcome.not_panics_error _
  · exact Outcome.not_panics_ok _

theorem read_panics {index : ChunkIndex} {address : Option Nat} {shape chunkDims : List Nat} {elementSize : Nat}
    {filtered : Bool} (valid : view.sizes.Valid) :
    (read (readBtree2Chunks build view) build view index address shape chunkDims elementSize filtered).Panics ↔
      ∃ place, address = some place ∧ HarmfulIndex build view index place shape chunkDims filtered := by
  have keeps {α : Type} {step : Code α} {result : α → List ChunkRecord} :
      (step >>= fun found => .ok (result found)).Panics ↔ step.Panics :=
    Outcome.panics_bind.trans (or_iff_left fun ⟨_, _, done⟩ => Outcome.not_panics_ok _ done)
  cases address with
  | none => simp [read]
  | some place =>
    simp only [Option.some.injEq, exists_eq_left']
    refine keeps.trans ?_
    cases index with
    | singleChunk filteredSize filterMask => exact iff_of_false (Outcome.not_panics_ok _) id
    | implicit => exact iff_of_false (fun panics => chunkCount_safe _ (keeps.mp panics)) id
    | fixedArray pageBits =>
      refine Outcome.panics_bind.trans ((or_iff_right (chunkCount_safe _)).trans ?_)
      unfold HarmfulIndex chunkCount
      split
      · next many => simp [Nat.not_le.mpr many]
      · next few =>
        simp only [Outcome.ok.injEq, exists_eq_left', Nat.not_lt.mp few, true_and]
        exact keeps.trans (readFixedArray_panics valid)
    | extensibleArray maxBits indexElements minPointers minElements pageBits =>
      exact keeps.trans (readExtensibleArray_panics valid)
    | btreeV2 nodeSize splitPercent mergePercent =>
      exact keeps.trans (readBtree2Chunks_panics valid.offset_le)
    | btreeV1 => exact iff_of_false (Outcome.not_panics_error _) id

end Resolving

end ChunkIndex

section Walkers

variable {view : View}

end Walkers

end Oxcdf
