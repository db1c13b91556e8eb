import Oxcdf.Superblock

/-! What a stored superblock says, read back from a file at any offset.

The reader takes a window of 96 bytes. Every stored superblock is at most that
long but one: version 1 with eight-byte addresses takes 100.
-/

set_option autoImplicit false

namespace Oxcdf

open Foundation Foundation.Buffer Foundation.Format

namespace SymbolTableEntry

def cacheType : CachedInfo → Nat
  | .none => 0
  | .group _ _ => 1
  | .symbolicLink _ => 2

/-- The part of the scratch-pad in use. -/
def encodeCached (sizes : Sizes) : CachedInfo → Bytes
  | .none => []
  | .group btreeAddress heapAddress =>
    encodeAddress sizes (some btreeAddress) ++ encodeAddress sizes (some heapAddress)
  | .symbolicLink linkValueOffset => littleEndian 4 linkValueOffset

def encodeScratch (sizes : Sizes) (cached : CachedInfo) : Bytes :=
  encodeCached sizes cached ++ List.replicate (16 - (encodeCached sizes cached).length) 0

def encode (sizes : Sizes) (entry : SymbolTableEntry) : Bytes :=
  littleEndian sizes.offset entry.linkNameOffset ++ (encodeAddress sizes entry.objectHeaderAddress ++
    (littleEndian 4 (cacheType entry.cached) ++
      (List.replicate 4 0 ++ encodeScratch sizes entry.cached)))

def FitsCached (sizes : Sizes) : CachedInfo → Prop
  | .none => True
  | .group btreeAddress heapAddress =>
    btreeAddress < undefinedForWidth sizes.offset ∧ heapAddress < undefinedForWidth sizes.offset
  | .symbolicLink linkValueOffset => linkValueOffset < 256 ^ 4

structure Fits (sizes : Sizes) (entry : SymbolTableEntry) : Prop where
  linkNameOffset : entry.linkNameOffset < 256 ^ sizes.offset
  objectHeaderAddress : sizes.FitsAddress entry.objectHeaderAddress
  cached : FitsCached sizes entry.cached

variable {sizes : Sizes}

theorem encodeScratch_length (valid : sizes.Valid) (cached : CachedInfo) :
    (encodeScratch sizes cached).length = 16 := by
  have narrow := valid.offset_le
  have used : (encodeCached sizes cached).length ≤ 16 := by
    cases cached with
    | none => simp [encodeCached]
    | group => simp only [encodeCached, List.length_append, encodeAddress_length]; omega
    | symbolicLink => simp [encodeCached]
  rw [encodeScratch, List.length_append, List.length_replicate]
  omega

theorem encode_length (valid : sizes.Valid) (entry : SymbolTableEntry) :
    (entry.encode sizes).length = encodedLen sizes := by
  simp only [encode, encodedLen, List.length_append, littleEndian_length, encodeAddress_length,
    encodeScratch_length valid, List.length_replicate]
  omega

theorem reads_cached (valid : sizes.Valid) {cached : CachedInfo} (fits : FitsCached sizes cached) :
    Reads (parseCached sizes (cacheType cached)) (encodeCached sizes cached) cached := by
  cases cached with
  | none => exact Reads.pure _
  | group btreeAddress heapAddress =>
    exact (reads_addressRequired valid.offset_le fits.1 _).bind
      ((reads_addressRequired valid.offset_le fits.2 _).bind_pure _)
  | symbolicLink linkValueOffset => exact (Cursor.reads_u32 fits).bind_pure _

theorem cacheType_lt (cached : CachedInfo) : cacheType cached < 256 ^ 4 := by
  cases cached <;> simp [cacheType]

theorem reads_entry (valid : sizes.Valid) {entry : SymbolTableEntry} (fits : entry.Fits sizes) :
    Reads (parse sizes) (entry.encode sizes) entry := by
  have scratch := Cursor.reads_take (encodeScratch sizes entry.cached)
  rw [encodeScratch_length valid] at scratch
  have cached := reads_cached valid fits.cached []
    (List.replicate (16 - (encodeCached sizes entry.cached).length) 0)
  refine (Cursor.reads_uint valid.offset_le fits.linkNameOffset).bind ?_
  refine (reads_address valid.offset_le fits.objectHeaderAddress).bind ?_
  refine (Cursor.reads_u32 (cacheType_lt _)).bind ((Cursor.reads_skip _).bind ?_)
  refine scratch.bind_done fun input => ?_
  -- The scratch-pad is parsed from a cursor of its own.
  have parsed : (parseCached sizes (cacheType entry.cached)
      (Cursor.start (encodeScratch sizes entry.cached))).1 = .ok entry.cached := congrArg Prod.fst cached
  rw [parsed]
  rfl

end SymbolTableEntry

section Stored

/-- A superblock of version 0, or of version 1 when it has a rank for indexed storage. -/
structure OldSuperblock where
  sizes : Sizes
  groupLeafNodeK : Nat
  groupInternalNodeK : Nat
  consistencyFlags : Nat
  indexedStorageK : Option Nat
  baseAddress : Nat
  freeSpaceInfo : Option Nat
  endOfFileAddress : Nat
  driverInfo : Option Nat
  root : SymbolTableEntry

/-- A superblock of version 2 or 3. -/
structure NewSuperblock where
  version : Nat
  known : version = 2 ∨ version = 3
  sizes : Sizes
  consistencyFlags : Nat
  baseAddress : Nat
  extensionAddress : Option Nat
  endOfFileAddress : Nat
  rootObjectHeader : Nat

inductive StoredSuperblock where
  | old (fields : OldSuperblock)
  | new (fields : NewSuperblock)

namespace OldSuperblock

variable (stored : OldSuperblock)

def version : Nat := if stored.indexedStorageK.isSome then 1 else 0

def encodeIndexedStorageK : Bytes :=
  match stored.indexedStorageK with
  | some k => littleEndian 2 k ++ List.replicate 2 0
  | none => []

def encodeFields : Bytes :=
  littleEndian 1 0 ++ (littleEndian 1 0 ++ (List.replicate 1 0 ++ (littleEndian 1 0 ++
    (littleEndian 1 stored.sizes.offset ++ (littleEndian 1 stored.sizes.length ++
      (List.replicate 1 0 ++ (littleEndian 2 stored.groupLeafNodeK ++
        (littleEndian 2 stored.groupInternalNodeK ++ (littleEndian 4 stored.consistencyFlags ++
          (stored.encodeIndexedStorageK ++ (littleEndian stored.sizes.offset stored.baseAddress ++
            (encodeAddress stored.sizes stored.freeSpaceInfo ++
              (littleEndian stored.sizes.offset stored.endOfFileAddress ++
                encodeAddress stored.sizes stored.driverInfo)))))))))))))

def encode : Bytes :=
  Superblock.hdf5Signature ++ (littleEndian 1 stored.version ++
    (stored.encodeFields ++ stored.root.encode stored.sizes))

structure Fits : Prop where
  sizes : stored.sizes.Valid
  groupLeafNodeK : stored.groupLeafNodeK < 256 ^ 2
  groupInternalNodeK : stored.groupInternalNodeK < 256 ^ 2
  consistencyFlags : stored.consistencyFlags < 256 ^ 4
  indexedStorageK : ∀ k, stored.indexedStorageK = some k → k < 256 ^ 2
  baseAddress : stored.baseAddress < 256 ^ stored.sizes.offset
  freeSpaceInfo : stored.sizes.FitsAddress stored.freeSpaceInfo
  endOfFileAddress : stored.endOfFileAddress < 256 ^ stored.sizes.offset
  driverInfo : stored.sizes.FitsAddress stored.driverInfo
  root : stored.root.Fits stored.sizes

def meant (offset : Nat) : Superblock :=
  { version := stored.version, sizes := stored.sizes, superblockOffset := offset,
    baseAddress := stored.baseAddress, endOfFileAddress := stored.endOfFileAddress,
    extensionAddress := none, root := .symbolTable stored.root,
    groupInternalNodeK := stored.groupInternalNodeK, groupLeafNodeK := stored.groupLeafNodeK,
    indexedStorageInternalNodeK := stored.indexedStorageK.getD Superblock.defaultIstoreK }

end OldSuperblock

namespace NewSuperblock

variable (stored : NewSuperblock)

def encodeFields : Bytes :=
  littleEndian 1 stored.sizes.offset ++ (littleEndian 1 stored.sizes.length ++
    (littleEndian 1 stored.consistencyFlags ++ (littleEndian stored.sizes.offset stored.baseAddress ++
      (encodeAddress stored.sizes stored.extensionAddress ++
        (littleEndian stored.sizes.offset stored.endOfFileAddress ++
          encodeAddress stored.sizes (some stored.rootObjectHeader))))))

/-- What the checksum is of. -/
def encodeBody : Bytes :=
  Superblock.hdf5Signature ++ (littleEndian 1 stored.version ++ stored.encodeFields)

def encode : Bytes :=
  stored.encodeBody ++ littleEndian 4 (Checksum.metadata stored.encodeBody).toNat

structure Fits : Prop where
  sizes : stored.sizes.Valid
  consistencyFlags : stored.consistencyFlags < 256 ^ 1
  baseAddress : stored.baseAddress < 256 ^ stored.sizes.offset
  extensionAddress : stored.sizes.FitsAddress stored.extensionAddress
  endOfFileAddress : stored.endOfFileAddress < 256 ^ stored.sizes.offset
  rootObjectHeader : stored.rootObjectHeader < undefinedForWidth stored.sizes.offset

def meant (offset : Nat) : Superblock :=
  { version := stored.version, sizes := stored.sizes, superblockOffset := offset,
    baseAddress := stored.baseAddress, endOfFileAddress := stored.endOfFileAddress,
    extensionAddress := stored.extensionAddress, root := .objectHeader stored.rootObjectHeader,
    groupInternalNodeK := 0, groupLeafNodeK := 0,
    indexedStorageInternalNodeK := Superblock.defaultIstoreK }

end NewSuperblock

namespace StoredSuperblock

def version : StoredSuperblock → Nat
  | .old fields => fields.version
  | .new fields => fields.version

def sizes : StoredSuperblock → Sizes
  | .old fields => fields.sizes
  | .new fields => fields.sizes

def encode : StoredSuperblock → Bytes
  | .old fields => fields.encode
  | .new fields => fields.encode

def Fits : StoredSuperblock → Prop
  | .old fields => fields.Fits
  | .new fields => fields.Fits

/-- The superblock that a signature at this offset stands before. -/
def meant (offset : Nat) : StoredSuperblock → Superblock
  | .old fields => fields.meant offset
  | .new fields => fields.meant offset

end StoredSuperblock

end Stored

namespace Superblock

section Reading

theorem validateSizes_valid {sizes : Sizes} (valid : sizes.Valid) :
    validateSizes sizes.offset sizes.length = .ok sizes := by
  have each : ∀ what width, width ∈ [1, 2, 4, 8] → validateSize what width = .ok () := by
    intro what width listed
    simp only [List.mem_cons, List.not_mem_nil, or_false] at listed
    rcases listed with rfl | rfl | rfl | rfl <;> rfl
  rw [validateSizes, each _ _ valid.offset, each _ _ valid.length]
  rfl

theorem width_fits {width : Nat} (narrow : width ≤ 8) : width < 256 ^ 1 := by omega

theorem reads_indexedStorageK {stored : OldSuperblock} (fits : stored.Fits) :
    Reads (parseIndexedStorageK stored.version) stored.encodeIndexedStorageK
      (stored.indexedStorageK.getD defaultIstoreK) := by
  have small := fits.indexedStorageK
  revert small
  unfold parseIndexedStorageK OldSuperblock.version OldSuperblock.encodeIndexedStorageK
  cases stored.indexedStorageK with
  | none => exact fun _ => Reads.pure _
  | some k =>
    intro small
    exact (Cursor.reads_u16 (small k rfl)).bind 
      ((Cursor.reads_skip (List.replicate 2 0)).bind_pure fun _ => k)

theorem reads_oldFields {stored : OldSuperblock} (fits : stored.Fits) :
    Reads (parseOldFields stored.version) stored.encodeFields
      { sizes := stored.sizes, groupLeafNodeK := stored.groupLeafNodeK,
        groupInternalNodeK := stored.groupInternalNodeK,
        indexedStorageInternalNodeK := stored.indexedStorageK.getD defaultIstoreK,
        baseAddress := stored.baseAddress, endOfFileAddress := stored.endOfFileAddress } := by
  have narrow := fits.sizes.offset_le
  refine (Cursor.reads_u8 (by decide)).bind ((Cursor.reads_u8 (by decide)).bind ?_)
  refine (Cursor.reads_skip (List.replicate 1 0)).bind ((Cursor.reads_u8 (by decide)).bind ?_)
  refine (Cursor.reads_u8 (width_fits narrow)).bind ?_
  refine (Cursor.reads_u8 (width_fits fits.sizes.length_le)).bind ?_
  refine (Cursor.reads_skip (List.replicate 1 0)).bind ?_
  refine Reads.bind_lift (validateSizes_valid fits.sizes) ?_
  refine (Cursor.reads_u16 fits.groupLeafNodeK).bind ((Cursor.reads_u16 fits.groupInternalNodeK).bind ?_)
  refine (Cursor.reads_u32 fits.consistencyFlags).bind ((reads_indexedStorageK fits).bind ?_)
  refine (Cursor.reads_uint narrow fits.baseAddress).bind ((reads_address narrow fits.freeSpaceInfo).bind ?_)
  refine (Cursor.reads_uint narrow fits.endOfFileAddress).bind ?_
  exact (reads_address narrow fits.driverInfo).bind_pure _

theorem reads_newFields {stored : NewSuperblock} (fits : stored.Fits) (offset : Nat) :
    Reads (parseNewFields stored.version offset) stored.encodeFields (stored.meant offset) := by
  have narrow := fits.sizes.offset_le
  refine (Cursor.reads_u8 (width_fits narrow)).bind ?_
  refine (Cursor.reads_u8 (width_fits fits.sizes.length_le)).bind ?_
  refine Reads.bind_lift (validateSizes_valid fits.sizes) ((Cursor.reads_u8 fits.consistencyFlags).bind ?_)
  refine (Cursor.reads_uint narrow fits.baseAddress).bind ((reads_address narrow fits.extensionAddress).bind ?_)
  refine (Cursor.reads_uint narrow fits.endOfFileAddress).bind ?_
  exact (reads_addressRequired narrow fits.rootObjectHeader _).bind_pure _

theorem parseRootEntry_apply (sizes : Sizes) (cursor : Cursor) :
    parseRootEntry sizes cursor =
      if cursor.remaining < SymbolTableEntry.encodedLen sizes then
        (.error (.malformed "superblock is truncated before the root group symbol table entry"), cursor)
      else SymbolTableEntry.parse sizes cursor := by
  unfold parseRootEntry
  rw [Session.bind_ok (rfl : Cursor.left cursor = _)]
  split <;> rfl

theorem reads_rootEntry {sizes : Sizes} (valid : sizes.Valid) {entry : SymbolTableEntry}
    (fits : entry.Fits sizes) : Reads (parseRootEntry sizes) (entry.encode sizes) entry := by
  intro before after
  have enough : ¬ Cursor.remaining ⟨before ++ entry.encode sizes ++ after, before.length⟩ <
      SymbolTableEntry.encodedLen sizes := by
    unfold Cursor.remaining
    simp only [List.length_append, ← SymbolTableEntry.encode_length valid entry]
    omega
  rw [parseRootEntry_apply, if_neg enough]
  exact SymbolTableEntry.reads_entry valid fits before after

theorem parseVersion_old (offset : Nat) (stored : OldSuperblock) :
    parseVersion offset stored.version = parseV0V1 stored.version offset := by
  unfold OldSuperblock.version
  cases stored.indexedStorageK <;> rfl

theorem parseVersion_new (offset : Nat) (stored : NewSuperblock) :
    parseVersion offset stored.version = parseV2V3 stored.version offset := by
  rcases stored.known with known | known <;> rw [known] <;> rfl

theorem version_fits (stored : OldSuperblock) : stored.version < 256 ^ 1 := by
  unfold OldSuperblock.version
  split <;> decide

theorem reads_old {stored : OldSuperblock} (fits : stored.Fits) (offset : Nat) :
    Reads (parse offset) stored.encode (stored.meant offset) := by
  refine (Cursor.reads_skip hdf5Signature).bind ((Cursor.reads_u8 (version_fits stored)).bind ?_)
  rw [parseVersion_old]
  exact (reads_oldFields fits).bind ((reads_rootEntry fits.sizes fits.root).bind_pure _)

/-- The checksum is read back where all before it is the body. -/
theorem verify_body (body after : Bytes) :
    (verify ⟨body ++ (littleEndian 4 (Checksum.metadata body).toNat ++ after), body.length⟩).1 =
      .ok () := by
  have small : (Checksum.metadata body).toNat < 256 ^ 4 := (Checksum.metadata body).toNat_lt
  have stored := (Cursor.reads_u32 small).step (fun stored : Nat => (do
    let computed := (Checksum.metadata body).toNat
    if stored ≠ computed then Session.throw (.checksumMismatch "superblock" stored computed)
    else pure () : Parse Unit)) body after
  have passed : Cursor.passed ⟨body ++ (littleEndian 4 (Checksum.metadata body).toNat ++ after), body.length⟩ =
      (.ok body, ⟨body ++ (littleEndian 4 (Checksum.metadata body).toNat ++ after), body.length⟩) := by
    rw [Cursor.passed, List.take_left]
  unfold verify
  rw [Session.bind_ok passed]
  rw [if_neg (not_not_intro rfl)] at stored
  exact congrArg Prod.fst stored

theorem parse_new {stored : NewSuperblock} (fits : stored.Fits) (offset : Nat) (after : Bytes) :
    (parse offset (Cursor.start (stored.encode ++ after))).1 = .ok (stored.meant offset) := by
  have known : stored.version < 256 ^ 1 := by
    rcases stored.known with known | known <;> rw [known] <;> decide
  have checked := verify_body stored.encodeBody after
  unfold NewSuperblock.encode
  revert checked
  generalize littleEndian 4 (Checksum.metadata stored.encodeBody).toNat = sum
  intro checked
  have skipped := (Cursor.reads_skip hdf5Signature).step (fun _ => Cursor.u8 >>= parseVersion offset) []
    (littleEndian 1 stored.version ++ (stored.encodeFields ++ (sum ++ after)))
  have named := (Cursor.reads_u8 known).step (parseVersion offset) hdf5Signature
    (stored.encodeFields ++ (sum ++ after))
  have fields := (reads_newFields fits offset).step (fun superblock => do
    verify
    pure superblock) (hdf5Signature ++ littleEndian 1 stored.version) (sum ++ after)
  rw [parseVersion_new] at named
  have steps := (skipped.trans named).trans fields
  unfold NewSuperblock.encodeBody at checked ⊢
  simp only [List.nil_append, List.append_assoc] at steps checked ⊢
  rw [Session.bind_of_fst checked] at steps
  exact congrArg Prod.fst steps

end Reading

section Window

variable (build : Build)

/-- Parsing at an offset of a file sees the next 96 bytes, or what there is. -/
theorem parseAt_window {file : FileImage} {before rest : Bytes} (whole : file.bytes = before ++ rest) :
    (parseAt build before.length).against (fileSource file) =
      (parse before.length (Cursor.start (rest.take 96))).1 := by
  have size : file.size = before.length + rest.length := by
    rw [FileImage.size, whole, List.length_append]
  have room : file.Holds before.length (min rest.length 96) := by
    unfold FileImage.Holds
    omega
  have window : file.part before.length (min rest.length 96) = rest.take 96 := by
    rw [FileImage.part, slice, whole, List.drop_left, Nat.min_comm, ← List.take_eq_take_min]
  have left : file.size - before.length = rest.length := by omega
  unfold parseAt
  rw [Walk.against_bind, Walk.against_size]
  change (Walk.lift (build.sub file.size before.length) >>= _ : Walk Superblock).against _ = _
  rw [build.sub_of_le (by omega), Walk.lift_ok_bind, left, Walk.against_bind, Walk.against_readVec,
    fileSource_readVec file _ _ room.le_isizeMax, if_pos room, window, Outcome.ok_bind, Walk.against_lift]

theorem encodeFields_length {stored : OldSuperblock} : stored.encodeFields.length =
    15 + stored.encodeIndexedStorageK.length + 4 * stored.sizes.offset := by
  simp only [OldSuperblock.encodeFields, List.length_append, littleEndian_length,
    encodeAddress_length, List.length_replicate]
  omega

theorem old_length {stored : OldSuperblock} (fits : stored.Fits) : stored.encode.length =
    48 + stored.encodeIndexedStorageK.length + 6 * stored.sizes.offset := by
  simp only [OldSuperblock.encode, List.length_append, littleEndian_length, encodeFields_length,
    SymbolTableEntry.encode_length fits.sizes, SymbolTableEntry.encodedLen, hdf5Signature,
    List.length_cons, List.length_nil]
  omega

theorem new_length (stored : NewSuperblock) :
    stored.encode.length = 16 + 4 * stored.sizes.offset := by
  simp only [NewSuperblock.encode, NewSuperblock.encodeBody, NewSuperblock.encodeFields,
    List.length_append, littleEndian_length, encodeAddress_length, hdf5Signature,
    List.length_cons, List.length_nil]
  omega

theorem encodeIndexedStorageK_length (stored : OldSuperblock) :
    stored.encodeIndexedStorageK.length = if stored.version = 1 then 4 else 0 := by
  unfold OldSuperblock.encodeIndexedStorageK OldSuperblock.version
  cases stored.indexedStorageK <;> simp

/-- A root entry that the window cuts off. -/
theorem parse_truncated {stored : OldSuperblock} (fits : stored.Fits) (offset : Nat) {tail : Bytes}
    (short : tail.length < SymbolTableEntry.encodedLen stored.sizes) :
    (parse offset (Cursor.start (hdf5Signature ++ (littleEndian 1 stored.version ++
      (stored.encodeFields ++ tail))))).1 =
        .error (.malformed "superblock is truncated before the root group symbol table entry") := by
  have skipped := (Cursor.reads_skip hdf5Signature).step (fun _ => Cursor.u8 >>= parseVersion offset) []
    (littleEndian 1 stored.version ++ (stored.encodeFields ++ tail))
  have named := (Cursor.reads_u8 (version_fits stored)).step (parseVersion offset) hdf5Signature
    (stored.encodeFields ++ tail)
  rw [parseVersion_old] at named
  have cut : ∀ before : Bytes, (parseRootEntry stored.sizes ⟨before ++ tail, before.length⟩).1 =
      .error (.malformed "superblock is truncated before the root group symbol table entry") := by
    intro before
    have few : Cursor.remaining ⟨before ++ tail, before.length⟩ < SymbolTableEntry.encodedLen stored.sizes := by
      unfold Cursor.remaining
      simp only [List.length_append]
      omega
    rw [parseRootEntry_apply, if_pos few]
  have fields := (reads_oldFields fits).step (fun fields => do
    let entry ← parseRootEntry fields.sizes
    pure
      { version := stored.version, sizes := fields.sizes, superblockOffset := offset,
        baseAddress := fields.baseAddress, endOfFileAddress := fields.endOfFileAddress,
        extensionAddress := none, root := .symbolTable entry,
        groupInternalNodeK := fields.groupInternalNodeK, groupLeafNodeK := fields.groupLeafNodeK,
        indexedStorageInternalNodeK := fields.indexedStorageInternalNodeK : Superblock })
    (hdf5Signature ++ littleEndian 1 stored.version) tail
  have steps := (skipped.trans named).trans fields
  rw [Session.bind_error (Prod.ext (cut _) rfl)] at steps
  exact congrArg Prod.fst steps

theorem take_window {code : Bytes} (short : code.length ≤ 96) (after : Bytes) :
    (code ++ after).take 96 = code ++ after.take (96 - code.length) := by
  rw [List.take_append, List.take_of_length_le short]

theorem parse_window_new {stored : NewSuperblock} (fits : stored.Fits) (offset : Nat) (after : Bytes) :
    (parse offset (Cursor.start ((stored.encode ++ after).take 96))).1 = .ok (stored.meant offset) := by
  have narrow := fits.sizes.offset_le
  have short : stored.encode.length ≤ 96 := by
    rw [new_length]
    omega
  rw [take_window short]
  exact parse_new fits offset _

theorem parse_window_old {stored : OldSuperblock} (fits : stored.Fits) (offset : Nat) (after : Bytes)
    (short : stored.encode.length ≤ 96) :
    (parse offset (Cursor.start ((stored.encode ++ after).take 96))).1 = .ok (stored.meant offset) := by
  rw [take_window short]
  exact congrArg Prod.fst (reads_old fits offset [] _)

/-- A superblock longer than the window loses the end of its root entry. -/
theorem parse_window_long {stored : OldSuperblock} (fits : stored.Fits) (offset : Nat) (after : Bytes)
    (long : 96 < stored.encode.length) :
    (parse offset (Cursor.start ((stored.encode ++ after).take 96))).1 =
      .error (.malformed "superblock is truncated before the root group symbol table entry") := by
  have narrow := fits.sizes.offset_le
  have indexed := encodeIndexedStorageK_length stored
  have length := old_length fits
  have root := SymbolTableEntry.encode_length fits.sizes stored.root
  have extra : stored.encodeIndexedStorageK.length ≤ 4 := by
    rw [indexed]
    split <;> omega
  have front : (hdf5Signature ++ (littleEndian 1 stored.version ++ stored.encodeFields)).length ≤ 96 := by
    simp only [List.length_append, littleEndian_length, encodeFields_length, hdf5Signature,
      List.length_cons, List.length_nil]
    omega
  have window : (stored.encode ++ after).take 96 =
      hdf5Signature ++ (littleEndian 1 stored.version ++ (stored.encodeFields ++
        (stored.root.encode stored.sizes ++ after).take
          (96 - (hdf5Signature ++ (littleEndian 1 stored.version ++ stored.encodeFields)).length))) := by
    have cut := take_window front (stored.root.encode stored.sizes ++ after)
    simp only [OldSuperblock.encode, List.append_assoc] at cut ⊢
    exact cut
  rw [window]
  refine parse_truncated fits offset ?_
  have total : (hdf5Signature ++ (littleEndian 1 stored.version ++ stored.encodeFields)).length +
      (stored.root.encode stored.sizes).length = stored.encode.length := by
    simp only [OldSuperblock.encode, List.length_append]
    omega
  rw [List.length_take, ← root]
  omega

/-- The window holds a superblock of versions 0 and 1 unless it has both the rank
of version 1 and eight-byte addresses. -/
theorem old_length_le {stored : OldSuperblock} (fits : stored.Fits) :
    stored.encode.length ≤ 96 ↔ ¬ (stored.version = 1 ∧ stored.sizes.offset = 8) := by
  have listed := fits.sizes.offset
  simp only [List.mem_cons, List.not_mem_nil, or_false] at listed
  rw [old_length fits, encodeIndexedStorageK_length]
  split <;> omega

end Window

section RoundTrip

/-- A superblock stored anywhere in a file is read back exactly unless it is of
version 1 and has eight-byte addresses. -/
theorem superblock_encode_iff (build : Build) {stored : StoredSuperblock} (fits : stored.Fits)
    {file : FileImage} {before after : Bytes} (whole : file.bytes = before ++ (stored.encode ++ after)) :
    (parseAt build before.length).against (fileSource file) = .ok (stored.meant before.length) ↔
      ¬ (stored.version = 1 ∧ stored.sizes.offset = 8) := by
  rw [parseAt_window build whole]
  cases stored with
  | old stored =>
    refine Iff.trans ?_ (old_length_le fits)
    constructor
    · intro parsed
      by_contra long
      have cut := parse_window_long fits before.length after (Nat.lt_of_not_le long)
      cases cut.symm.trans parsed
    · exact parse_window_old fits before.length after
  | new stored =>
    have recent : stored.version ≠ 1 := by rcases stored.known with known | known <;> omega
    refine iff_of_true (parse_window_new fits before.length after) fun impossible => ?_
    exact recent impossible.1

/-- A group with its root entry cached, in a file of eight-byte addresses. -/
def cachedRoot (indexedStorageK : Option Nat) : OldSuperblock where
  sizes := { offset := 8, length := 8 }
  groupLeafNodeK := 4
  groupInternalNodeK := 16
  consistencyFlags := 0
  indexedStorageK
  baseAddress := 0
  freeSpaceInfo := none
  endOfFileAddress := 800
  driverInfo := none
  root := { linkNameOffset := 0, objectHeaderAddress := some 96, cached := .group 136 680 }

def storedFile (stored : StoredSuperblock) (small : stored.encode.length ≤ isizeMax) : FileImage :=
  ⟨stored.encode, small⟩

theorem cachedRoot_fits (indexedStorageK : Option Nat)
    (small : ∀ k, indexedStorageK = some k → k < 256 ^ 2) : (cachedRoot indexedStorageK).Fits where
  sizes := ⟨by simp [cachedRoot], by simp [cachedRoot]⟩
  groupLeafNodeK := by simp [cachedRoot]
  groupInternalNodeK := by simp [cachedRoot]
  consistencyFlags := by simp [cachedRoot]
  indexedStorageK := small
  baseAddress := by simp [cachedRoot]
  freeSpaceInfo := nofun
  endOfFileAddress := by simp [cachedRoot]
  driverInfo := nofun
  root :=
    { linkNameOffset := by simp [cachedRoot]
      objectHeaderAddress := fun _ same => Option.some.inj same ▸ (by decide : 96 < undefinedForWidth 8)
      cached := (by decide : 136 < undefinedForWidth 8 ∧ 680 < undefinedForWidth 8) }

/-- Version 0 with eight-byte addresses fills the window and is read back. -/
theorem superblock_encode_versionZero :
    (parseAt .debug 0).against (fileSource (storedFile (.old (cachedRoot none)) (by decide +kernel))) =
      .ok ((cachedRoot none).meant 0) :=
  (@superblock_encode_iff .debug (.old (cachedRoot none)) (cachedRoot_fits none nofun) _ [] []
    (List.append_nil _).symm).mpr (by decide)

/-- Version 1 with eight-byte addresses is refused, whatever follows it. -/
theorem superblock_encode_versionOne :
    (StoredSuperblock.old (cachedRoot (some 32))).Fits ∧
    (parseAt .debug 0).against (fileSource (storedFile (.old (cachedRoot (some 32))) (by decide +kernel))) =
      .error (.malformed "superblock is truncated before the root group symbol table entry") ∧
    (parseAt .release 0).against
        (fileSource ⟨(cachedRoot (some 32)).encode ++ List.replicate 700 0, by decide +kernel⟩) =
      .error (.malformed "superblock is truncated before the root group symbol table entry") :=
  ⟨cachedRoot_fits (some 32) fun _ same => Option.some.inj same ▸ by decide,
    by decide +kernel, by decide +kernel⟩

end RoundTrip

end Superblock

end Oxcdf
