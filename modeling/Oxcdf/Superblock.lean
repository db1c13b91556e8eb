import Oxcdf.Checksum
import Oxcdf.Cursor
import Oxcdf.Source

/-! The superblock. Versions 0 and 1 describe the root group with a symbol table
entry and carry the ranks of the group B-trees. Versions 2 and 3 name the root
group's object header and check themselves. -/

set_option autoImplicit false

namespace Oxcdf

open Foundation Foundation.Buffer

/-- What the scratch-pad of a symbol table entry caches. -/
inductive CachedInfo where
  | none
  | group (btreeAddress heapAddress : Nat)
  | symbolicLink (linkValueOffset : Nat)
  deriving DecidableEq, Repr

structure SymbolTableEntry where
  linkNameOffset : Nat
  /-- Absent for a soft link, which has no object of its own. -/
  objectHeaderAddress : Option Nat
  cached : CachedInfo
  deriving DecidableEq, Repr

namespace SymbolTableEntry

def encodedLen (sizes : Sizes) : Nat := sizes.offset * 2 + 4 + 4 + 16

/-- What the scratch-pad holds for a cache type. Types that are not known are
ignored: the object header address is definitive. -/
def parseCached (sizes : Sizes) (cacheType : Nat) : Parse CachedInfo :=
  match cacheType with
  | 1 => do
    let btreeAddress ← Cursor.addressRequired sizes "cached group B-tree"
    let heapAddress ← Cursor.addressRequired sizes "cached group local heap"
    pure (.group btreeAddress heapAddress)
  | 2 => do
    let linkValueOffset ← Cursor.u32
    pure (.symbolicLink linkValueOffset)
  | _ => pure .none

def parse (sizes : Sizes) : Parse SymbolTableEntry := do
  let linkNameOffset ← Cursor.uint sizes.offset
  let objectHeaderAddress ← Cursor.address sizes
  let cacheType ← Cursor.u32
  Cursor.skip 4
  let scratch ← Cursor.take 16
  let cached ← Session.lift (parseCached sizes cacheType (Cursor.start scratch)).1
  pure { linkNameOffset, objectHeaderAddress, cached }

end SymbolTableEntry

inductive RootGroup where
  | symbolTable (entry : SymbolTableEntry)
  | objectHeader (address : Nat)
  deriving DecidableEq, Repr

structure Superblock where
  version : Nat
  sizes : Sizes
  /-- Not zero when a user block precedes the signature. -/
  superblockOffset : Nat
  baseAddress : Nat
  endOfFileAddress : Nat
  extensionAddress : Option Nat
  root : RootGroup
  groupInternalNodeK : Nat
  groupLeafNodeK : Nat
  indexedStorageInternalNodeK : Nat
  deriving DecidableEq, Repr

namespace Superblock

def hdf5Signature : Bytes := [0x89, 0x48, 0x44, 0x46, 0x0d, 0x0a, 0x1a, 0x0a]

def defaultIstoreK : Nat := 32

/-- `u8::is_power_of_two`. -/
def isPowerOfTwo (width : Nat) : Bool := [1, 2, 4, 8, 16, 32, 64, 128].contains width

def validateSize (what : String) (width : Nat) : Code Unit :=
  if width = 0 ∨ width > 8 ∨ !isPowerOfTwo width then
    .error (.unsupported s!"size of {what}s is {width} bytes; only 1, 2, 4 and 8 are supported")
  else .ok ()

def validateSizes (offset length : Nat) : Code Sizes := do
  validateSize "offset" offset
  validateSize "length" length
  .ok { offset, length }

/-- What precedes the root entry in versions 0 and 1. -/
structure OldFields where
  sizes : Sizes
  groupLeafNodeK : Nat
  groupInternalNodeK : Nat
  indexedStorageInternalNodeK : Nat
  baseAddress : Nat
  endOfFileAddress : Nat

/-- Only version 1 stores the rank of the chunk B-tree. -/
def parseIndexedStorageK (version : Nat) : Parse Nat :=
  if version = 1 then do
    let k ← Cursor.u16
    Cursor.skip 2
    pure k
  else pure defaultIstoreK

def parseOldFields (version : Nat) : Parse OldFields := do
  let _freeSpaceVersion ← Cursor.u8
  let _rootEntryVersion ← Cursor.u8
  Cursor.skip 1
  let _sharedHeaderVersion ← Cursor.u8
  let offsetSize ← Cursor.u8
  let lengthSize ← Cursor.u8
  Cursor.skip 1
  let sizes ← Session.lift (validateSizes offsetSize lengthSize)
  let groupLeafNodeK ← Cursor.u16
  let groupInternalNodeK ← Cursor.u16
  let _consistencyFlags ← Cursor.u32
  let indexedStorageInternalNodeK ← parseIndexedStorageK version
  let baseAddress ← Cursor.uint sizes.offset
  let _freeSpaceInfo ← Cursor.address sizes
  let endOfFileAddress ← Cursor.uint sizes.offset
  let _driverInfo ← Cursor.address sizes
  pure
    { sizes := sizes, groupLeafNodeK, groupInternalNodeK, indexedStorageInternalNodeK, baseAddress,
      endOfFileAddress }

def parseRootEntry (sizes : Sizes) : Parse SymbolTableEntry := do
  let remaining ← Cursor.left
  if remaining < SymbolTableEntry.encodedLen sizes then
    Session.throw (.malformed "superblock is truncated before the root group symbol table entry")
  else SymbolTableEntry.parse sizes

def parseV0V1 (version superblockOffset : Nat) : Parse Superblock := do
  let fields ← parseOldFields version
  let entry ← parseRootEntry fields.sizes
  pure
    { version, sizes := fields.sizes, superblockOffset, baseAddress := fields.baseAddress,
      endOfFileAddress := fields.endOfFileAddress, extensionAddress := none,
      root := .symbolTable entry, groupInternalNodeK := fields.groupInternalNodeK,
      groupLeafNodeK := fields.groupLeafNodeK,
      indexedStorageInternalNodeK := fields.indexedStorageInternalNodeK }

/-- What precedes the checksum in versions 2 and 3. -/
def parseNewFields (version superblockOffset : Nat) : Parse Superblock := do
  let offsetSize ← Cursor.u8
  let lengthSize ← Cursor.u8
  let sizes ← Session.lift (validateSizes offsetSize lengthSize)
  let _consistencyFlags ← Cursor.u8
  let baseAddress ← Cursor.uint sizes.offset
  let extensionAddress ← Cursor.address sizes
  let endOfFileAddress ← Cursor.uint sizes.offset
  let rootObjectHeader ← Cursor.addressRequired sizes "root group object header"
  pure
    { version, sizes, superblockOffset, baseAddress, endOfFileAddress, extensionAddress,
      root := .objectHeader rootObjectHeader, groupInternalNodeK := 0, groupLeafNodeK := 0,
      indexedStorageInternalNodeK := defaultIstoreK }

/-- The checksum of everything before it. -/
def verify : Parse Unit := do
  let before ← Cursor.passed
  let stored ← Cursor.u32
  let computed := (Checksum.metadata before).toNat
  if stored ≠ computed then Session.throw (.checksumMismatch "superblock" stored computed) else pure ()

def parseV2V3 (version superblockOffset : Nat) : Parse Superblock := do
  let superblock ← parseNewFields version superblockOffset
  verify
  pure superblock

def parseVersion (superblockOffset version : Nat) : Parse Superblock :=
  match version with
  | 0 | 1 => parseV0V1 version superblockOffset
  | 2 | 3 => parseV2V3 version superblockOffset
  | other => Session.throw (.unsupported s!"superblock version {other}")

/-- Parse from a window that starts at the signature. -/
def parse (superblockOffset : Nat) : Parse Superblock := do
  Cursor.skip 8
  let version ← Cursor.u8
  parseVersion superblockOffset version

/-- Parse a superblock whose signature starts at `offset`. -/
def parseAt (build : Build) (offset : Nat) : Walk Superblock := do
  let size ← Walk.size
  let rest ← Walk.lift (build.sub size offset)
  let buf ← Walk.readVec offset (min rest 96)
  Walk.lift (parse offset (Cursor.start buf)).1

end Superblock

end Oxcdf
