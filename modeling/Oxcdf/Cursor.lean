import Oxcdf.Error
import Oxcdf.Foundation.Format
import Oxcdf.Foundation.Utf8

/-! A read cursor over a metadata buffer. Everything HDF5 stores about itself is
little-endian; the widths of addresses and of lengths come from the superblock. -/

set_option autoImplicit false

namespace Oxcdf

open Foundation Foundation.Buffer

/-- `String::from_utf8_lossy`. -/
def fromUtf8Lossy (bytes : Bytes) : String := String.ofList (Utf8.decodeLossy bytes)

def utf8Bytes (text : String) : Bytes := Utf8.encode text.toList

theorem fromUtf8Lossy_utf8Bytes (text : String) : fromUtf8Lossy (utf8Bytes text) = text := by
  rw [fromUtf8Lossy, utf8Bytes, Utf8.decodeLossy_encode, String.ofList_toList]

/-- The bytes before the first NUL, or all of them. -/
def untilNul (bytes : Bytes) : Bytes := bytes.takeWhile (· ≠ 0)

structure Sizes where
  offset : Nat
  length : Nat
  deriving DecidableEq, Repr

/-- The address whose bits are all set, which marks an undefined one. -/
def undefinedForWidth (width : Nat) : Nat :=
  if width ≥ 8 then wordSize - 1 else 2 ^ (width * 8) - 1

def Sizes.isUndefinedAddress (sizes : Sizes) (value : Nat) : Bool :=
  undefinedForWidth sizes.offset == value

abbrev Cursor := Format.Input UInt8

/-- A computation that moves a cursor. -/
abbrev Parse (α : Type) := Session Cursor Error α

namespace Cursor

def oob (offset len available : Nat) : Error := .outOfBounds "metadata" offset len available

def start (buf : Bytes) : Cursor := { buf, pos := 0 }

def startAt (buf : Bytes) (pos : Nat) : Cursor := { buf, pos }

def remaining (cursor : Cursor) : Nat := cursor.buf.length - cursor.pos

/-- Take the next `n` bytes. A sum of position and count that leaves a word is
past the end of every buffer, and the source reports it alike. -/
def take (n : Nat) : Parse Bytes := Format.take oob n

def peek (n : Nat) : Parse Bytes := fun cursor => ((take n cursor).1, cursor)

def skip (n : Nat) : Parse Unit := do
  let _ ← take n

/-- Skip a field that only some messages have. -/
def skipIf (present : Bool) (n : Nat) : Parse Unit := if present then skip n else pure ()

/-- A product of two counts, as a checked build takes it. -/
def product (x y : Nat) : Parse Nat := Session.lift (Build.debug.mul x y)

/-- Skip so many fields of one width, which only some messages have. -/
def skipEach (present : Bool) (count width : Nat) : Parse Unit :=
  if present then do
    let n ← product count width
    skip n
  else pure ()

def seek (pos : Nat) : Parse Unit := fun cursor =>
  if pos > cursor.buf.length then (.error (oob pos 0 cursor.buf.length), cursor)
  else (.ok (), { cursor with pos })

def position : Parse Nat := fun cursor => (.ok cursor.pos, cursor)

/-- Bytes left after the cursor. -/
def left : Parse Nat := fun cursor => (.ok cursor.remaining, cursor)

/-- The bytes of the buffer before the cursor. -/
def passed : Parse Bytes := fun cursor => (.ok (cursor.buf.take cursor.pos), cursor)

def u8 : Parse Nat := do
  let bytes ← take 1
  pure (Format.ofLittleEndian bytes)

def u16 : Parse Nat := do
  let bytes ← take 2
  pure (Format.ofLittleEndian bytes)

def u32 : Parse Nat := do
  let bytes ← take 4
  pure (Format.ofLittleEndian bytes)

def u64 : Parse Nat := do
  let bytes ← take 8
  pure (Format.ofLittleEndian bytes)

/-- A little-endian unsigned integer `width` bytes wide, up to 8. -/
def uint (width : Nat) : Parse Nat :=
  if width = 0 then pure 0
  else if width > 8 then Session.throw (.unsupported s!"integer width {width} bytes exceeds 8")
  else do
    let bytes ← take width
    pure (Format.ofLittleEndian bytes)

/-- A file address; `none` for the undefined one. -/
def address (sizes : Sizes) : Parse (Option Nat) := do
  let raw ← uint sizes.offset
  pure (if sizes.isUndefinedAddress raw then none else some raw)

def addressRequired (sizes : Sizes) (what : String) : Parse Nat := do
  let found ← address sizes
  match found with
  | some raw => pure raw
  | none => Session.throw (.malformed s!"{what} has an undefined address")

def length (sizes : Sizes) : Parse Nat := uint sizes.length

/-- A NUL-terminated string; the cursor moves past the terminator. -/
def cstring : Parse String := fun cursor =>
  if cursor.pos > cursor.buf.length then (.panic .index, cursor)
  else
    let tail := cursor.buf.drop cursor.pos
    let text := untilNul tail
    if text.length = tail.length then (.error (.malformed "unterminated string in metadata"), cursor)
    else (.ok (fromUtf8Lossy text), { cursor with pos := cursor.pos + text.length + 1 })

/-- A NUL-terminated string whose whole length is padded to a multiple. -/
def cstringPadded (align : Nat) : Parse String := do
  let start ← position
  let text ← cstring
  let stop ← position
  let rem := (stop - start) % align
  if rem ≠ 0 then skip (align - rem) else pure ()
  pure text

/-- Exactly `n` bytes, decoded up to the first NUL. -/
def fixedString (n : Nat) : Parse String := do
  let raw ← take n
  pure (fromUtf8Lossy (untilNul raw))

section Reads

open Format

theorem reads_take (bytes : Bytes) : Reads (take bytes.length) bytes bytes :=
  Reads.take oob bytes

theorem reads_skip (bytes : Bytes) : Reads (skip bytes.length) bytes () :=
  (reads_take bytes).bind_pure fun _ => ()

/-- A field as wide as the code at hand, whatever number that was written for. -/
theorem reads_low (width n : Nat) :
    Reads (take width >>= fun bytes => (pure (ofLittleEndian bytes) : Parse Nat))
      (littleEndian width n) (n % 256 ^ width) := by
  have taken := reads_take (littleEndian width n)
  rw [littleEndian_length] at taken
  have decoded := taken.bind_pure ofLittleEndian
  rwa [ofLittleEndian_littleEndian_mod width n] at decoded

/-- Every fixed-width field is a number taken and decoded. -/
theorem reads_field {width n : Nat} (fits : n < 256 ^ width) :
    Reads (take width >>= fun bytes => (pure (ofLittleEndian bytes) : Parse Nat))
      (littleEndian width n) n := by
  have read := reads_low width n
  rwa [Nat.mod_eq_of_lt fits] at read

theorem reads_u8 {n : Nat} (fits : n < 256 ^ 1) : Reads u8 (littleEndian 1 n) n := reads_field fits

theorem reads_u16 {n : Nat} (fits : n < 256 ^ 2) : Reads u16 (littleEndian 2 n) n := reads_field fits

theorem reads_u32 {n : Nat} (fits : n < 256 ^ 4) : Reads u32 (littleEndian 4 n) n := reads_field fits

theorem reads_u64 {n : Nat} (fits : n < 256 ^ 8) : Reads u64 (littleEndian 8 n) n := reads_field fits

theorem reads_uint {width n : Nat} (narrow : width ≤ 8) (fits : n < 256 ^ width) :
    Reads (uint width) (littleEndian width n) n := by
  unfold uint
  split
  · next zero =>
    subst zero
    obtain rfl : n = 0 := by simpa using fits
    exact Reads.pure 0
  · rw [if_neg (Nat.not_lt.mpr narrow)]
    exact reads_field fits

/-- Text without a NUL, and its terminator. -/
def encodeCString (text : String) : Bytes := utf8Bytes text ++ [0]

theorem untilNul_clean {bytes : Bytes} (clean : 0 ∉ bytes) (rest : Bytes) :
    untilNul (bytes ++ rest) = bytes ++ untilNul rest := by
  refine List.takeWhile_append_of_pos fun byte member => ?_
  simpa using ne_of_mem_of_not_mem member clean

theorem untilNul_append {bytes : Bytes} (clean : 0 ∉ bytes) (rest : Bytes) :
    untilNul (bytes ++ 0 :: rest) = bytes := by
  rw [untilNul_clean clean]
  simp [untilNul]

theorem reads_cstring {text : String} (clean : 0 ∉ utf8Bytes text) :
    Reads cstring (encodeCString text) text := by
  intro before after
  have within : ¬ before.length > (before ++ encodeCString text ++ after).length := by
    simp only [List.length_append]
    omega
  have tail : (before ++ encodeCString text ++ after).drop before.length = utf8Bytes text ++ 0 :: after := by
    rw [List.append_assoc, List.drop_left, encodeCString, List.append_assoc]
    rfl
  have longer : ¬ (utf8Bytes text).length = (utf8Bytes text ++ 0 :: after).length := by
    simp
  unfold cstring
  rw [if_neg within]
  dsimp only
  rw [tail, untilNul_append clean, if_neg longer, fromUtf8Lossy_utf8Bytes]
  simp [encodeCString, Nat.add_assoc]

end Reads

end Cursor

section Addresses

open Format

/-- A stored address; the undefined one has all bits set. -/
def encodeAddress (sizes : Sizes) (address : Option Nat) : Bytes :=
  littleEndian sizes.offset (address.getD (undefinedForWidth sizes.offset))

theorem encodeAddress_length (sizes : Sizes) (address : Option Nat) :
    (encodeAddress sizes address).length = sizes.offset := littleEndian_length _ _

/-- An address that its width can tell from the undefined one. -/
def Sizes.FitsAddress (sizes : Sizes) (address : Option Nat) : Prop :=
  ∀ a, address = some a → a < undefinedForWidth sizes.offset

/-- The widths the format has. -/
structure Sizes.Valid (sizes : Sizes) : Prop where
  offset : sizes.offset ∈ [1, 2, 4, 8]
  length : sizes.length ∈ [1, 2, 4, 8]

theorem Sizes.Valid.offset_le {sizes : Sizes} (valid : sizes.Valid) : sizes.offset ≤ 8 := by
  have listed := valid.offset
  simp only [List.mem_cons, List.not_mem_nil, or_false] at listed
  omega

theorem Sizes.Valid.length_le {sizes : Sizes} (valid : sizes.Valid) : sizes.length ≤ 8 := by
  have listed := valid.length
  simp only [List.mem_cons, List.not_mem_nil, or_false] at listed
  omega

theorem undefinedForWidth_eq {width : Nat} (narrow : width ≤ 8) :
    undefinedForWidth width = 256 ^ width - 1 := by
  unfold undefinedForWidth
  split
  · obtain rfl : width = 8 := by omega
    rfl
  · rw [Nat.mul_comm, Nat.pow_mul]

theorem undefinedForWidth_lt {width : Nat} (narrow : width ≤ 8) : undefinedForWidth width < 256 ^ width := by
  rw [undefinedForWidth_eq narrow]
  exact Nat.sub_lt (Nat.pow_pos (by decide)) Nat.one_pos

theorem reads_address {sizes : Sizes} (narrow : sizes.offset ≤ 8) {address : Option Nat}
    (fits : sizes.FitsAddress address) :
    Reads (Cursor.address sizes) (encodeAddress sizes address) address := by
  unfold Cursor.address encodeAddress
  cases address with
  | none =>
    have read := (Cursor.reads_uint narrow (undefinedForWidth_lt narrow)).bind_pure fun raw =>
      if sizes.isUndefinedAddress raw then none else some raw
    simpa [Sizes.isUndefinedAddress] using read
  | some a =>
    have small := fits a rfl
    have read := (Cursor.reads_uint narrow (small.trans (undefinedForWidth_lt narrow))).bind_pure fun raw =>
      if sizes.isUndefinedAddress raw then none else some raw
    simpa [Sizes.isUndefinedAddress, (Nat.ne_of_lt small).symm] using read

theorem reads_addressRequired {sizes : Sizes} (narrow : sizes.offset ≤ 8) {a : Nat}
    (fits : a < undefinedForWidth sizes.offset) (what : String) :
    Reads (Cursor.addressRequired sizes what) (encodeAddress sizes (some a)) a :=
  (reads_address narrow fun _ same => Option.some.inj same ▸ fits).bind_done fun _ => rfl

end Addresses

end Oxcdf
