import Oxcdf.Checksum
import Oxcdf.Cursor
import Oxcdf.Source

/-! The file as its metadata is read: the bytes at a stored address, in fields
whose widths the superblock names. A read through the page cache returns the same
bytes, so the readers of indexes and heaps are stated over the file itself. -/

set_option autoImplicit false

namespace Oxcdf

open Foundation Foundation.Buffer Foundation.Format

structure View where
  file : FileImage
  baseAddress : Nat
  sizes : Sizes

namespace View

variable (view : View)

def size : Nat := view.file.size

/-- `Superblock::resolve`: stored addresses count from the base address. -/
def resolve (address : Nat) : Nat := wrappingAdd view.baseAddress address

/-- `Ctx::read`. -/
def read (address len : Nat) : Code Bytes := (fileSource view.file).readVec (view.resolve address) len

/-- `Ctx::read_upto`: stop at the end of the file rather than fail. -/
def readUpto (address len : Nat) : Code Bytes :=
  let start := view.resolve address
  let available := view.size - start
  (fileSource view.file).readVec start (min len available)

/-- The file holds some bytes at a stored address. -/
structure Holds (address : Nat) (bytes : Bytes) : Prop where
  inside : view.file.Holds (view.resolve address) bytes.length
  same : view.file.part (view.resolve address) bytes.length = bytes

variable {view}

theorem Holds.read {address : Nat} {bytes : Bytes} (held : view.Holds address bytes) :
    view.read address bytes.length = .ok bytes := by
  rw [View.read, fileSource_readVec view.file _ _ held.inside.le_isizeMax, if_pos held.inside, held.same]

/-- A window on the file sees what stands there, and what follows. -/
theorem Holds.readUpto {address : Nat} {bytes : Bytes} (held : view.Holds address bytes) :
    ∃ rest, ∀ len, view.readUpto address len = .ok ((bytes ++ rest).take len) := by
  have inside := held.inside
  have bounded := inside.le_isizeMax
  refine ⟨(view.file.bytes.drop (view.resolve address)).drop bytes.length, fun len => ?_⟩
  have whole : bytes ++ (view.file.bytes.drop (view.resolve address)).drop bytes.length =
      view.file.bytes.drop (view.resolve address) := by
    have front := held.same
    rw [FileImage.part, slice] at front
    exact (congrArg (· ++ _) front.symm).trans (List.take_append_drop _ _)
  have room : view.file.Holds (view.resolve address) (min len (view.size - view.resolve address)) := by
    unfold FileImage.Holds at inside ⊢
    unfold View.size
    omega
  unfold View.readUpto
  dsimp only
  rw [fileSource_readVec view.file _ _ room.le_isizeMax, if_pos room, whole, FileImage.part, slice]
  congr 1
  rw [List.take_eq_take_iff, List.length_drop]
  unfold View.size FileImage.size
  omega

theorem Holds.length_le {address : Nat} {bytes : Bytes} (held : view.Holds address bytes) :
    bytes.length ≤ view.size := by
  have inside := held.inside
  unfold FileImage.Holds at inside
  exact (Nat.le_add_left _ _).trans inside

theorem Holds.front {address : Nat} {front back : Bytes} (held : view.Holds address (front ++ back)) :
    view.Holds address front := by
  have inside := held.inside
  have same := held.same
  rw [List.length_append] at inside same
  constructor
  · unfold FileImage.Holds at inside ⊢
    omega
  · have first := congrArg (List.take front.length) same
    rw [List.take_left, FileImage.part, slice, List.take_take, Nat.min_eq_left (Nat.le_add_right _ _)] at first
    exact first

/-- The second part of what stands at an address, wherever the address after the first wraps to. -/
theorem Holds.back {address : Nat} {front back : Bytes} (held : view.Holds address (front ++ back)) :
    view.Holds (address + front.length) back := by
  have inside := held.inside
  have same := held.same
  rw [List.length_append] at inside same
  have small := view.file.size_lt
  have place : view.resolve (address + front.length) = view.resolve address + front.length := by
    unfold FileImage.Holds resolve wrappingAdd wordSize at *
    unfold FileImage.size at *
    omega
  constructor
  · rw [place]
    unfold FileImage.Holds at inside ⊢
    omega
  · have rest := congrArg (List.drop front.length) same
    rw [List.drop_left, FileImage.part, slice, List.drop_take, List.drop_drop, Nat.add_sub_cancel_left] at rest
    rw [place]
    exact rest

/-- Bytes between others stand where those before them end. -/
theorem holds_between {before bytes after : Bytes} (file : view.file.bytes = before ++ bytes ++ after)
    (base : view.baseAddress = 0) : view.Holds before.length bytes := by
  have room : before.length + bytes.length ≤ view.file.bytes.length := by
    simp only [file, List.length_append]
    omega
  have place : view.resolve before.length = before.length := by
    have small := view.file.size_lt
    unfold FileImage.size at small
    rw [resolve, base, wrappingAdd_of_lt (by omega), Nat.zero_add]
  constructor
  · rw [place]
    exact room
  · rw [place, FileImage.part, file, List.append_assoc, slice, List.drop_left, List.take_left]

/-- Four structures that fill a file one after the other. -/
theorem holds_in_turn {view : View} {first second third fourth : Bytes} (base : view.baseAddress = 0)
    (file : view.file.bytes = first ++ (second ++ (third ++ fourth))) :
    view.Holds 0 first ∧ view.Holds first.length second ∧ view.Holds (first ++ second).length third ∧
      view.Holds (first ++ second ++ third).length fourth := by
  refine ⟨?_, ?_, ?_, ?_⟩
  · exact @holds_between view [] first (second ++ (third ++ fourth)) file base
  · apply view.holds_between _ base
    · exact third ++ fourth
    · rw [file, List.append_assoc]
  · apply view.holds_between _ base
    · exact fourth
    · rw [file, List.append_assoc, List.append_assoc]
  · apply view.holds_between _ base
    · exact []
    · rw [file, List.append_nil, List.append_assoc, List.append_assoc]

end View

/-- Every structure of the container starts with four known bytes. -/
def expectSignature (signature : Bytes) (what : String) : Parse Unit := do
  let found ← Cursor.take 4
  if found ≠ signature then Session.throw (.malformed s!"{what} has the wrong signature") else pure ()

/-- The four bytes at a position are the checksum of those before it. -/
def verifyChecksum (buf : Bytes) (len : Nat) (what : String) : Code Unit := do
  let bytes ← range buf len (len + 4)
  let stored := ofLittleEndian bytes
  let computed := (Checksum.metadata (buf.take len)).toNat
  if stored ≠ computed then .error (.checksumMismatch what stored computed) else .ok ()

section Sealed

def withChecksum (body : Bytes) : Bytes := body ++ littleEndian 4 (Checksum.metadata body).toNat

@[simp] theorem withChecksum_length (body : Bytes) : (withChecksum body).length = body.length + 4 := by
  rw [withChecksum, List.length_append, littleEndian_length]

theorem verifyChecksum_withChecksum (body : Bytes) (what : String) :
    verifyChecksum (withChecksum body) body.length what = .ok () := by
  have room : body.length + 4 ≤ (withChecksum body).length := by rw [withChecksum_length]
  have small : (Checksum.metadata body).toNat < 256 ^ 4 := (Checksum.metadata body).toNat_lt
  have stored : slice (withChecksum body) body.length 4 = littleEndian 4 (Checksum.metadata body).toNat := by
    rw [slice, withChecksum, List.drop_left, List.take_of_length_le (by rw [littleEndian_length])]
  have before : (withChecksum body).take body.length = body := by rw [withChecksum, List.take_left]
  unfold verifyChecksum
  rw [range_of_le _ room, Outcome.ok_bind, stored, before, ofLittleEndian_littleEndian 4 small]
  exact if_neg (not_not_intro rfl)

/-- What is read of a structure is read of it with its checksum. -/
theorem parse_withChecksum {α : Type} {parse : Parse α} {body : Bytes} {value : α}
    (reads : Reads parse body value) (rest : Bytes) :
    parse (Cursor.start (withChecksum (body ++ rest))) =
      (.ok value, ⟨withChecksum (body ++ rest), body.length⟩) := by
  have here := reads [] (rest ++ littleEndian 4 (Checksum.metadata (body ++ rest)).toNat)
  rw [withChecksum, List.append_assoc]
  simpa [Cursor.start] using here

theorem reads_signature {signature : Bytes} (four : signature.length = 4) (what : String) :
    Reads (expectSignature signature what) signature () := by
  have taken := Cursor.reads_take signature
  rw [four] at taken
  exact taken.bind_done fun input => by rw [if_neg (not_not_intro rfl)]; rfl

end Sealed

end Oxcdf
