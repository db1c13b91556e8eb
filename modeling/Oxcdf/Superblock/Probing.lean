import Oxcdf.Classic.Header
import Oxcdf.Superblock

/-! Finding out what a file is.

The signature of HDF5 may stand behind a user block, whose size is a power of two from
512 on. The container is told from the front of the file and from these places; the
superblock is then looked for in the same places again.
-/

set_option autoImplicit false

namespace Oxcdf

open Foundation Foundation.Buffer

def userBlocks : List Nat := (List.range 55).map fun k => 512 * 2 ^ k

namespace Container

def notContainer : Error := .malformed "file is neither HDF5 (netCDF-4) nor a netCDF classic container"

/-- The container that the first eight bytes tell. -/
def ofMagic (magic : Bytes) : Option Container :=
  if magic = Superblock.hdf5Signature then some .hdf5
  else if magic.take 4 = [0x43, 0x44, 0x46, 1] then some .cdf1
  else if magic.take 4 = [0x43, 0x44, 0x46, 2] then some .cdf2
  else if magic.take 4 = [0x43, 0x44, 0x46, 5] then some .cdf5
  else none

/-- Look for the signature of HDF5 behind a user block, while the file is long enough. -/
def probe (source : ByteSource) : List Nat → Code Container
  | [] => .error notContainer
  | offset :: offsets =>
    if offset + 8 ≤ source.size then do
      let magic ← source.readExactAt offset 8
      if magic = Superblock.hdf5Signature then .ok .hdf5 else probe source offsets
    else .error notContainer

/-- Identify the container by its magic bytes. -/
def detect (source : ByteSource) : Code Container :=
  if 8 ≤ source.size then do
    let magic ← source.readExactAt 0 8
    match ofMagic magic with
    | some container => .ok container
    | none => probe source userBlocks
  else probe source userBlocks

end Container

namespace Superblock

def noSignature : Error := .malformed "no HDF5 superblock signature found at any user-block offset"

/-- Find the signature and parse what stands there. -/
def findFrom (build : Build) (source : ByteSource) : List Nat → Code Superblock
  | [] => .error noSignature
  | offset :: offsets =>
    if offset + 8 > source.size then .error noSignature
    else do
      let magic ← source.readExactAt offset 8
      if magic = hdf5Signature then (parseAt build offset).against source
      else findFrom build source offsets

/-- Find and parse the superblock, at the front or behind a user block. -/
def read (build : Build) (source : ByteSource) : Code Superblock := findFrom build source (0 :: userBlocks)

def rootObjectHeaderAddress (superblock : Superblock) : Code Nat :=
  match superblock.root with
  | .objectHeader address => .ok address
  | .symbolTable entry =>
    Outcome.ofOption (.malformed "root group has no object header address") entry.objectHeaderAddress

end Superblock

section Probing

variable {build : Build} {file : FileImage} {offsets : List Nat}

/-- The signature of HDF5 stands at an offset. -/
def FileImage.Signed (file : FileImage) (offset : Nat) : Prop :=
  file.Holds offset 8 ∧ file.part offset 8 = Superblock.hdf5Signature

instance (file : FileImage) (offset : Nat) : Decidable (file.Signed offset) :=
  inferInstanceAs (Decidable (_ ∧ _))

/-- Where the signature stands first, of all places where it may. -/
def FileImage.signature (file : FileImage) : Option Nat := (0 :: userBlocks).find? fun offset => file.Signed offset

/-- The container that the front of a file tells, if it is a classic one. -/
def FileImage.classicFront (file : FileImage) : Option Container :=
  if file.Holds 0 8 then (Container.ofMagic (file.part 0 8)).filter (· ≠ .hdf5) else none

theorem userBlocks_sorted : (0 :: userBlocks).Pairwise (· < ·) := by decide

/-- No signature stands from an offset on that the file does not reach. -/
theorem not_signed_of_short {offset : Nat} (short : ¬ file.Holds offset 8)
    (later : ∀ next ∈ offsets, offset < next) : offsets.find? (fun next => file.Signed next) = none := by
  rw [List.find?_eq_none]
  intro next member signed
  have beyond := later next member
  have held : file.Holds next 8 := (of_decide_eq_true signed).1
  unfold FileImage.Holds at short held
  omega

/-- Probing one offset of a file: the bytes there are the signature or not. -/
theorem signed_iff {offset : Nat} (held : file.Holds offset 8) :
    file.Signed offset ↔ file.part offset 8 = Superblock.hdf5Signature := and_iff_right held

theorem probe_eq (sorted : offsets.Pairwise (· < ·)) :
    Container.probe (fileSource file) offsets =
      if (offsets.find? fun offset => file.Signed offset).isSome then .ok .hdf5
      else .error Container.notContainer := by
  induction offsets with
  | nil => rfl
  | cons offset offsets ih =>
    obtain ⟨later, sorted⟩ := List.pairwise_cons.mp sorted
    rw [Container.probe, List.find?_cons]
    by_cases held : file.Holds offset 8
    · have reached : offset + 8 ≤ (fileSource file).size := held
      rw [if_pos reached, fileSource_readExactAt, if_pos held, Outcome.ok_bind]
      by_cases signed : file.part offset 8 = Superblock.hdf5Signature
      · simp [signed, signed_iff held]
      · simp [signed, signed_iff held, ih sorted]
    · have ends : ¬ offset + 8 ≤ (fileSource file).size := held
      have unsigned : ¬ file.Signed offset := fun signed => held signed.1
      simp [if_neg ends, unsigned, not_signed_of_short held later]

theorem findFrom_eq (sorted : offsets.Pairwise (· < ·)) :
    Superblock.findFrom build (fileSource file) offsets =
      (offsets.find? fun offset => file.Signed offset).elim (.error Superblock.noSignature) fun offset =>
        (Superblock.parseAt build offset).against (fileSource file) := by
  induction offsets with
  | nil => rfl
  | cons offset offsets ih =>
    obtain ⟨later, sorted⟩ := List.pairwise_cons.mp sorted
    rw [Superblock.findFrom, List.find?_cons]
    by_cases held : file.Holds offset 8
    · have reached : ¬ offset + 8 > (fileSource file).size := Nat.not_lt.mpr held
      rw [if_neg reached, fileSource_readExactAt, if_pos held, Outcome.ok_bind]
      by_cases signed : file.part offset 8 = Superblock.hdf5Signature
      · simp [signed, signed_iff held]
      · simp [signed, signed_iff held, ih sorted]
    · have ends : offset + 8 > (fileSource file).size := Nat.lt_of_not_le held
      have unsigned : ¬ file.Signed offset := fun signed => held signed.1
      simp [if_pos ends, unsigned, not_signed_of_short held later]

/-- Opening parses the superblock at the first signature there is. -/
theorem Superblock.read_eq (build : Build) (file : FileImage) :
    Superblock.read build (fileSource file) =
      file.signature.elim (.error Superblock.noSignature) fun offset =>
        (Superblock.parseAt build offset).against (fileSource file) := findFrom_eq userBlocks_sorted

/-- The container of a file is a classic one if its front says so, else HDF5 if there is a signature. -/
theorem Container.detect_eq (file : FileImage) :
    Container.detect (fileSource file) =
      file.classicFront.elim (if file.signature.isSome then .ok .hdf5 else .error Container.notContainer)
        .ok := by
  have behind := @probe_eq file _ (List.pairwise_cons.mp userBlocks_sorted).2
  unfold Container.detect FileImage.classicFront FileImage.signature
  rw [List.find?_cons]
  by_cases held : file.Holds 0 8
  · have long : 8 ≤ (fileSource file).size := by
      unfold FileImage.Holds at held
      exact (Nat.zero_add 8).symm.le.trans held
    rw [if_pos long, if_pos held, fileSource_readExactAt, if_pos held, Outcome.ok_bind]
    by_cases signed : file.part 0 8 = Superblock.hdf5Signature
    · simp [signed, signed_iff held, Container.ofMagic, Option.filter]
    · have others : Container.ofMagic (file.part 0 8) ≠ some .hdf5 := by
        unfold Container.ofMagic
        rw [if_neg signed]
        split_ifs <;> simp
      cases told : Container.ofMagic (file.part 0 8) with
      | none => simp [signed, signed_iff held, behind]
      | some container =>
        have classic : container ≠ .hdf5 := fun same => others (same ▸ told)
        simp [Option.filter, classic]
  · have short : ¬ 8 ≤ (fileSource file).size := by
      unfold FileImage.Holds at held
      exact fun long => held ((Nat.zero_add 8).le.trans long)
    have unsigned : ¬ file.Signed 0 := fun signed => held signed.1
    simp [if_neg short, if_neg held, unsigned, behind]

end Probing

end Oxcdf
