import Oxcdf.Cursor.Steady
import Oxcdf.Foundation.Local
import Oxcdf.Message.Attribute
import Oxcdf.Message.Link

/-! Records that say themselves where they end. A link, and an attribute whose value is as long as
its type and shape imply, are read alike wherever they stand, and start with a version that is not
zero. -/

set_option autoImplicit false

namespace Oxcdf

open Foundation Foundation.Format

namespace Cursor

theorem local_take (n : Nat) : Local (take n) := Local.take oob n

theorem local_skip (n : Nat) : Local (skip n) := (local_take n).bind fun _ => .pure ()

theorem local_skipIf (present : Bool) (n : Nat) : Local (skipIf present n) :=
  Local.ite (local_skip n) (.pure ())

/-- Every fixed-width field is taken and decoded. -/
theorem local_field (width : Nat) :
    Local (take width >>= fun bytes => (pure (ofLittleEndian bytes) : Parse Nat)) :=
  (local_take width).bind fun _ => .pure _

theorem local_uint (width : Nat) : Local (uint width) :=
  Local.ite (.pure 0) (Local.ite (.throw _) (local_field width))

theorem local_addressRequired (sizes : Sizes) (what : String) : Local (addressRequired sizes what) := by
  refine ((local_uint sizes.offset).bind fun _ => .pure _).bind fun found => ?_
  cases found with
  | none => exact .throw _
  | some raw => exact .pure raw

/-- What starts with a byte starts with the byte that its first field is. -/
theorem first_of_u8 {α : Type} {next : Nat → Parse α} {code : Bytes} {value : α}
    (reads : Reads (u8 >>= next) code value) :
    ∃ first rest, code = first :: rest ∧ ∃ cursor after, next first.toNat cursor = (.ok value, after) := by
  obtain ⟨number, middle, here, later⟩ := Session.bind_eq_ok.mp (reads [] [])
  obtain ⟨bytes, after, taken, done⟩ := Session.bind_eq_ok.mp here
  obtain ⟨room, rfl, -⟩ := take_eq_ok.mp taken
  cases code with
  | nil => exact absurd room (by decide)
  | cons first rest =>
    obtain ⟨same, -⟩ := Prod.mk.inj done
    obtain rfl : first.toNat = number := Outcome.ok.inj same
    exact ⟨first, rest, rfl, middle, _, later⟩

end Cursor

open Cursor

/-- A parser of records that can be told one from the next, and from unused space. -/
structure SelfDelimiting {α : Type} (parse : Parse α) : Prop where
  isLocal : Local parse
  marked : ∀ code value, Reads parse code value → ∃ first rest, code = first :: rest ∧ first ≠ 0

namespace Link

theorem local_optional {field : Parse Nat} (isLocal : Local field) (present : Bool) :
    Local (optional present field) := Local.ite (isLocal.bind fun _ => .pure _) (.pure none)

theorem local_raw : Local parseRaw := (local_field 2).bind local_take

theorem local_target (sizes : Sizes) (linkType : Nat) : Local (parseTarget sizes linkType) := by
  unfold parseTarget
  split
  · exact (local_addressRequired sizes _).bind fun _ => .pure _
  · exact local_raw.bind fun _ => .pure _
  · exact local_raw.bind fun _ => .pure _
  · exact local_raw.bind fun _ => .pure _

theorem selfDelimiting (sizes : Sizes) : SelfDelimiting (parseAt sizes) := by
  constructor
  · refine (local_field 1).bind fun version => Local.ite (.throw _) ((local_field 1).bind fun flags => ?_)
    refine (local_optional (local_field 1) _).bind fun linkType => ?_
    refine (local_optional (local_field 8) _).bind fun creationOrder => (local_skipIf _ _).bind fun _ => ?_
    refine (local_uint _).bind fun nameLen => (local_take nameLen).bind fun rawName => ?_
    exact (local_target sizes _).bind fun _ => .pure _
  · intro code value reads
    obtain ⟨first, rest, same, cursor, after, found⟩ := first_of_u8 reads
    refine ⟨first, rest, same, ?_⟩
    rintro rfl
    cases found

end Link

namespace Attribute

theorem local_name (size padded : Nat) : Local (readName size padded) :=
  (local_take padded).bind fun _ => Local.ite (.pure _) (.lift _)

theorem local_pad8 (n : Nat) : Local (pad8 n) := .lift _

theorem local_sizesV1 : Local sizesV1 := by
  refine (local_skip 1).bind fun _ => (local_field 2).bind fun nameSize => (local_field 2).bind fun _ => ?_
  refine (local_field 2).bind fun _ => (local_pad8 _).bind fun _ => (local_pad8 _).bind fun _ => ?_
  exact (local_pad8 _).bind fun _ => .pure _

theorem local_sizesV2V3 (version : Nat) : Local (sizesV2V3 version) := by
  refine (local_field 1).bind fun flags => (local_field 2).bind fun _ => (local_field 2).bind fun _ => ?_
  exact (local_field 2).bind fun _ => Local.ite (.throw _) ((local_skipIf _ _).bind fun _ => .pure _)

theorem local_blockSizes : Local blockSizes := by
  refine (local_field 1).bind fun version => ?_
  split
  · exact local_sizesV1
  · exact local_sizesV2V3 _
  · exact local_sizesV2V3 _
  · exact .throw _

theorem local_value (datatype : Datatype) (dataspace : Dataspace) :
    Local (takeValue datatype dataspace .computed) := (Local.lift _).bind local_take

theorem selfDelimiting (sizes : Sizes) : SelfDelimiting (parseAt sizes) := by
  constructor
  · refine local_blockSizes.bind fun ⟨nameSize, paddedName, datatypeSize, dataspaceSize⟩ => ?_
    refine ((local_name _ _).bind fun _ => (local_take _).bind fun _ => .pure _).bind fun ⟨name, block⟩ => ?_
    refine (Local.lift _).bind fun datatype => (local_take _).bind fun block => ?_
    exact (Local.lift _).bind fun dataspace => (local_value datatype dataspace).bind fun _ => .pure _
  · intro code value reads
    unfold parseAt read blockSizes at reads
    rw [bind_assoc] at reads
    obtain ⟨first, rest, same, cursor, after, found⟩ := first_of_u8 reads
    refine ⟨first, rest, same, ?_⟩
    rintro rfl
    cases found

end Attribute

end Oxcdf
