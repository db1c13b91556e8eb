import Mathlib.Algebra.BigOperators.Ring.List
import Oxcdf.Message
import Oxcdf.Message.DatatypeRoundTrip
import Oxcdf.Read.Native
import Oxcdf.Text

/-! The index entry of one dataset, built from the messages of its object header.

Of the dataspace only its dimensions are kept, not its kind. A null dataspace, a
scalar and a simple one of rank zero come to the same entry, which counts one
element.
-/

set_option autoImplicit false

namespace Oxcdf

open Foundation Read

section Building

/-- The entry of a dataset, with what the index keeps beside it. -/
structure DatasetEntry extends DatasetIndex where
  name : String
  address : Nat
  /-- A maximum with all bits set marks an unlimited dimension. -/
  maxShape : Option (List Nat)
  attributes : List Attribute
  attributesComplete : Bool

variable (build : Build) (view : View) (dense : Nat → Option Nat → Code (List Attribute × Bool))

/-- Every attribute of an object, given how those in a heap are read. -/
def readAttributes (header : ObjectHeader) : Code (List Attribute × Bool) := do
  let attributes ← header.compactAttributes view.sizes
  match ← header.attributeInfo view.sizes with
  | some { fractalHeapAddress := some heap, nameBtreeAddress, .. } => do
    let (found, complete) ← dense heap nameBtreeAddress
    .ok (attributes ++ found, complete)
  | _ => .ok (attributes, true)

/-- The dataspace of an object that has no message for it. -/
def scalarSpace : Dataspace := { kind := .scalar, dims := [], maxDims := none }

def noDatatype (path : String) : Error := .malformed s!"dataset {path} has no datatype message"

def noLayout (path : String) : Error := .malformed s!"dataset {path} has no data layout message"

def buildDataset (header : ObjectHeader) (name path : String) (address : Nat) : Code DatasetEntry := do
  let carried ← header.dataspace view.sizes
  let dataspace := carried.getD scalarSpace
  let typed ← header.datatype build view
  let datatype ← Outcome.ofOption (noDatatype path) typed
  let laidOut ← header.layout view.sizes
  let layout ← Outcome.ofOption (noLayout path) laidOut
  let pipeline ← header.filterPipeline
  let fillValue ← header.fillValue
  let (attributes, attributesComplete) ← readAttributes view dense header
  .ok {
    name, path, address, datatype, layout, pipeline, fillValue, attributes, attributesComplete
    shape := dataspace.dims
    maxShape := dataspace.maxDims
    -- The chunk index is resolved when it is first needed.
    chunks := none }

end Building

variable {build : Build} {view : View} {dense : Nat → Option Nat → Code (List Attribute × Bool)}
  {header : ObjectHeader} {name path : String} {address : Nat} {entry : DatasetEntry} {space : Dataspace}

section Counting

/-- The dimensions alone say how many elements the dataspace holds. -/
def Dataspace.CountedByDims (space : Dataspace) : Prop :=
  match space.kind with
  | .simple => True
  | .scalar => ∀ dim ∈ space.dims, dim = 1
  | .null => 0 ∈ space.dims

theorem prod_eq_one (dims : List Nat) : dims.prod = 1 ↔ ∀ dim ∈ dims, dim = 1 := by
  induction dims with
  | nil => simp
  | cons dim dims ih =>
    rw [List.prod_cons, List.forall_mem_cons, ← ih]
    constructor
    · intro one
      exact ⟨Nat.eq_one_of_mul_eq_one_right one, Nat.eq_one_of_mul_eq_one_left one⟩
    · rintro ⟨head, rest⟩
      rw [head, rest]

theorem elementCount_eq_one (dims : List Nat) : elementCount dims = 1 ↔ ∀ dim ∈ dims, dim = 1 := by
  have large : 1 < wordSize - 1 := by decide
  rw [elementCount_eq, ← prod_eq_one]
  omega

theorem elementCount_eq_zero (dims : List Nat) : elementCount dims = 0 ↔ 0 ∈ dims := by
  have large : 1 < wordSize - 1 := by decide
  rw [elementCount_eq, ← List.prod_eq_zero_iff]
  omega

theorem countedByDims_iff (space : Dataspace) :
    elementCount space.dims = space.elementCount ↔ space.CountedByDims := by
  unfold Dataspace.elementCount Dataspace.CountedByDims
  cases space.kind with
  | simple => exact ⟨fun _ => trivial, fun _ => rfl⟩
  | scalar => exact elementCount_eq_one space.dims
  | null => exact elementCount_eq_zero space.dims

/-- The entry keeps the dimensions of the dataspace that the header carries. -/
theorem buildDataset_shape (carried : header.dataspace view.sizes = .ok (some space))
    (built : buildDataset build view dense header name path address = .ok entry) :
    entry.shape = space.dims := by
  unfold buildDataset at built
  rw [carried, Outcome.ok_bind] at built
  iterate 7 obtain ⟨_, _, built⟩ := Outcome.bind_eq_ok.mp built
  cases built
  rfl

/-- A read reports as many elements as its selection, unless elements take no bytes. -/
theorem readHyperslab_len {ctx : Ctx} {codecs : Codecs} {dataset : DatasetIndex} {slab : Hyperslab}
    {caches after : Caches} {raw : RawData}
    (read : readHyperslab build ctx codecs dataset slab caches = (.ok raw, after)) :
    raw.len = if dataset.elementSize = 0 then 0 else slab.elementCount := by
  have unwrapped := read
  unfold readHyperslab at unwrapped
  obtain ⟨_, _, valid, unwrapped⟩ := Session.bind_eq_ok.mp unwrapped
  have valid := (Session.lift_eq_ok.mp valid).1
  split at unwrapped
  · cases unwrapped
  · obtain ⟨_, _, _, unwrapped⟩ := Session.bind_eq_ok.mp unwrapped
    obtain ⟨chunks, _, resolved, _⟩ := Session.bind_eq_ok.mp unwrapped
    obtain ⟨-, total, stored, fits, -, copied, rfl⟩ :=
      (readHyperslab_eq_ok valid (Session.lift_eq_ok.mp resolved).1).mp read
    obtain ⟨rfl, -⟩ := checkedMul_eq_some fits
    have long := (readStored_length chunks dataset.elementSize).length_eq
      (startBuffer_length chunks dataset.elementSize) copied
    unfold RawData.len
    rw [nativeOrder_length, long]
    split
    · rfl
    · next positive => exact Nat.mul_div_cancel _ (Nat.pos_of_ne_zero positive)

/-- The entry of a dataset counts the elements of its dataspace exactly when the dimensions alone give their
number, and a full read then reports as many exactly when elements take bytes or there are none. -/
theorem entry_counts_iff (carried : header.dataspace view.sizes = .ok (some space))
    (built : buildDataset build view dense header name path address = .ok entry) :
    (entry.elementCount = space.elementCount ↔ space.CountedByDims) ∧
    ∀ ctx codecs chunks caches raw after,
      readHyperslab build ctx codecs { entry.toDatasetIndex with chunks } (.all entry.shape) caches =
        (.ok raw, after) →
      (entry.elementCount = space.elementCount ∧ raw.len = space.elementCount ↔
        space.CountedByDims ∧ (entry.elementSize ≠ 0 ∨ space.elementCount = 0)) := by
  have counted : entry.elementCount = space.elementCount ↔ space.CountedByDims := by
    rw [← countedByDims_iff, DatasetIndex.elementCount, buildDataset_shape carried built]
  refine ⟨counted, fun ctx codecs chunks caches raw after read => ?_⟩
  have reported : raw.len = if entry.elementSize = 0 then 0 else entry.elementCount := readHyperslab_len read
  rw [counted, reported]
  refine and_congr_right fun dims => ?_
  rw [counted.mpr dims]
  split
  · next empty => simp [empty, eq_comm]
  · next wide => simp [wide]

end Counting

section Bytes

/-- A view on an empty file, with eight-byte addresses and lengths. -/
def emptyView : View := { file := ⟨[], by decide⟩, baseAddress := 0, sizes := ⟨8, 8⟩ }

/-- The object header of a dataset of single bytes that was never written. -/
def byteHeader (space : Bytes) : ObjectHeader where
  address := 0
  version := 2
  messages := [
    ⟨.dataspace, 0, none, space⟩,
    ⟨.datatype, 0, none, Datatype.byteType.encode⟩,
    ⟨.dataLayout, 0, none, [3, 1, 255, 255, 255, 255, 255, 255, 255, 255, 0, 0, 0, 0, 0, 0, 0, 0]⟩]

def byteEntry (space : Dataspace) : DatasetEntry where
  path := "/v"
  shape := space.dims
  datatype := Datatype.byteType
  layout := .contiguous none 0
  pipeline := { filters := [] }
  fillValue := { bytes := none }
  chunks := none
  name := "v"
  address := 0
  maxShape := space.maxDims
  attributes := []
  attributesComplete := true

theorem byteHeader_dataspace {body : Bytes} (parsed : Dataspace.parse ⟨8, 8⟩ body = .ok space) :
    (byteHeader body).dataspace emptyView.sizes = .ok (some space) := by
  have own : (byteHeader body).messageOf .dataspace = some ⟨.dataspace, 0, none, body⟩ := rfl
  have kept : HeaderMessage.rejectShared ⟨.dataspace, 0, none, body⟩ "dataspace" = .ok () := if_neg (by
    change ¬ Nat.testBit 0 1 = true
    decide)
  unfold ObjectHeader.dataspace ObjectHeader.ownMessage
  rw [own]
  dsimp only
  rw [kept, Outcome.ok_bind, show emptyView.sizes = ⟨8, 8⟩ from rfl, parsed, Outcome.ok_bind]

theorem byteHeader_datatype (body : Bytes) :
    (byteHeader body).datatype build emptyView = .ok (some Datatype.byteType) := by
  have well : Datatype.byteType.WellFormed := ⟨rfl, by decide, by decide, by decide⟩
  have reads := Datatype.reads_datatype Datatype.byteType well True.intro [] []
  rw [List.append_nil] at reads
  have parsed : Datatype.parse Datatype.byteType.encode = .ok Datatype.byteType := congrArg Prod.fst reads
  change (Datatype.parse Datatype.byteType.encode >>= fun type => .ok (some type)) = _
  rw [parsed, Outcome.ok_bind]

theorem byteHeader_built {body : Bytes} (parsed : Dataspace.parse ⟨8, 8⟩ body = .ok space) :
    buildDataset build emptyView dense (byteHeader body) "v" "/v" 0 = .ok (byteEntry space) := by
  unfold buildDataset
  rw [byteHeader_dataspace parsed, byteHeader_datatype body]
  rfl

def plane : Dataspace := { kind := .simple, dims := [2, 3], maxDims := none }

def planeBody : Bytes := [2, 2, 0, 1, 2, 0, 0, 0, 0, 0, 0, 0, 3, 0, 0, 0, 0, 0, 0, 0]

theorem entry_counts_plane : (byteEntry plane).elementCount = plane.elementCount ∧
    ∀ ctx codecs caches, ∃ raw, raw.len = plane.elementCount ∧
      readHyperslab .debug ctx codecs { (byteEntry plane).toDatasetIndex with chunks := none }
        (.all (byteEntry plane).shape) caches = (.ok raw, caches) := by
  have parsed : Dataspace.parse ⟨8, 8⟩ planeBody = .ok plane := rfl
  have built := @byteHeader_built .debug (fun _ _ => .ok ([], true)) plane planeBody parsed
  obtain ⟨counted, reads⟩ := entry_counts_iff (byteHeader_dataspace parsed) built
  refine ⟨counted.mpr True.intro, fun ctx codecs caches => ?_⟩
  have read : readHyperslab .debug ctx codecs { (byteEntry plane).toDatasetIndex with chunks := none }
      (.all (byteEntry plane).shape) caches = (.ok ⟨List.replicate 6 0, 1, [2, 3]⟩, caches) := rfl
  exact ⟨_, ((reads _ _ _ _ _ _ read).mpr ⟨True.intro, .inl (by decide)⟩).2, read⟩

def nullSpace : Dataspace := { kind := .null, dims := [], maxDims := none }

/-- A null dataspace holds no element, but its entry counts one and a full read returns one. -/
theorem null_reads_one : ∃ body,
    (byteHeader body).dataspace emptyView.sizes = .ok (some nullSpace) ∧ nullSpace.elementCount = 0 ∧
    buildDataset .debug emptyView (fun _ _ => .ok ([], true)) (byteHeader body) "v" "/v" 0 =
      .ok (byteEntry nullSpace) ∧
    (byteEntry nullSpace).elementCount = 1 ∧
    ∀ ctx codecs caches, ∃ raw, raw.len = 1 ∧
      readHyperslab .debug ctx codecs (byteEntry nullSpace).toDatasetIndex (.all nullSpace.dims) caches =
        (.ok raw, caches) := by
  have parsed : Dataspace.parse ⟨8, 8⟩ [2, 0, 0, 2] = .ok nullSpace := rfl
  exact ⟨[2, 0, 0, 2], byteHeader_dataspace parsed, rfl, byteHeader_built parsed, rfl,
    fun _ _ _ => ⟨⟨[0], 1, []⟩, rfl, rfl⟩⟩

end Bytes

end Oxcdf
