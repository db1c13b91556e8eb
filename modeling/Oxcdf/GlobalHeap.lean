import Oxcdf.FractalHeap.Loaded
import Oxcdf.View

/-! Global heap collections: objects one after the other, each padded to eight bytes.

A collection ends with free space, with less than an object header, or in the
padding of its last object. All three are the end of the list, and an object
that reaches past its collection is an error.
-/

set_option autoImplicit false

namespace Oxcdf

open Foundation Foundation.Buffer Foundation.Format

def gcolSignature : Bytes := [0x47, 0x43, 0x4f, 0x4c]

structure GlobalHeapObject where
  index : Nat
  referenceCount : Nat
  data : Bytes
  deriving DecidableEq, Repr

/-- An object as a collection can hold it. Index zero is free space. -/
structure GlobalHeapObject.Fits (sizes : Sizes) (o : GlobalHeapObject) : Prop where
  named : o.index ≠ 0
  index : o.index < 256 ^ 2
  referenceCount : o.referenceCount < 256 ^ 2
  size : o.data.length < 256 ^ sizes.length

structure GlobalHeap where
  objects : List GlobalHeapObject
  deriving DecidableEq, Repr

namespace GlobalHeap

def headerLen (sizes : Sizes) : Nat := 8 + sizes.length

/-- Index, reference count and reserved bytes, and a length. -/
def objectHeaderLen (sizes : Sizes) : Nat := 8 + sizes.length

/-- Objects are padded out to an eight-byte boundary. -/
def padLen (size : Nat) : Nat := (8 - size % 8) % 8

/-- The size of the collection, header included. -/
def parseHeader (sizes : Sizes) : Parse Nat := do
  let found ← Cursor.take 4
  if found ≠ gcolSignature then
    Session.throw (.malformed "global heap is missing its GCOL signature")
  else pure ()
  let version ← Cursor.u8
  if version ≠ 1 then Session.throw (.unsupported s!"global heap version {version}") else pure ()
  Cursor.skip 3
  Cursor.length sizes

def overclaims (index size remaining : Nat) : Error :=
  .malformed s!"global heap object {index} claims {size} bytes but only {remaining} remain"

/-- Index, reference count and size of an object. -/
def parseObjectHeader (sizes : Sizes) : Parse (Nat × Nat × Nat) := do
  let index ← Cursor.u16
  let referenceCount ← Cursor.u16
  Cursor.skip 4
  let size ← Cursor.length sizes
  pure (index, referenceCount, size)

/-- The objects from the cursor on. Each takes at least a header, so a budget of all bytes is enough. -/
def readObjects (sizes : Sizes) : Nat → Parse (List GlobalHeapObject)
  | 0 => pure []
  | budget + 1 => do
    let room ← Cursor.left
    if room < objectHeaderLen sizes then pure []
    else do
      let (index, referenceCount, size) ← parseObjectHeader sizes
      let remaining ← Cursor.left
      -- Index zero marks the free space that closes the collection.
      if index = 0 then pure []
      else if size > remaining then Session.throw (overclaims index size remaining)
      else do
        let data ← Cursor.take size
        let behind ← Cursor.left
        if behind < padLen size then pure [⟨index, referenceCount, data⟩]
        else do
          Cursor.skip (padLen size)
          let objects ← readObjects sizes budget
          pure (⟨index, referenceCount, data⟩ :: objects)

def read (view : View) (address : Nat) : Code GlobalHeap := do
  let header ← view.read address (headerLen view.sizes)
  let collectionSize ← (parseHeader view.sizes (Cursor.start header)).1
  if collectionSize < headerLen view.sizes then
    .error (.malformed "global heap collection size is smaller than its own header")
  else do
    let whole ← view.read address collectionSize
    let objects ← (readObjects view.sizes whole.length (Cursor.startAt whole (headerLen view.sizes))).1
    .ok ⟨objects⟩

def object (heap : GlobalHeap) (index : Nat) : Option GlobalHeapObject :=
  heap.objects.find? fun o => o.index == index

section Stored

variable (sizes : Sizes)

def encodeHeader (collectionSize : Nat) : Bytes :=
  gcolSignature ++ (littleEndian 1 1 ++ (List.replicate 3 0 ++ littleEndian sizes.length collectionSize))

/-- What stands before the data of an object, with the bytes that are reserved there. -/
def encodeObjectHeader (index referenceCount size : Nat) (reserved : Bytes) : Bytes :=
  littleEndian 2 index ++ (littleEndian 2 referenceCount ++ (reserved ++ littleEndian sizes.length size))

def encodeObject (o : GlobalHeapObject) (reserved padding : Bytes) : Bytes :=
  encodeObjectHeader sizes o.index o.referenceCount o.data.length reserved ++ (o.data ++ padding)

/-- Objects one after the other, all of them padded. What is reserved and what pads may be any bytes. -/
inductive Packed : List GlobalHeapObject → Bytes → Prop where
  | nil : Packed [] []
  | cons {o : GlobalHeapObject} {objects : List GlobalHeapObject} {reserved padding rest : Bytes} :
      o.Fits sizes → reserved.length = 4 → padding.length = padLen o.data.length → Packed objects rest →
      Packed (o :: objects) (encodeObject sizes o reserved padding ++ rest)

/-- How a collection ends, and the object that this still holds: in bytes too few for an object header, in free
space of any size, or before the padding of the last object does. -/
inductive Closes : List GlobalHeapObject → Bytes → Prop where
  | short {tail : Bytes} : tail.length < objectHeaderLen sizes → Closes [] tail
  | free {referenceCount size : Nat} {reserved rest : Bytes} : reserved.length = 4 →
      Closes [] (encodeObjectHeader sizes 0 referenceCount size reserved ++ rest)
  | unpadded {o : GlobalHeapObject} {reserved padding : Bytes} :
      o.Fits sizes → reserved.length = 4 → padding.length < padLen o.data.length →
      Closes [o] (encodeObject sizes o reserved padding)

/-- The bytes behind the header of a collection that holds these objects. -/
def Laid (objects : List GlobalHeapObject) (body : Bytes) : Prop :=
  ∃ front last packed ending, objects = front ++ last ∧ body = packed ++ ending ∧
    Packed sizes front packed ∧ Closes sizes last ending

/-- The file holds a collection at an address. -/
structure Stored (view : View) (address : Nat) (body : Bytes) : Prop where
  size : headerLen view.sizes + body.length < 256 ^ view.sizes.length
  held : view.Holds address (encodeHeader view.sizes (headerLen view.sizes + body.length) ++ body)

variable {sizes}

theorem encodeHeader_length (collectionSize : Nat) :
    (encodeHeader sizes collectionSize).length = headerLen sizes := by
  simp only [encodeHeader, headerLen, List.length_append, littleEndian_length, List.length_replicate]
  change 4 + _ = _
  omega

theorem encodeObjectHeader_length {index referenceCount size : Nat} {reserved : Bytes}
    (four : reserved.length = 4) :
    (encodeObjectHeader sizes index referenceCount size reserved).length = objectHeaderLen sizes := by
  simp only [encodeObjectHeader, objectHeaderLen, List.length_append, littleEndian_length, four]
  omega

theorem reads_header (narrow : sizes.length ≤ 8) {collectionSize : Nat}
    (fits : collectionSize < 256 ^ sizes.length) :
    Reads (parseHeader sizes) (encodeHeader sizes collectionSize) collectionSize := by
  unfold parseHeader encodeHeader
  apply (Cursor.reads_take gcolSignature).bind
  rw [if_neg (not_not_intro rfl)]
  apply (@Cursor.reads_u8 1 (by decide)).bind
  rw [if_neg (not_not_intro rfl)]
  apply (Cursor.reads_skip (List.replicate 3 0)).bind
  exact Cursor.reads_uint narrow fits

/-- Fields too wide for their place are read as what of them is stored. -/
theorem reads_objectHeader (narrow : sizes.length ≤ 8) (index referenceCount size : Nat) {reserved : Bytes}
    (four : reserved.length = 4) :
    Reads (parseObjectHeader sizes) (encodeObjectHeader sizes index referenceCount size reserved)
      (index % 256 ^ 2, referenceCount % 256 ^ 2, size % 256 ^ sizes.length) := by
  have skipped := Cursor.reads_skip reserved
  rw [four] at skipped
  unfold parseObjectHeader encodeObjectHeader
  apply (Cursor.reads_low 2 index).bind
  apply (Cursor.reads_low 2 referenceCount).bind
  apply skipped.bind
  exact (FractalHeap.reads_any narrow size).bind_pure fun size => (_, _, size)

end Stored

section Reading

variable {sizes : Sizes} {before after : Bytes} {budget : Nat}

theorem left_bind {α : Type} (next : Nat → Parse α) (before code : Bytes) :
    (Cursor.left >>= next) ⟨before ++ code, before.length⟩ =
      next code.length ⟨before ++ code, before.length⟩ := by
  have remaining : (before ++ code).length - before.length = code.length := by
    rw [List.length_append, Nat.add_sub_cancel_left]
  change next ((before ++ code).length - before.length) _ = _
  rw [remaining]

/-- The loop ends at fewer bytes than an object header takes. -/
theorem readObjects_short (few : after.length < objectHeaderLen sizes) :
    (readObjects sizes budget ⟨before ++ after, before.length⟩).1 = .ok [] := by
  cases budget with
  | zero => rfl
  | succ budget => rw [readObjects, left_bind, if_pos few, Session.pure_apply]

theorem readObjects_header (narrow : sizes.length ≤ 8) (index referenceCount size : Nat) {reserved : Bytes}
    (four : reserved.length = 4) :
    readObjects sizes (budget + 1)
      ⟨before ++ (encodeObjectHeader sizes index referenceCount size reserved ++ after), before.length⟩ =
    (if index % 256 ^ 2 = 0 then pure []
      else if size % 256 ^ sizes.length > after.length then
        Session.throw (overclaims (index % 256 ^ 2) (size % 256 ^ sizes.length) after.length)
      else do
        let data ← Cursor.take (size % 256 ^ sizes.length)
        let behind ← Cursor.left
        if behind < padLen (size % 256 ^ sizes.length) then
          pure [⟨index % 256 ^ 2, referenceCount % 256 ^ 2, data⟩]
        else do
          Cursor.skip (padLen (size % 256 ^ sizes.length))
          let objects ← readObjects sizes budget
          pure (⟨index % 256 ^ 2, referenceCount % 256 ^ 2, data⟩ :: objects))
      ⟨before ++ encodeObjectHeader sizes index referenceCount size reserved ++ after,
        (before ++ encodeObjectHeader sizes index referenceCount size reserved).length⟩ := by
  have room : ¬ (encodeObjectHeader sizes index referenceCount size reserved ++ after).length <
      objectHeaderLen sizes := by
    rw [List.length_append, encodeObjectHeader_length four]
    omega
  rw [readObjects, left_bind, if_neg room, (reads_objectHeader narrow index referenceCount size four).step]
  dsimp only
  rw [left_bind]

theorem readObjects_free (narrow : sizes.length ≤ 8) {referenceCount size : Nat} {reserved : Bytes}
    (four : reserved.length = 4) :
    (readObjects sizes (budget + 1)
      ⟨before ++ (encodeObjectHeader sizes 0 referenceCount size reserved ++ after), before.length⟩).1 =
      .ok [] := by
  rw [readObjects_header narrow 0 referenceCount size four, if_pos (by decide), Session.pure_apply]

/-- An object is taken, and the loop goes on behind its padding when that is there. -/
theorem readObjects_object (narrow : sizes.length ≤ 8) {o : GlobalHeapObject} (fits : o.Fits sizes)
    {reserved padding : Bytes} (four : reserved.length = 4) :
    readObjects sizes (budget + 1) ⟨before ++ (encodeObject sizes o reserved padding ++ after), before.length⟩ =
      (if (padding ++ after).length < padLen o.data.length then pure [o]
        else do
          Cursor.skip (padLen o.data.length)
          let objects ← readObjects sizes budget
          pure (o :: objects))
        ⟨before ++ encodeObjectHeader sizes o.index o.referenceCount o.data.length reserved ++ o.data ++
          (padding ++ after),
          (before ++ encodeObjectHeader sizes o.index o.referenceCount o.data.length reserved ++
          o.data).length⟩ := by
  have index : o.index % 256 ^ 2 = o.index := Nat.mod_eq_of_lt fits.index
  have count : o.referenceCount % 256 ^ 2 = o.referenceCount := Nat.mod_eq_of_lt fits.referenceCount
  have size : o.data.length % 256 ^ sizes.length = o.data.length := Nat.mod_eq_of_lt fits.size
  have room : ¬ o.data.length > (o.data ++ (padding ++ after)).length := by
    rw [List.length_append]
    omega
  have header := @readObjects_header sizes before
    (o.data ++ (padding ++ after)) budget narrow o.index o.referenceCount o.data.length reserved four
  have parts : encodeObject sizes o reserved padding ++ after =
      encodeObjectHeader sizes o.index o.referenceCount o.data.length reserved ++
        (o.data ++ (padding ++ after)) := by
    simp only [encodeObject, List.append_assoc]
  rw [parts, header, index, count, size, if_neg fits.named, if_neg room,
    (Cursor.reads_take o.data).step, left_bind]

/-- All objects of a packed part are read, then what is behind it. -/
theorem readObjects_packed (narrow : sizes.length ≤ 8) {objects : List GlobalHeapObject} {code : Bytes}
    (packed : Packed sizes objects code) : ∀ {before : Bytes},
    (readObjects sizes (objects.length + budget) ⟨before ++ (code ++ after), before.length⟩).1 =
      (objects ++ ·) <$> (readObjects sizes budget ⟨before ++ code ++ after, (before ++ code).length⟩).1 := by
  induction packed with
  | nil =>
    intro before
    simp only [List.nil_append, List.append_nil, List.length_nil, Nat.zero_add]
    exact (id_map _).symm
  | @cons o objects reserved padding rest fits four padded packed ih =>
    intro before
    have room : ¬ (padding ++ (rest ++ after)).length < padLen o.data.length := by
      rw [List.length_append]
      omega
    have skipped := Cursor.reads_skip padding
    rw [padded] at skipped
    have turn : (o :: objects).length + budget = objects.length + budget + 1 := by
      rw [List.length_cons]
      omega
    rw [turn, List.append_assoc, readObjects_object narrow fits four, if_neg room, skipped.step,
      Session.fst_bind_pure, ih, ← comp_map]
    simp only [encodeObject, List.append_assoc]
    rfl

theorem Packed.length_le {objects : List GlobalHeapObject} {code : Bytes} (packed : Packed sizes objects code) :
    objects.length ≤ code.length := by
  induction packed with
  | nil => exact Nat.le_refl 0
  | cons fits four padded packed ih =>
    simp only [List.length_cons, List.length_append, encodeObject, encodeObjectHeader_length four,
      objectHeaderLen]
    omega

theorem readObjects_closes (narrow : sizes.length ≤ 8) {last : List GlobalHeapObject} {ending : Bytes}
    (closes : Closes sizes last ending) :
    (readObjects sizes (budget + 1) ⟨before ++ ending, before.length⟩).1 = .ok last := by
  cases closes with
  | short few => exact readObjects_short few
  | free four => exact readObjects_free narrow four
  | @unpadded o reserved padding fits four short =>
    have object := @readObjects_object sizes before [] budget narrow o fits reserved padding four
    rw [List.append_nil, List.append_nil, if_pos short, Session.pure_apply] at object
    rw [object]

theorem read_stored {view : View} {address : Nat} {body : Bytes} (narrow : view.sizes.length ≤ 8)
    (stored : Stored view address body) :
    ∃ header : Bytes, read view address =
      (readObjects view.sizes (headerLen view.sizes + body.length) ⟨header ++ body, header.length⟩).1 >>=
        fun objects => .ok ⟨objects⟩ := by
  have front := stored.held.front.read
  have whole := stored.held.read
  have parsed := reads_header narrow stored.size [] []
  rw [List.length_append, encodeHeader_length] at whole
  rw [encodeHeader_length] at front
  simp only [List.nil_append, List.append_nil, List.length_nil] at parsed
  have room : ¬ headerLen view.sizes + body.length < headerLen view.sizes := by omega
  refine ⟨encodeHeader view.sizes (headerLen view.sizes + body.length), ?_⟩
  simp only [read, front, Outcome.ok_bind, Cursor.start, parsed, room, if_false, whole, Cursor.startAt,
    List.length_append, encodeHeader_length]

end Reading

section RoundTrip

variable {view : View} {address : Nat}

/-- The budget outlasts the objects of a packed part. -/
theorem turns_left {sizes : Sizes} {front : List GlobalHeapObject} {packed : Bytes}
    (laid : Packed sizes front packed) (ending : Bytes) :
    ∃ budget, headerLen sizes + (packed ++ ending).length = front.length + (budget + 1) := by
  have few := laid.length_le
  refine ⟨headerLen sizes + (packed ++ ending).length - front.length - 1, ?_⟩
  rw [List.length_append, headerLen]
  omega

theorem read_laid (narrow : view.sizes.length ≤ 8) {objects : List GlobalHeapObject} {body : Bytes}
    (laid : Laid view.sizes objects body) (stored : Stored view address body) :
    read view address = .ok ⟨objects⟩ := by
  obtain ⟨front, last, packed, ending, rfl, rfl, laid, closes⟩ := laid
  obtain ⟨header, read⟩ := read_stored narrow stored
  obtain ⟨budget, turns⟩ := turns_left laid ending
  rw [read, turns, readObjects_packed narrow laid, readObjects_closes narrow closes]
  rfl

/-- An object behind others that claims more than the collection holds. -/
theorem read_overclaims (narrow : view.sizes.length ≤ 8) {front : List GlobalHeapObject}
    {packed reserved rest : Bytes} {index referenceCount size : Nat} (laid : Packed view.sizes front packed)
    (named : index ≠ 0) (index_lt : index < 256 ^ 2) (size_lt : size < 256 ^ view.sizes.length)
    (four : reserved.length = 4) (past : rest.length < size)
    (stored : Stored view address
      (packed ++ (encodeObjectHeader view.sizes index referenceCount size reserved ++ rest))) :
    read view address = .error (overclaims index size rest.length) := by
  obtain ⟨header, read⟩ := read_stored narrow stored
  obtain ⟨budget, turns⟩ :=
    turns_left laid (encodeObjectHeader view.sizes index referenceCount size reserved ++ rest)
  rw [read, turns, readObjects_packed narrow laid, readObjects_header narrow index referenceCount size four,
    Nat.mod_eq_of_lt index_lt, Nat.mod_eq_of_lt size_lt, if_neg named, if_pos past]
  rfl

theorem object_of_mem {objects : List GlobalHeapObject}
    (distinct : (objects.map GlobalHeapObject.index).Nodup) {o : GlobalHeapObject} (member : o ∈ objects) :
    object ⟨objects⟩ o.index = some o := by
  unfold object
  cases found : objects.find? fun other => other.index == o.index with
  | none =>
    have other := List.find?_eq_none.mp found o member
    exact absurd (beq_self_eq_true o.index) other
  | some other =>
    have same : other.index = o.index := by simpa using List.find?_some found
    rw [List.inj_on_of_nodup_map distinct (List.mem_of_find?_eq_some found) member same]

/-- A collection is read as the objects it holds, however it ends, and each is found by its index. An object
that claims more bytes than are left of the collection is an error. -/
theorem read_roundTrip (narrow : view.sizes.length ≤ 8) :
    (∀ objects body, (objects.map GlobalHeapObject.index).Nodup → Laid view.sizes objects body →
      Stored view address body →
      ∃ heap, read view address = .ok heap ∧ heap.objects = objects ∧
        ∀ o ∈ objects, heap.object o.index = some o) ∧
    (∀ front packed index referenceCount size reserved rest, Packed view.sizes front packed →
      index ≠ 0 → index < 256 ^ 2 → size < 256 ^ view.sizes.length → reserved.length = 4 → rest.length < size →
      Stored view address (packed ++
      (encodeObjectHeader view.sizes index referenceCount size reserved ++ rest)) →
      ∃ e, read view address = .error e) := by
  constructor
  · intro objects body distinct laid stored
    exact ⟨⟨objects⟩, read_laid narrow laid stored, rfl, fun o member => object_of_mem distinct member⟩
  · intro front packed index referenceCount size reserved rest laid named index_lt size_lt four past stored
    exact ⟨_, read_overclaims narrow laid named index_lt size_lt four past stored⟩

def collectionFile (body : Bytes) (small : body.length < 2 ^ 32) : View where
  file :=
    { bytes := encodeHeader ⟨8, 8⟩ (16 + body.length) ++ body
      bounded := by
        rw [List.length_append, encodeHeader_length]
        change 16 + body.length ≤ isizeMax
        unfold isizeMax
        omega }
  baseAddress := 0
  sizes := ⟨8, 8⟩

theorem stored_collectionFile {body : Bytes} (small : body.length < 2 ^ 32) :
    Stored (collectionFile body small) 0 body := by
  constructor
  · change 16 + body.length < 256 ^ 8
    omega
  · exact @View.holds_between (collectionFile body small) [] _ [] (by simp [collectionFile, headerLen]) rfl

def hello : GlobalHeapObject := ⟨1, 1, [0x68, 0x65, 0x6c, 0x6c, 0x6f]⟩

/-- An object whose padding is cut off, and one that claims a byte more than there is. -/
theorem read_hello :
    (∃ heap, read (collectionFile (encodeObject ⟨8, 8⟩ hello (List.replicate 4 0) []) (by decide)) 0 =
      .ok heap ∧
      heap.objects = [hello] ∧ ∀ o ∈ [hello], heap.object o.index = some o) ∧
    ∃ e, read (collectionFile (encodeObjectHeader ⟨8, 8⟩ 1 1 6 (List.replicate 4 0) ++ hello.data)
      (by decide)) 0 =
      .error e := by
  have narrow : (⟨8, 8⟩ : Sizes).length ≤ 8 := Nat.le_refl 8
  have fits : hello.Fits ⟨8, 8⟩ := ⟨by decide, by decide, by decide, by decide⟩
  constructor
  · refine (@read_roundTrip (collectionFile _ (by decide)) 0 narrow).1 [hello] _ (by decide) ?_
      (stored_collectionFile (by decide))
    exact ⟨[], [hello], [], _, rfl, rfl, .nil, .unpadded fits rfl (by decide)⟩
  · exact (@read_roundTrip (collectionFile _ (by decide)) 0 narrow).2 [] [] 1 1 6
      (List.replicate 4 0) hello.data .nil
      (by decide) (by decide) (by decide) rfl (by decide) (stored_collectionFile (by decide))

end RoundTrip

end GlobalHeap

end Oxcdf
