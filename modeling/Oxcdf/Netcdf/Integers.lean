import Oxcdf.Message.AttributeRoundTrip
import Oxcdf.Netcdf

/-! Integer attributes, from their messages to their values.

The number of values comes from the dataspace, so what pads a value adds none. Each value goes
through a signed word, which keeps the bits of an unsigned one.
-/

set_option autoImplicit false

namespace Oxcdf

open Foundation Foundation.Buffer Foundation.Format

/-- What integers a value holds, in the variant of their type. -/
inductive HoldsIntegers : Bool → Nat → List Int → AttributeValue → Prop where
  | schar (v : Int8) : HoldsIntegers true 1 [v.toInt] (.schar v)
  | short (v : Int16) : HoldsIntegers true 2 [v.toInt] (.short v)
  | int (v : Int32) : HoldsIntegers true 4 [v.toInt] (.int v)
  | longlong (v : Int64) : HoldsIntegers true 8 [v.toInt] (.longlong v)
  | uchar (v : UInt8) : HoldsIntegers false 1 [(v.toNat : Int)] (.uchar v)
  | ushort (v : UInt16) : HoldsIntegers false 2 [(v.toNat : Int)] (.ushort v)
  | uint (v : UInt32) : HoldsIntegers false 4 [(v.toNat : Int)] (.uint v)
  | ulonglong (v : UInt64) : HoldsIntegers false 8 [(v.toNat : Int)] (.ulonglong v)
  | schars (vs : List Int8) : vs.length ≠ 1 → HoldsIntegers true 1 (vs.map Int8.toInt) (.schars vs)
  | shorts (vs : List Int16) : vs.length ≠ 1 → HoldsIntegers true 2 (vs.map Int16.toInt) (.shorts vs)
  | ints (vs : List Int32) : vs.length ≠ 1 → HoldsIntegers true 4 (vs.map Int32.toInt) (.ints vs)
  | longlongs (vs : List Int64) : vs.length ≠ 1 → HoldsIntegers true 8 (vs.map Int64.toInt) (.longlongs vs)
  | uchars (vs : List UInt8) : vs.length ≠ 1 →
      HoldsIntegers false 1 (vs.map fun v => (v.toNat : Int)) (.uchars vs)
  | ushorts (vs : List UInt16) : vs.length ≠ 1 →
      HoldsIntegers false 2 (vs.map fun v => (v.toNat : Int)) (.ushorts vs)
  | uints (vs : List UInt32) : vs.length ≠ 1 →
      HoldsIntegers false 4 (vs.map fun v => (v.toNat : Int)) (.uints vs)
  | ulonglongs (vs : List UInt64) : vs.length ≠ 1 →
      HoldsIntegers false 8 (vs.map fun v => (v.toNat : Int)) (.ulonglongs vs)

namespace Netcdf

section Encoding

def InRange (signed : Bool) (width : Nat) (v : Int) : Prop :=
  if signed then -2 ^ (8 * width - 1) ≤ v ∧ v < 2 ^ (8 * width - 1) else 0 ≤ v ∧ v < 2 ^ (8 * width)

instance (signed : Bool) (width : Nat) (v : Int) : Decidable (InRange signed width v) := by
  unfold InRange
  infer_instance

/-- The two's complement of an integer, as a number. -/
def complement (width : Nat) (v : Int) : Nat := (v % 256 ^ width).toNat

def encodeInteger (order : ByteOrder) (width : Nat) (v : Int) : Bytes :=
  match order with
  | .little => littleEndian width (complement width v)
  | .big => (littleEndian width (complement width v)).reverse

/-- The message of an integer type of any version. -/
def encodeType (version : Nat) (order : ByteOrder) (signed : Bool) (width : Nat) : Bytes :=
  littleEndian 1 (version * 2 ^ 4 + 0) ++ (littleEndian 3 (order.bit + if signed then 8 else 0) ++
    (littleEndian 4 width ++ (littleEndian 2 0 ++ littleEndian 2 (8 * width))))

def integerType (version : Nat) (order : ByteOrder) (signed : Bool) (width : Nat) : Datatype :=
  ⟨version, width, .fixedPoint order signed 0 (8 * width)⟩

end Encoding

section Decoding

theorem shifted {n shift : Nat} (known : shift < 64) (word : n < 2 ^ 64) :
    ((UInt64.ofNat n <<< UInt64.ofNat shift).toInt64 >>> Int64.ofNat shift).toInt =
      ((n * 2 ^ shift : Nat) : Int).bmod (2 ^ 64) / (2 ^ shift : Nat) := by
  have right : ∀ s < 64, (Int64.ofNat s).toBitVec.smod 64 = BitVec.ofNat 64 s := by decide
  have left : ∀ s < 64, (UInt64.ofNat s).toBitVec % 64 = BitVec.ofNat 64 s := by decide
  have shifts : ∀ s < 64, (BitVec.ofNat 64 s).toNat = s := by decide
  have bits : (UInt64.ofNat n).toBitVec.toNat = n := by
    rw [UInt64.toNat_toBitVec, UInt64.toNat_ofNat']
    exact Nat.mod_eq_of_lt word
  rw [← Int64.toInt_toBitVec, Int64.toBitVec_shiftRight, right shift known, BitVec.toInt_sshiftRight',
    UInt64.toBitVec_toInt64, UInt64.toBitVec_shiftLeft, left shift known, BitVec.shiftLeft_eq',
    BitVec.toInt_shiftLeft, shifts shift known, bits, Nat.shiftLeft_eq, Int.shiftRight_eq_div_pow]

theorem complement_lt (width : Nat) (v : Int) : complement width v < 256 ^ width := by
  have positive : (0 : Int) < 256 ^ width := by positivity
  have small := Int.emod_lt_of_pos v positive
  have whole := Int.emod_nonneg v (Int.ne_of_gt positive)
  unfold complement
  have cast : ((256 ^ width : Nat) : Int) = 256 ^ width := by push_cast; rfl
  omega

/-- A signed value is extended from its own width. -/
theorem decodeInt_signed {width : Nat} (known : width ∈ [1, 2, 4, 8]) {v : Int}
    (inRange : InRange true width v) :
    (decodeInt true width (littleEndian width (complement width v))).toInt = v := by
  have small := complement_lt width v
  unfold decodeInt
  rw [ofLittleEndian_littleEndian width small, if_pos rfl]
  unfold InRange at inRange
  rw [if_pos rfl] at inRange
  simp only [List.mem_cons, List.not_mem_nil, or_false] at known
  unfold complement at small ⊢
  rcases known with rfl | rfl | rfl | rfl
  all_goals
    rw [shifted (by decide) (by omega), Int.bmod_def]
    omega

/-- An unsigned value keeps its bits in a signed word. -/
theorem decodeInt_unsigned {width : Nat} (known : width ∈ [1, 2, 4, 8]) {v : Int}
    (inRange : InRange false width v) :
    ((decodeInt false width (littleEndian width (complement width v))).toUInt64.toNat : Int) = v := by
  have small := complement_lt width v
  unfold decodeInt
  rw [ofLittleEndian_littleEndian width small, if_neg (by decide), UInt64.toUInt64_toInt64, UInt64.toNat_ofNat']
  unfold InRange at inRange
  rw [if_neg (by decide)] at inRange
  simp only [List.mem_cons, List.not_mem_nil, or_false] at known
  unfold complement at small ⊢
  rcases known with rfl | rfl | rfl | rfl
  all_goals omega

/-- A pass over the positions of a list that is fine at each. -/
theorem mapM_range_ok {α β : Type} {items : List α} {step : Nat → Except Error β} {value : α → β}
    (each : ∀ i item, items[i]? = some item → step i = .ok (value item)) :
    (List.range items.length).mapM step = .ok (items.map value) := by
  induction items generalizing step with
  | nil => rfl
  | cons item items ih =>
    have rest := @ih (fun i => step (i + 1)) fun i later found => each (i + 1) later (by simpa using found)
    rw [List.length_cons, List.range_succ_eq_map, List.mapM_cons, each 0 item (by simp), List.mapM_map]
    change ((List.range items.length).mapM fun i => step (i + 1)) >>= (fun values =>
      pure (value item :: values)) = _
    rw [rest]
    rfl

variable {attr : Attribute} {version width : Nat} {order : ByteOrder} {signed : Bool}
  {values : List Int} {rest : Bytes}

theorem encodeInteger_length (order : ByteOrder) (width : Nat) (v : Int) :
    (encodeInteger order width v).length = width := by
  cases order
  · exact littleEndian_length width _
  · rw [encodeInteger, List.length_reverse, littleEndian_length]

theorem slice_front {α : Type} (front rest : List α) {start len : Nat} (inside : start + len ≤ front.length) :
    slice (front ++ rest) start len = slice front start len := by
  have before : start ≤ front.length := by omega
  have room : len ≤ (front.drop start).length := by
    rw [List.length_drop]
    omega
  rw [slice, slice, List.drop_append_of_le_length before, List.take_append_of_le_length room]

/-- Each element of a stored value, in native order. -/
theorem element_eq (positive : width ≠ 0) (typed : attr.datatype = integerType version order signed width)
    (stored : attr.data = values.flatMap (encodeInteger order width) ++ rest) {i : Nat} {v : Int}
    (found : values[i]? = some v) : element attr i = some (littleEndian width (complement width v)) := by
  have uniform : ∀ v ∈ values, (encodeInteger order width v).length = width :=
    fun v _ => encodeInteger_length order width v
  have inside : i < values.length := (List.getElem?_eq_some_iff.mp found).1
  have total := length_flatMap_block uniform
  have stop : (i + 1) * width ≤ values.length * width := Nat.mul_le_mul_right width inside
  have room : ¬ (i + 1) * width > attr.data.length := by
    rw [stored, List.length_append, total]
    omega
  have window : slice attr.data (i * width) width = encodeInteger order width v := by
    rw [stored, slice_front, slice_flatMap_block uniform found]
    rw [total]
    rwa [Nat.succ_mul] at stop
  have size : attr.datatype.size = width := by rw [typed]; rfl
  have swapped : attr.datatype.byteOrder = some order := by rw [typed]; rfl
  unfold element needsSwap
  simp only [size, positive, room, or_self, if_false, window, swapped]
  cases order
  · rfl
  · simp [encodeInteger]

theorem attributeElementCount_eq (positive : width ≠ 0)
    (typed : attr.datatype = integerType version order signed width)
    (stored : attr.data = values.flatMap (encodeInteger order width) ++ rest)
    (counted : attr.elementCount = values.length) : attributeElementCount attr = values.length := by
  have size : attr.datatype.size = width := by rw [typed]; rfl
  have total := length_flatMap_block fun v (_ : v ∈ values) => encodeInteger_length order width v
  have many : values.length ≤ attr.data.length / width := by
    refine (Nat.le_div_iff_mul_le (Nat.pos_of_ne_zero positive)).mpr ?_
    rw [stored, List.length_append, total]
    exact Nat.le_add_right _ _
  rw [attributeElementCount, size, if_neg positive, counted, Nat.min_eq_left many]

/-- The values are those that the dataspace counts, whatever stands behind them. -/
theorem decodeInts_eq (known : width ∈ [1, 2, 4, 8])
    (typed : attr.datatype = integerType version order signed width)
    (stored : attr.data = values.flatMap (encodeInteger order width) ++ rest)
    (counted : attr.elementCount = values.length) :
    decodeInts attr =
      .ok (values.map fun v => decodeInt signed width (littleEndian width (complement width v))) := by
  have bounds : width ≠ 0 ∧ ¬ width > 8 := by
    simp only [List.mem_cons, List.not_mem_nil, or_false] at known
    omega
  obtain ⟨positive, narrow⟩ := bounds
  have size : attr.datatype.size = width := by rw [typed]; rfl
  have class_ : attr.datatype.class_ = .fixedPoint order signed 0 (8 * width) := by rw [typed]; rfl
  unfold decodeInts
  simp only [class_, size, positive, narrow, or_self, if_false,
    attributeElementCount_eq positive typed stored counted]
  refine mapM_range_ok fun i v found => ?_
  rw [element_eq positive typed stored found]
  rfl

/-- One value is singular and any other number of them is plural. -/
theorem holds_fold {α : Type} {number : α → Int} {single : α → AttributeValue}
    {plural : List α → AttributeValue} (one : ∀ v, HoldsIntegers signed width [number v] (single v))
    (many : ∀ vs : List α, vs.length ≠ 1 → HoldsIntegers signed width (vs.map number) (plural vs))
    (vs : List α) :
    HoldsIntegers signed width (vs.map number) (fold vs single plural) := by
  match vs with
  | [] => exact many [] Nat.zero_ne_one
  | [v] => exact one v
  | first :: second :: later => exact many (first :: second :: later) (by simp)

/-- Decoded values, converted to their own type, in the variant of this type. -/
theorem holds_converted {α : Type} {number : α → Int} {convert : Int64 → α} {decode : Int → Int64}
    {single : α → AttributeValue} {plural : List α → AttributeValue}
    (one : ∀ v, HoldsIntegers signed width [number v] (single v))
    (many : ∀ vs : List α, vs.length ≠ 1 → HoldsIntegers signed width (vs.map number) (plural vs))
    (exact_ : ∀ v ∈ values, number (convert (decode v)) = v) :
    HoldsIntegers signed width values (fold ((values.map decode).map convert) single plural) := by
  have back : ((values.map decode).map convert).map number = values := by
    rw [List.map_map, List.map_map]
    exact (List.map_congr_left exact_).trans (List.map_id values)
  have held := holds_fold one many ((values.map decode).map convert)
  rwa [back] at held

theorem holds_foldInts (known : width ∈ [1, 2, 4, 8]) (inRange : ∀ v ∈ values, InRange signed width v) :
    ∃ value, foldInts signed width
        (values.map fun v => decodeInt signed width (littleEndian width (complement width v))) = some value ∧
      HoldsIntegers signed width values value := by
  cases signed with
  | true =>
    have whole : ∀ v ∈ values,
        (decodeInt true width (littleEndian width (complement width v))).toInt = v :=
      fun v member => decodeInt_signed known (inRange v member)
    simp only [List.mem_cons, List.not_mem_nil, or_false] at known
    -- Each width is narrowed to a type of its own, which holds what was in range.
    rcases known with rfl | rfl | rfl | rfl
    · refine ⟨_, rfl, holds_converted .schar .schars fun v member => ?_⟩
      have range := inRange v member
      rw [Int64.toInt_toInt8, whole v member, Int.bmod_def]
      simp only [InRange, if_true] at range
      omega
    · refine ⟨_, rfl, holds_converted .short .shorts fun v member => ?_⟩
      have range := inRange v member
      rw [Int64.toInt_toInt16, whole v member, Int.bmod_def]
      simp only [InRange, if_true] at range
      omega
    · refine ⟨_, rfl, holds_converted .int .ints fun v member => ?_⟩
      have range := inRange v member
      rw [Int64.toInt_toInt32, whole v member, Int.bmod_def]
      simp only [InRange, if_true] at range
      omega
    · have longs := @holds_converted 8 true values _ _ id _ _ _ .longlong .longlongs whole
      rw [List.map_id] at longs
      exact ⟨_, rfl, longs⟩
  | false =>
    have whole : ∀ v ∈ values,
        ((decodeInt false width (littleEndian width (complement width v))).toUInt64.toNat : Int) = v :=
      fun v member => decodeInt_unsigned known (inRange v member)
    simp only [List.mem_cons, List.not_mem_nil, or_false] at known
    rcases known with rfl | rfl | rfl | rfl
    · refine ⟨_, rfl, holds_converted .uchar .uchars fun v member => ?_⟩
      have range := inRange v member
      have here := whole v member
      rw [UInt64.toNat_toUInt8]
      simp only [InRange, Bool.false_eq_true, if_false] at range
      omega
    · refine ⟨_, rfl, holds_converted .ushort .ushorts fun v member => ?_⟩
      have range := inRange v member
      have here := whole v member
      rw [UInt64.toNat_toUInt16]
      simp only [InRange, Bool.false_eq_true, if_false] at range
      omega
    · refine ⟨_, rfl, holds_converted .uint .uints fun v member => ?_⟩
      have range := inRange v member
      have here := whole v member
      rw [UInt64.toNat_toUInt32]
      simp only [InRange, Bool.false_eq_true, if_false] at range
      omega
    · exact ⟨_, rfl, holds_converted .ulonglong .ulonglongs whole⟩

theorem decodeValue_integers (hdf5 : Option VlenStrings) (owner : String) (known : width ∈ [1, 2, 4, 8])
    (typed : attr.datatype = integerType version order signed width)
    (stored : attr.data = values.flatMap (encodeInteger order width) ++ rest)
    (counted : attr.elementCount = values.length) (inRange : ∀ v ∈ values, InRange signed width v) :
    HoldsIntegers signed width values (decodeValue hdf5 owner attr) := by
  obtain ⟨value, folded, holds⟩ := holds_foldInts known inRange
  have decoded : decodeTyped hdf5 owner attr = some value := by
    have ints := decodeInts_eq known typed stored counted
    have size : attr.datatype.size = width := by rw [typed]; rfl
    have class_ : attr.datatype.class_ = .fixedPoint order signed 0 (8 * width) := by rw [typed]; rfl
    unfold decodeTyped
    simp only [class_, size, ints]
    exact folded
  rw [decodeValue, decoded, Option.getD_some]
  exact holds

end Decoding

section RoundTrip

/-- An integer attribute as a message stores it: its values, and how each part of it is written. -/
structure StoredIntegers where
  version : Attribute.Version
  name : Bytes
  charset : Nat
  typeVersion : Nat
  order : ByteOrder
  signed : Bool
  width : Nat
  /-- The dataspace has version 2, and else version 1. -/
  secondSpace : Bool
  space : Dataspace
  values : List Int

namespace StoredIntegers

def message (a : StoredIntegers) (sizes : Sizes) : Attribute.StoredAttribute where
  version := a.version
  name := a.name
  charset := a.charset
  datatype := encodeType a.typeVersion a.order a.signed a.width
  dataspace := a.space.encode sizes a.secondSpace
  value := a.values.flatMap (encodeInteger a.order a.width)

/-- Each part fits its field, the values are in the range of their type and as many as the dataspace says, and
they are bytes that can be held in memory. -/
structure Fits (a : StoredIntegers) (sizes : Sizes) : Prop where
  name : a.name.length < 256 ^ 2
  charset : a.charset < 256
  typeVersion : 1 ≤ a.typeVersion ∧ a.typeVersion ≤ 4
  width : a.width ∈ [1, 2, 4, 8]
  space : a.space.Fits sizes a.secondSpace
  dataspace : (a.space.encode sizes a.secondSpace).length < 256 ^ 2
  counted : a.space.elementCount = a.values.length
  inRange : ∀ v ∈ a.values, InRange a.signed a.width v
  memory : a.values.length * a.width ≤ isizeMax

end StoredIntegers

theorem reads_integerType {version width : Nat} (order : ByteOrder) (signed : Bool)
    (versions : 1 ≤ version ∧ version ≤ 4) (known : width ∈ [1, 2, 4, 8]) :
    Reads Datatype.parseAt (encodeType version order signed width)
      (integerType version order signed width) := by
  have narrow : width ≤ 8 := by
    simp only [List.mem_cons, List.not_mem_nil, or_false] at known
    omega
  have bits : order.bit + (if signed then 8 else 0) < 2 ^ 24 := by
    cases order <;> cases signed <;> decide
  have header := Datatype.reads_headerOf versions.1 versions.2 (show 0 < 2 ^ 4 by decide) bits
    (show width < 256 ^ 4 by omega)
  have class_ := Datatype.reads_fixedPoint order signed (show 0 < 256 ^ 2 by decide)
    (show 8 * width < 256 ^ 2 by omega)
  rw [Datatype.parseAt_eq, encodeType, ← List.append_assoc (littleEndian 3 _),
    ← List.append_assoc (littleEndian 1 _)]
  exact header.bind (class_.bind_pure fun class_ => (⟨version, width, class_⟩ : Datatype))

variable {sizes : Sizes} {a : StoredIntegers}

theorem StoredIntegers.Fits.message (narrow : sizes.length ≤ 8) (fits : a.Fits sizes) :
    (a.message sizes).Fits sizes (integerType a.typeVersion a.order a.signed a.width) a.space where
  name := fits.name
  charset := fits.charset
  datatype := by
    change (encodeType a.typeVersion a.order a.signed a.width).length < 256 ^ 2
    simp [encodeType]
  dataspace := fits.dataspace
  typed := reads_integerType a.order a.signed fits.typeVersion fits.width
  shaped := Dataspace.reads_space narrow fits.space

/-- Integers are read back from a message of each version, whatever pads it, and from records that stand back to
back, with the cursor left behind them. -/
theorem integers_roundTrip (narrow : sizes.length ≤ 8) (fits : a.Fits sizes) (hdf5 : Option VlenStrings)
    (owner : String) :
    (∀ padding, ∃ attr, Attribute.parse sizes ((a.message sizes).encode ++ padding) = .ok attr ∧
      HoldsIntegers a.signed a.width a.values (decodeValue hdf5 owner attr)) ∧
    (∃ attr, Reads (Attribute.parseAt sizes) (a.message sizes).encode attr ∧
      HoldsIntegers a.signed a.width a.values (decodeValue hdf5 owner attr)) := by
  have stored := fits.message narrow
  have length : (a.message sizes).value.length = a.values.length * a.width :=
    length_flatMap_block fun v _ => encodeInteger_length a.order a.width v
  constructor
  · intro padding
    refine ⟨_, Attribute.parse_encode stored padding, ?_⟩
    exact decodeValue_integers hdf5 owner fits.width rfl rfl fits.counted fits.inRange
  · have sized : a.space.elementCount * (integerType a.typeVersion a.order a.signed a.width).size =
        (a.message sizes).value.length := by
      rw [length, fits.counted]
      rfl
    have small : (a.message sizes).value.length < wordSize := by
      rw [length]
      exact Nat.lt_of_le_of_lt fits.memory isizeMax_lt_wordSize
    refine ⟨_, Attribute.reads_record stored sized small, ?_⟩
    exact decodeValue_integers hdf5 owner fits.width rfl (List.append_nil _).symm fits.counted fits.inRange

/-- Two big-endian 64-bit numbers in a version 1 message. -/
def twoLongs : StoredIntegers where
  version := .one
  name := utf8Bytes "flags" ++ [0]
  charset := 0
  typeVersion := 1
  order := .big
  signed := false
  width := 8
  secondSpace := false
  space := ⟨.simple, [2], none⟩
  values := [1, 2 ^ 64 - 1]

theorem integers_roundTrip_twoLongs :
    (∀ padding, ∃ attr, Attribute.parse ⟨8, 8⟩ ((twoLongs.message ⟨8, 8⟩).encode ++ padding) = .ok attr ∧
      HoldsIntegers false 8 [1, 2 ^ 64 - 1] (decodeValue none "v" attr)) ∧
    (∃ attr, Reads (Attribute.parseAt ⟨8, 8⟩) (twoLongs.message ⟨8, 8⟩).encode attr ∧
      HoldsIntegers false 8 [1, 2 ^ 64 - 1] (decodeValue none "v" attr)) := by
  have space : twoLongs.space.Fits ⟨8, 8⟩ false := ⟨by decide, by decide, nofun, fun _ => rfl⟩
  have fits : twoLongs.Fits ⟨8, 8⟩ :=
    ⟨by decide, by decide, by decide, by decide, space, by decide, by decide, by decide, by decide⟩
  exact integers_roundTrip (Nat.le_refl 8) fits none "v"

end RoundTrip

end Netcdf

end Oxcdf
