import Mathlib.Tactic.IntervalCases
import Oxcdf.Elements
import Oxcdf.Netcdf.Integers

/-! Stored numbers, and what they are read as.

An element of the type that is asked for is copied, and one of another type is
decoded and converted. For integers of every width and for floats the two agree, so what a
reader gets depends on the number alone.
-/

set_option autoImplicit false

namespace Oxcdf

open Foundation Foundation.Buffer Foundation.Format Netcdf

/-- A number as it is stored: an integer, or the bits of a float. -/
inductive Number where
  | signed (v : Int64)
  | unsigned (v : UInt64)
  | single (bits : UInt32)
  | double (bits : UInt64)
  deriving DecidableEq

namespace Number

/-- The integer that the bytes of a number encode. -/
def code : Number → Int
  | .signed v => v.toInt
  | .unsigned v => v.toNat
  | .single bits => bits.toNat
  | .double bits => bits.toNat

/-- The bytes of a number, in a byte order. -/
def encode (order : ByteOrder) (width : Nat) (number : Number) : Bytes := encodeInteger order width number.code

/-- A number that a datatype can hold. -/
inductive OfType : Datatype → Number → Prop where
  | signed {version width bitOffset bitPrecision : Nat} {order : ByteOrder} {v : Int64} (some_ : 1 ≤ width)
      (few : width ≤ 8) (inRange : InRange true width v.toInt) :
      OfType ⟨version, width, .fixedPoint order true bitOffset bitPrecision⟩ (.signed v)
  | unsigned {version width bitOffset bitPrecision : Nat} {order : ByteOrder} {v : UInt64} (some_ : 1 ≤ width)
      (few : width ≤ 8) (inRange : InRange false width v.toNat) :
      OfType ⟨version, width, .fixedPoint order false bitOffset bitPrecision⟩ (.unsigned v)
  | single {version a b c d e f g h : Nat} {order : ByteOrder} {bits : UInt32} :
      OfType ⟨version, 4, .floatingPoint order a b c d e f g h⟩ (.single bits)
  | double {version a b c d e f g h : Nat} {order : ByteOrder} {bits : UInt64} :
      OfType ⟨version, 8, .floatingPoint order a b c d e f g h⟩ (.double bits)

/-- What a number is read as: an integer converted, and a float through the wider of the two types. -/
def convert : (element : Element) → Number → element.Value
  | element, .signed v => element.fromI64 v
  | element, .unsigned v => element.fromU64 v
  | .f32, .single bits => Float32.ofBits bits
  | element, .single bits => element.fromF64 (Float32.ofBits bits).toFloat
  | element, .double bits => element.fromF64 (Float.ofBits bits)

end Number

section Words

theorem complement_natCast (width n : Nat) : complement width (n : Int) = n % 256 ^ width := by
  unfold complement
  have cast : ((256 ^ width : Nat) : Int) = 256 ^ width := by push_cast; rfl
  rw [← cast, ← Int.natCast_emod, Int.toNat_natCast]

theorem complement_of_lt {width n : Nat} (small : n < 256 ^ width) : complement width (n : Int) = n := by
  rw [complement_natCast, Nat.mod_eq_of_lt small]

/-- A word of the two's complement of an integer is that integer, wrapped. -/
theorem toInt_complement (width : Nat) (v : Int) :
    (BitVec.ofNat (8 * width) (complement width v)).toInt = v.bmod (2 ^ (8 * width)) := by
  have positive : (0 : Int) < 256 ^ width := by positivity
  have power : (256 : Int) ^ width = ((2 ^ (8 * width) : Nat) : Int) := by
    push_cast
    rw [pow_mul]
    norm_num
  rw [BitVec.toInt_ofNat', complement, Int.toNat_of_nonneg (Int.emod_nonneg v (Int.ne_of_gt positive)), power,
    Int.emod_bmod]

theorem fromNeBytes_signed {element : Element} (kind : element.dtype = .int element.size) (v : Int64) :
    element.fromNeBytes (encodeInteger .little element.size v.toInt) = element.fromI64 v := by
  have decoded := ofLittleEndian_littleEndian element.size (complement_lt element.size v.toInt)
  have bits := toInt_complement element.size v.toInt
  cases element with
  | i8 => exact Int8.toInt_inj.mp ((congrArg (fun n => (BitVec.ofNat 8 n).toInt) decoded).trans
      (bits.trans (Int64.toInt_toInt8 v).symm))
  | i16 => exact Int16.toInt_inj.mp ((congrArg (fun n => (BitVec.ofNat 16 n).toInt) decoded).trans
      (bits.trans (Int64.toInt_toInt16 v).symm))
  | i32 => exact Int32.toInt_inj.mp ((congrArg (fun n => (BitVec.ofNat 32 n).toInt) decoded).trans
      (bits.trans (Int64.toInt_toInt32 v).symm))
  | i64 => exact Int64.toInt_inj.mp ((congrArg (fun n => (BitVec.ofNat 64 n).toInt) decoded).trans
      (bits.trans (Int64.toInt_ofInt.symm.trans (congrArg Int64.toInt (Int64.ofInt_toInt v)))))
  | _ => cases kind

theorem fromNeBytes_unsigned {element : Element} (kind : element.dtype = .uint element.size) (v : UInt64) :
    element.fromNeBytes (encodeInteger .little element.size v.toNat) = element.fromU64 v := by
  have bits : ofLittleEndian (encodeInteger .little element.size v.toNat) % 256 ^ element.size =
      v.toNat % 256 ^ element.size := by
    rw [encodeInteger, ofLittleEndian_littleEndian element.size (complement_lt element.size _), complement_natCast,
      Nat.mod_mod]
  cases element with
  | u8 => exact UInt8.toNat_inj.mp (UInt8.toNat_ofNat'.trans (bits.trans (UInt64.toNat_toUInt8 v).symm))
  | u16 => exact UInt16.toNat_inj.mp (UInt16.toNat_ofNat'.trans (bits.trans (UInt64.toNat_toUInt16 v).symm))
  | u32 => exact UInt32.toNat_inj.mp (UInt32.toNat_ofNat'.trans (bits.trans (UInt64.toNat_toUInt32 v).symm))
  | u64 => exact UInt64.toNat_inj.mp (UInt64.toNat_ofNat'.trans (bits.trans (Nat.mod_eq_of_lt v.toNat_lt)))
  | _ => cases kind

/-- A number is copied where it is of the type that is asked for, and this is what it converts to. -/
theorem Number.fromNeBytes_eq {element : Element} {datatype : Datatype} {number : Number}
    (typed : number.OfType datatype) (asked : DType.of datatype = element.dtype) (size : datatype.size = element.size) :
    element.fromNeBytes (number.encode .little datatype.size) = number.convert element := by
  have narrow : element.size % 2 ^ 8 = element.size := by cases element <;> rfl
  cases typed with
  | @signed _ width _ _ _ v =>
    obtain rfl : width = element.size := size
    exact fromNeBytes_signed (asked.symm.trans (congrArg DType.int narrow)) v
  | @unsigned _ width _ _ _ v =>
    obtain rfl : width = element.size := size
    exact fromNeBytes_unsigned (asked.symm.trans (congrArg DType.uint narrow)) v
  | @single _ _ _ _ _ _ _ _ _ _ bits =>
    have same : UInt32.ofNat (ofLittleEndian (encodeInteger .little 4 bits.toNat)) = bits := by
      rw [encodeInteger, ofLittleEndian_littleEndian 4 (complement_lt 4 _), complement_of_lt bits.toNat_lt,
        UInt32.ofNat_toNat]
    cases element <;> cases asked
    exact congrArg Float32.ofBits same
  | @double _ _ _ _ _ _ _ _ _ _ bits =>
    have same : UInt64.ofNat (ofLittleEndian (encodeInteger .little 8 bits.toNat)) = bits := by
      rw [encodeInteger, ofLittleEndian_littleEndian 8 (complement_lt 8 _), complement_of_lt bits.toNat_lt,
        UInt64.ofNat_toNat]
    cases element <;> cases asked
    exact congrArg Float.ofBits same

end Words

section Decoding

variable {width : Nat}

/-- A signed integer of any width is extended to a word. -/
theorem readInteger_encode (some_ : 1 ≤ width) (few : width ≤ 8) {v : Int64} (inRange : InRange true width v.toInt) :
    readInteger (encodeInteger .little width v.toInt) true = .ok v := by
  have small := complement_lt width v.toInt
  unfold readInteger
  rw [encodeInteger_length, if_neg (by omega), encodeInteger, ofLittleEndian_littleEndian width small]
  refine congrArg Outcome.ok (Int64.toInt_inj.mp ?_)
  unfold InRange at inRange
  rw [if_pos rfl] at inRange
  unfold complement at small ⊢
  interval_cases width
  all_goals
    rw [shifted (by decide) (by omega), Int.bmod_def]
    omega

theorem readUnsigned_encode (some_ : 1 ≤ width) (few : width ≤ 8) {v : UInt64}
    (inRange : InRange false width v.toNat) : readUnsigned (encodeInteger .little width v.toNat) = .ok v := by
  have small : v.toNat < 256 ^ width := by
    unfold InRange at inRange
    rw [if_neg (by decide)] at inRange
    have below := inRange.2
    rw [pow_mul] at below
    exact_mod_cast below
  unfold readUnsigned
  rw [encodeInteger_length, if_neg (by omega), encodeInteger, ofLittleEndian_littleEndian width (complement_lt width _),
    complement_of_lt small, UInt64.ofNat_toNat]

theorem readFloat_single (bits : UInt32) :
    readFloat 4 (encodeInteger .little 4 bits.toNat) = .ok (Float32.ofBits bits).toFloat := by
  rw [readFloat, encodeInteger, ofLittleEndian_littleEndian 4 (complement_lt 4 _), complement_of_lt bits.toNat_lt,
    UInt32.ofNat_toNat]

theorem readFloat_double (bits : UInt64) :
    readFloat 8 (encodeInteger .little 8 bits.toNat) = .ok (Float.ofBits bits) := by
  rw [readFloat, encodeInteger, ofLittleEndian_littleEndian 8 (complement_lt 8 _), complement_of_lt bits.toNat_lt,
    UInt64.ofNat_toNat]

/-- The windows of some blocks of one width are the blocks. -/
theorem chunksExact_flatMap {α : Type} {block : α → Bytes} (positive : 0 < width) {items : List α}
    (long : ∀ a ∈ items, (block a).length = width) : chunksExact width (items.flatMap block) = items.map block := by
  have count : (items.flatMap block).length / width = items.length := by
    rw [length_flatMap_block long, Nat.mul_div_cancel _ positive]
  rw [chunksExact, count]
  apply List.ext_getElem (by simp)
  intro i _ inside
  rw [List.length_map] at inside
  simp only [List.getElem_map, List.getElem_range]
  exact slice_flatMap_block long (List.getElem?_eq_getElem inside)

end Decoding

section Blocks

variable {datatype : Datatype} {numbers : List Number} {raw : RawData}

theorem Number.encode_length (order : ByteOrder) (width : Nat) (number : Number) :
    (number.encode order width).length = width := encodeInteger_length order width number.code

/-- A type of numbers has a byte order, and its elements are there themselves. -/
theorem Number.OfType.numeric {number : Number} (typed : number.OfType datatype) :
    (∃ order, datatype.byteOrder = some order) ∧ datatype.class_.isVariableLength = false ∧
      datatype.isDecodable = true := by
  cases typed <;> exact ⟨⟨_, rfl⟩, rfl, rfl⟩

/-- With its bytes reversed, a number has its lower ones first. -/
theorem Number.encode_reverse (number : Number) (width : Nat) :
    (number.encode .big width).reverse = number.encode .little width := by
  simp [Number.encode, encodeInteger]

theorem Number.OfType.positive {number : Number} (typed : number.OfType datatype) : 0 < datatype.size := by
  cases typed with
  | signed some_ | unsigned some_ => exact some_
  | single | double => exact Nat.succ_pos _

/-- Whether it is copied or converted, a block of stored numbers is read as what these convert to. -/
theorem getOf_numbers (element : Element) (what : String) (numeric : ∃ number : Number, number.OfType datatype)
    (typed : ∀ number ∈ numbers, number.OfType datatype) (size : raw.elementSize = datatype.size)
    (stored : raw.bytes = numbers.flatMap (Number.encode .little datatype.size)) :
    raw.getOf element datatype what = .ok (numbers.map (Number.convert element)) := by
  obtain ⟨some_, first⟩ := numeric
  have positive := first.positive
  have blocks : chunksExact datatype.size raw.bytes = numbers.map (Number.encode .little datatype.size) :=
    stored ▸ chunksExact_flatMap positive fun number _ => number.encode_length .little datatype.size
  have len : raw.len = numbers.length := by
    rw [RawData.len, size, if_neg positive.ne', stored,
      length_flatMap_block fun number _ => Number.encode_length .little datatype.size number,
      Nat.mul_div_cancel _ positive]
  unfold RawData.getOf
  dsimp only
  split
  · next asked =>
    rw [Element.fromNeSlice, ← asked.2, size, blocks, List.map_map]
    refine congrArg Outcome.ok (List.map_congr_left fun number member => ?_)
    exact Number.fromNeBytes_eq (typed number member) asked.1 (size ▸ asked.2)
  · next other =>
    rw [size, Nat.max_eq_left positive, blocks, len, List.take_of_length_le (by simp)]
    -- Of one datatype, all numbers are of one kind.
    cases first with
    | signed =>
      refine (List.mapM_map ..).trans (Outcome.mapM_of_ok (Number.convert element) fun number member => ?_)
      cases typed number member with
      | signed some_ few inRange =>
        simp only [Function.comp_apply, Number.encode, Number.code, readInteger_encode some_ few inRange]
        rfl
    | unsigned =>
      refine (List.mapM_map ..).trans (Outcome.mapM_of_ok (Number.convert element) fun number member => ?_)
      cases typed number member with
      | unsigned some_ few inRange =>
        simp only [Function.comp_apply, Number.encode, Number.code, readUnsigned_encode some_ few inRange]
        rfl
    | single =>
      refine (List.mapM_map ..).trans (Outcome.mapM_of_ok (Number.convert element) fun number member => ?_)
      cases typed number member with
      | single =>
        simp only [Function.comp_apply, Number.encode, Number.code, readFloat_single]
        cases element with
        | f32 => exact absurd ⟨rfl, size⟩ other
        | _ => rfl
    | double =>
      refine (List.mapM_map ..).trans (Outcome.mapM_of_ok (Number.convert element) fun number member => ?_)
      cases typed number member with
      | double =>
        simp only [Function.comp_apply, Number.encode, Number.code, readFloat_double]
        cases element <;> rfl

end Blocks

end Oxcdf
