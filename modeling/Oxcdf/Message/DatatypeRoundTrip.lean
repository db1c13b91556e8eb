import Oxcdf.Message.Nesting

/-! A datatype written in version 3 and parsed.

A compound stores the offset of each member in the fewest bytes that hold its
own size. The parser takes one byte less for sizes whose leading byte is 1, and
then meets the last byte of the offset where the member's type should be.
-/

set_option autoImplicit false

namespace Oxcdf

open Foundation Foundation.Format

/-- The fewest bytes that hold a number, as the version 2 B-tree counts them. -/
def encSize (value : Nat) : Nat := (Nat.log2 value + 8) / 8

section Encoding

def StringPad.code : StringPad → Nat
  | .nullTerminate => 0
  | .nullPad => 1
  | .spacePad => 2

def CharSet.code : CharSet → Nat
  | .ascii => 0
  | .utf8 => 1

def VlenKind.code : VlenKind → Nat
  | .sequence => 0
  | .string => 1

def ByteOrder.bit : ByteOrder → Nat
  | .little => 0
  | .big => 1

/-- The next multiple of eight. -/
def padded8 (n : Nat) : Nat := (n + 7) / 8 * 8

def encodeTag (tag : String) : Bytes :=
  utf8Bytes tag ++ List.replicate (padded8 (utf8Bytes tag).length - (utf8Bytes tag).length) 0

namespace DatatypeClass

def code : DatatypeClass → Nat
  | .fixedPoint .. => 0
  | .floatingPoint .. => 1
  | .string .. => 3
  | .opaqueBlob _ => 5
  | .compound _ => 6
  | .reference _ => 7
  | .enumeration .. => 8
  | .variableLength .. => 9
  | .array .. => 10
  | .unsupported class_ => class_

def bitfield : DatatypeClass → Nat
  | .fixedPoint order signed _ _ => order.bit + (if signed then 8 else 0)
  -- Bit 5 says that the leading bit of the mantissa is implied.
  | .floatingPoint order _ _ _ _ _ _ _ signLocation => order.bit + 32 + signLocation * 2 ^ 8
  | .string pad charset => pad.code + charset.code * 2 ^ 4
  | .opaqueBlob tag => padded8 (utf8Bytes tag).length
  | .compound members => members.length
  | .reference kind => kind
  | .enumeration _ names _ => names.length
  | .variableLength kind _ pad charset => kind.code + pad.code * 2 ^ 4 + charset.code * 2 ^ 8
  | .array .. => 0
  | .unsupported _ => 0

end DatatypeClass

mutual

def Datatype.encode : Datatype → Bytes
  | ⟨_, size, class_⟩ =>
    littleEndian 1 (3 * 2 ^ 4 + class_.code) ++ (littleEndian 3 class_.bitfield ++
      (littleEndian 4 size ++ class_.properties size))

/-- What follows the size, of a type that wide. -/
def DatatypeClass.properties (size : Nat) : DatatypeClass → Bytes
  | .fixedPoint _ _ bitOffset bitPrecision => littleEndian 2 bitOffset ++ littleEndian 2 bitPrecision
  | .floatingPoint _ bitOffset bitPrecision exponentLocation exponentSize mantissaLocation mantissaSize
      exponentBias _ =>
    littleEndian 2 bitOffset ++ (littleEndian 2 bitPrecision ++ (littleEndian 1 exponentLocation ++
      (littleEndian 1 exponentSize ++ (littleEndian 1 mantissaLocation ++
        (littleEndian 1 mantissaSize ++ littleEndian 4 exponentBias)))))
  | .string .. => []
  | .opaqueBlob tag => encodeTag tag
  | .compound members => CompoundMember.encodeAll (encSize size) members
  | .reference _ => []
  | .enumeration base names values =>
    base.encode ++ (names.flatMap Cursor.encodeCString ++ values.flatMap id)
  | .variableLength _ base _ _ => base.encode
  | .array dims base => littleEndian 1 dims.length ++ (dims.flatMap (littleEndian 4) ++ base.encode)
  | .unsupported _ => []

/-- The members of a compound, with offsets of some width. -/
def CompoundMember.encodeAll (width : Nat) : List CompoundMember → Bytes
  | [] => []
  | ⟨name, offset, datatype⟩ :: members =>
    Cursor.encodeCString name ++ (littleEndian width offset ++
      (datatype.encode ++ CompoundMember.encodeAll width members))

end

end Encoding

section WellFormed

def CleanName (name : String) : Prop := 0 ∉ utf8Bytes name

instance (name : String) : Decidable (CleanName name) := inferInstanceAs (Decidable (¬ _))

mutual

/-- A version 3 datatype whose counts, ranks and offsets fit their fields. -/
def Datatype.WellFormed : Datatype → Prop
  | ⟨version, size, class_⟩ => version = 3 ∧ size < 256 ^ 4 ∧ class_.WellFormed size

def DatatypeClass.WellFormed (size : Nat) : DatatypeClass → Prop
  | .fixedPoint _ _ bitOffset bitPrecision => bitOffset < 256 ^ 2 ∧ bitPrecision < 256 ^ 2
  | .floatingPoint _ bitOffset bitPrecision exponentLocation exponentSize mantissaLocation mantissaSize
      exponentBias signLocation =>
    bitOffset < 256 ^ 2 ∧ bitPrecision < 256 ^ 2 ∧ exponentLocation < 256 ^ 1 ∧ exponentSize < 256 ^ 1 ∧
      mantissaLocation < 256 ^ 1 ∧ mantissaSize < 256 ^ 1 ∧ exponentBias < 256 ^ 4 ∧ signLocation < 256 ^ 1
  | .string .. => True
  | .opaqueBlob tag => CleanName tag ∧ padded8 (utf8Bytes tag).length < 2 ^ 8
  | .compound members => members.length < 2 ^ 16 ∧ CompoundMember.AllWellFormed size members
  | .reference kind => kind < 2 ^ 4
  | .enumeration base names values =>
    base.WellFormed ∧ names.length < 2 ^ 16 ∧ (∀ name ∈ names, CleanName name) ∧
      values.length = names.length ∧ ∀ value ∈ values, value.length = base.size
  | .variableLength _ base _ _ => base.WellFormed
  | .array dims base => dims.length < 256 ^ 1 ∧ (∀ dim ∈ dims, dim < 256 ^ 4) ∧ base.WellFormed
  | .unsupported _ => False

def CompoundMember.AllWellFormed (size : Nat) : List CompoundMember → Prop
  | [] => True
  | ⟨name, offset, datatype⟩ :: members =>
    CleanName name ∧ offset < size ∧ datatype.WellFormed ∧ CompoundMember.AllWellFormed size members

end

/-- A size whose highest byte, of more than one, is 1. -/
def SkewedSize (size : Nat) : Prop :=
  2 ^ 8 ≤ size ∧ size < 2 ^ 9 ∨ 2 ^ 16 ≤ size ∧ size < 2 ^ 17 ∨ 2 ^ 24 ≤ size ∧ size < 2 ^ 25

instance (size : Nat) : Decidable (SkewedSize size) := inferInstanceAs (Decidable (_ ∨ _))

mutual

/-- No compound with a member has a skewed size. -/
def Datatype.Aligned : Datatype → Prop
  | ⟨_, size, class_⟩ => class_.Aligned size

def DatatypeClass.Aligned (size : Nat) : DatatypeClass → Prop
  | .compound members => (members ≠ [] → ¬ SkewedSize size) ∧ CompoundMember.AllAligned members
  | .enumeration base _ _ => base.Aligned
  | .variableLength _ base _ _ => base.Aligned
  | .array _ base => base.Aligned
  | _ => True

def CompoundMember.AllAligned : List CompoundMember → Prop
  | [] => True
  | ⟨_, _, datatype⟩ :: members => datatype.Aligned ∧ CompoundMember.AllAligned members

end

end WellFormed

section Width

theorem skewedSize_iff {size : Nat} (positive : size ≠ 0) :
    SkewedSize size ↔ Nat.log2 size = 8 ∨ Nat.log2 size = 16 ∨ Nat.log2 size = 24 := by
  unfold SkewedSize
  simp only [← Nat.le_log2 positive, ← Nat.log2_lt positive]
  omega

/-- A size needs no more bytes than it is given. -/
theorem lt_encSize (size : Nat) : size < 256 ^ encSize size := by
  have below : size < 2 ^ (Nat.log2 size + 1) := Nat.lt_log2_self
  have wide : Nat.log2 size + 1 ≤ 8 * encSize size := by
    unfold encSize
    omega
  calc size < 2 ^ (Nat.log2 size + 1) := below
    _ ≤ 2 ^ (8 * encSize size) := Nat.pow_le_pow_right (by decide) wide
    _ = 256 ^ encSize size := by rw [Nat.pow_mul]

theorem log2_lt_of_fits {size : Nat} (fits : size < 256 ^ 4) : Nat.log2 size < 32 := by
  by_cases positive : size = 0
  · rw [positive]
    decide
  · exact (Nat.log2_lt positive).mpr fits

theorem encSize_le {size : Nat} (fits : size < 256 ^ 4) : encSize size ≤ 8 := by
  have := log2_lt_of_fits fits
  unfold encSize
  omega

theorem compoundOffsetWidth_eq {size : Nat} (fits : size < 256 ^ 4) (even : ¬ SkewedSize size) :
    compoundOffsetWidth size = encSize size := by
  have small := log2_lt_of_fits fits
  unfold compoundOffsetWidth encSize
  split
  · next zero =>
    rw [zero]
    decide
  · next positive =>
    rw [skewedSize_iff positive] at even
    dsimp only
    omega

theorem encSize_skewed {size : Nat} (skewed : SkewedSize size) :
    encSize size = compoundOffsetWidth size + 1 ∧ size < 2 * 256 ^ compoundOffsetWidth size := by
  have positive : size ≠ 0 := by
    unfold SkewedSize at skewed
    omega
  have below : size < 2 ^ (Nat.log2 size + 1) := Nat.lt_log2_self
  unfold compoundOffsetWidth encSize
  rw [if_neg positive]
  rcases (skewedSize_iff positive).mp skewed with log2 | log2 | log2 <;> rw [log2] at below ⊢ <;>
    exact ⟨rfl, below⟩

end Width

namespace Datatype

section Reading

theorem bits_eq {n : Nat} (fits : n < 2 ^ 24) :
    n % 256 ^ 1 + n / 256 % 256 ^ 1 * 2 ^ 8 + n / 256 / 256 % 256 ^ 1 * 2 ^ 16 = n := by
  omega

theorem reads_headerOf {version class_ bitfield size : Nat} (first : 1 ≤ version) (last : version ≤ 4)
    (known : class_ < 2 ^ 4) (bits : bitfield < 2 ^ 24) (fits : size < 256 ^ 4) :
    Reads parseHeader (littleEndian 1 (version * 2 ^ 4 + class_) ++ (littleEndian 3 bitfield ++ littleEndian 4 size))
      (version, class_, bitfield, size) := by
  have high : (version * 2 ^ 4 + class_) / 2 ^ 4 = version := by omega
  have low : (version * 2 ^ 4 + class_) % 2 ^ 4 = class_ := by omega
  refine (Cursor.reads_u8 (by omega)).bind ?_
  unfold parseFields
  rw [high, low, if_neg (by omega)]
  have three : littleEndian 3 bitfield = littleEndian 1 bitfield ++ (littleEndian 1 (bitfield / 256) ++
      littleEndian 1 (bitfield / 256 / 256)) := rfl
  rw [three, List.append_assoc, List.append_assoc]
  have value : (version, class_, bitfield, size) = (version, class_, bitfield % 256 ^ 1 +
      bitfield / 256 % 256 ^ 1 * 2 ^ 8 + bitfield / 256 / 256 % 256 ^ 1 * 2 ^ 16, size) := by
    rw [bits_eq bits]
  rw [value]
  refine (Cursor.reads_low 1 bitfield).bind ((Cursor.reads_low 1 (bitfield / 256)).bind ?_)
  exact (Cursor.reads_low 1 (bitfield / 256 / 256)).bind ((Cursor.reads_u32 fits).bind_pure _)

/-- The header of a version 3 datatype. -/
theorem reads_header {class_ bitfield size : Nat} (known : class_ < 2 ^ 4) (bits : bitfield < 2 ^ 24)
    (fits : size < 256 ^ 4) :
    Reads parseHeader (littleEndian 1 (3 * 2 ^ 4 + class_) ++ (littleEndian 3 bitfield ++ littleEndian 4 size))
      (3, class_, bitfield, size) :=
  reads_headerOf (by decide) (by decide) known bits fits

/-- A datatype is read when its properties are, by the parser of its class. -/
theorem reads_of_properties {size : Nat} {class_ : DatatypeClass} {properties : Bytes}
    (known : class_.code < 2 ^ 4) (bits : class_.bitfield < 2 ^ 24) (fits : size < 256 ^ 4)
    (inner : Reads (parseClass parseAt 3 class_.code class_.bitfield size) properties class_) :
    Reads parseAt (littleEndian 1 (3 * 2 ^ 4 + class_.code) ++ (littleEndian 3 class_.bitfield ++
      (littleEndian 4 size ++ properties))) ⟨3, size, class_⟩ := by
  rw [parseAt_eq, ← List.append_assoc (littleEndian 3 _), ← List.append_assoc (littleEndian 1 _)]
  exact (reads_header known bits fits).bind (inner.bind_pure fun class_ => (⟨3, size, class_⟩ : Datatype))

theorem fails_of_properties {size : Nat} {class_ : DatatypeClass} {properties : Bytes} {e : Error}
    (known : class_.code < 2 ^ 4) (bits : class_.bitfield < 2 ^ 24) (fits : size < 256 ^ 4)
    (inner : Fails (parseClass parseAt 3 class_.code class_.bitfield size) properties e) :
    Fails parseAt (littleEndian 1 (3 * 2 ^ 4 + class_.code) ++ (littleEndian 3 class_.bitfield ++
      (littleEndian 4 size ++ properties))) e := by
  rw [parseAt_eq, ← List.append_assoc (littleEndian 3 _), ← List.append_assoc (littleEndian 1 _),
    ← List.append_nil properties]
  exact (reads_header known bits fits).bind_fails (inner.bind _ [])

theorem stringPad_code (pad : StringPad) : stringPad pad.code = .ok pad := by
  cases pad <;> rfl

theorem charSet_code (charset : CharSet) : charSet charset.code = .ok charset := by
  cases charset <;> rfl

theorem vlenKind_code (kind : VlenKind) : vlenKind kind.code = .ok kind := by
  cases kind <;> rfl

theorem pad_lt (pad : StringPad) : pad.code < 2 ^ 4 := by
  cases pad <;> decide

theorem charset_lt (charset : CharSet) : charset.code < 2 ^ 4 := by
  cases charset <;> decide

theorem kind_lt (kind : VlenKind) : kind.code < 2 ^ 4 := by
  cases kind <;> decide

theorem bit_le (order : ByteOrder) : order.bit ≤ 1 := by
  cases order <;> decide

theorem le_padded8 (n : Nat) : n ≤ padded8 n := by
  unfold padded8
  omega

theorem code_lt {size : Nat} {class_ : DatatypeClass} (well : class_.WellFormed size) :
    class_.code < 2 ^ 4 := by
  cases class_ with
  | unsupported => exact well.elim
  | _ => simp [DatatypeClass.code]

theorem bitfield_lt {size : Nat} {class_ : DatatypeClass} (well : class_.WellFormed size) :
    class_.bitfield < 2 ^ 24 := by
  cases class_ with
  | fixedPoint order signed =>
    have bit := bit_le order
    simp only [DatatypeClass.bitfield]
    split <;> omega
  | floatingPoint order _ _ _ _ _ _ _ signLocation =>
    have bit := bit_le order
    obtain ⟨-, -, -, -, -, -, -, sign⟩ := well
    simp only [DatatypeClass.bitfield]
    omega
  | string pad charset =>
    have := pad_lt pad
    have := charset_lt charset
    simp only [DatatypeClass.bitfield]
    omega
  | opaqueBlob tag =>
    have short : padded8 (utf8Bytes tag).length < 2 ^ 8 := well.2
    simp only [DatatypeClass.bitfield]
    omega
  | compound members =>
    have few : members.length < 2 ^ 16 := well.1
    simp only [DatatypeClass.bitfield]
    omega
  | reference kind =>
    have few : kind < 2 ^ 4 := well
    simp only [DatatypeClass.bitfield]
    omega
  | enumeration base names values =>
    have few : names.length < 2 ^ 16 := well.2.1
    simp only [DatatypeClass.bitfield]
    omega
  | variableLength kind base pad charset =>
    have := kind_lt kind
    have := pad_lt pad
    have := charset_lt charset
    simp only [DatatypeClass.bitfield]
    omega
  | array => exact Nat.two_pow_pos 24
  | unsupported => exact well.elim

theorem reads_fixedPoint (order : ByteOrder) (signed : Bool) {bitOffset bitPrecision : Nat}
    (offset : bitOffset < 256 ^ 2) (precision : bitPrecision < 256 ^ 2) :
    Reads (parseFixedPoint (order.bit + (if signed then 8 else 0)))
      (littleEndian 2 bitOffset ++ littleEndian 2 bitPrecision)
      (.fixedPoint order signed bitOffset bitPrecision) := by
  cases order <;> cases signed <;>
    exact (Cursor.reads_u16 offset).bind ((Cursor.reads_u16 precision).bind_pure _)

theorem floatOrder_bits (order : ByteOrder) (signLocation : Nat) :
    floatOrder (order.bit + 32 + signLocation * 2 ^ 8) = .ok order := by
  have high : (order.bit + 32 + signLocation * 2 ^ 8).testBit 6 = false := by
    have := bit_le order
    rw [Nat.testBit_eq_decide_div_mod_eq, decide_eq_false_iff_not]
    omega
  have low : (order.bit + 32 + signLocation * 2 ^ 8).testBit 0 = decide (order = .big) := by
    rw [Nat.testBit_eq_decide_div_mod_eq]
    refine decide_eq_decide.mpr ?_
    cases order <;> simp [ByteOrder.bit] <;> omega
  unfold floatOrder
  rw [high, low]
  cases order <;> rfl

theorem reads_floatingPoint (order : ByteOrder) {bitOffset bitPrecision exponentLocation exponentSize
    mantissaLocation mantissaSize exponentBias signLocation : Nat} (offset : bitOffset < 256 ^ 2)
    (precision : bitPrecision < 256 ^ 2) (exponentAt : exponentLocation < 256 ^ 1)
    (exponent : exponentSize < 256 ^ 1) (mantissaAt : mantissaLocation < 256 ^ 1)
    (mantissa : mantissaSize < 256 ^ 1) (bias : exponentBias < 256 ^ 4) (sign : signLocation < 256 ^ 1) :
    Reads (parseFloatingPoint (order.bit + 32 + signLocation * 2 ^ 8))
      (littleEndian 2 bitOffset ++ (littleEndian 2 bitPrecision ++ (littleEndian 1 exponentLocation ++
        (littleEndian 1 exponentSize ++ (littleEndian 1 mantissaLocation ++
          (littleEndian 1 mantissaSize ++ littleEndian 4 exponentBias))))))
      (.floatingPoint order bitOffset bitPrecision exponentLocation exponentSize mantissaLocation
        mantissaSize exponentBias signLocation) := by
  have signed : (order.bit + 32 + signLocation * 2 ^ 8) / 2 ^ 8 % 2 ^ 8 = signLocation := by
    have := bit_le order
    omega
  unfold parseFloatingPoint
  refine Reads.bind_lift (floatOrder_bits order signLocation) ?_
  rw [signed]
  refine (Cursor.reads_u16 offset).bind ((Cursor.reads_u16 precision).bind ?_)
  refine (Cursor.reads_u8 exponentAt).bind ((Cursor.reads_u8 exponent).bind ?_)
  refine (Cursor.reads_u8 mantissaAt).bind ((Cursor.reads_u8 mantissa).bind ?_)
  exact (Cursor.reads_u32 bias).bind_pure _

theorem reads_string (pad : StringPad) (charset : CharSet) :
    Reads (parseString (pad.code + charset.code * 2 ^ 4)) [] (.string pad charset) := by
  have padCode : (pad.code + charset.code * 2 ^ 4) % 2 ^ 4 = pad.code := by
    have := pad_lt pad
    omega
  have charsetCode : (pad.code + charset.code * 2 ^ 4) / 2 ^ 4 % 2 ^ 4 = charset.code := by
    have := pad_lt pad
    have := charset_lt charset
    omega
  unfold parseString
  rw [padCode, charsetCode]
  exact Reads.bind_lift (stringPad_code pad) (Reads.bind_lift (charSet_code charset) (Reads.pure _))

theorem reads_opaqueTag {tag : String} (clean : CleanName tag)
    (short : padded8 (utf8Bytes tag).length < 2 ^ 8) :
    Reads (parseOpaque (padded8 (utf8Bytes tag).length)) (encodeTag tag) (.opaqueBlob tag) := by
  have length : (encodeTag tag).length = padded8 (utf8Bytes tag).length := by
    have := le_padded8 (utf8Bytes tag).length
    rw [encodeTag, List.length_append, List.length_replicate]
    omega
  have zeros : ∀ n, untilNul (List.replicate n 0) = [] := by
    intro n
    cases n <;> rfl
  have text : fromUtf8Lossy (untilNul (encodeTag tag)) = tag := by
    rw [encodeTag, Cursor.untilNul_clean clean, zeros, List.append_nil, fromUtf8Lossy_utf8Bytes]
  have taken := (Cursor.reads_take (encodeTag tag)).bind_pure fun raw =>
    DatatypeClass.opaqueBlob (fromUtf8Lossy (untilNul raw))
  rw [length, text] at taken
  unfold parseOpaque
  rwa [Nat.mod_eq_of_lt short]

theorem parseVlen_bits (kind : VlenKind) (pad : StringPad) (charset : CharSet) :
    parseVlen parseAt (kind.code + pad.code * 2 ^ 4 + charset.code * 2 ^ 8) =
      (do
        let base ← parseAt
        pure (.variableLength kind base pad charset)) := by
  have small := kind_lt kind
  have padded := pad_lt pad
  have kindCode : (kind.code + pad.code * 2 ^ 4 + charset.code * 2 ^ 8) % 2 ^ 4 = kind.code := by
    omega
  have padCode : (kind.code + pad.code * 2 ^ 4 + charset.code * 2 ^ 8) / 2 ^ 4 % 2 ^ 4 = pad.code := by
    omega
  have charsetCode : (kind.code + pad.code * 2 ^ 4 + charset.code * 2 ^ 8) / 2 ^ 8 % 2 ^ 4 = charset.code := by
    have := charset_lt charset
    omega
  unfold parseVlen
  rw [kindCode, padCode, charsetCode, vlenKind_code, stringPad_code, charSet_code]
  rfl

theorem reads_dims {dims : List Nat} (few : dims.length < 256 ^ 1) (fit : ∀ dim ∈ dims, dim < 256 ^ 4) :
    Reads (arrayDims 3) (littleEndian 1 dims.length ++ dims.flatMap (littleEndian 4)) dims := by
  have each : Reads (Format.times Cursor.u32 dims.length) (dims.flatMap (littleEndian 4)) (dims.map id) :=
    Reads.times fun dim member => Cursor.reads_u32 (fit dim member)
  rw [List.map_id] at each
  exact (Cursor.reads_u8 few).bind ((Reads.pure ()).bind (each.bind_done fun _ => rfl))

theorem reads_names {names : List String} (clean : ∀ name ∈ names, CleanName name) :
    Reads (Format.times (parseName 3) names.length) (names.flatMap Cursor.encodeCString) names := by
  have each : Reads (Format.times (parseName 3) names.length) (names.flatMap Cursor.encodeCString)
      (names.map id) := Reads.times fun name member => Cursor.reads_cstring (clean name member)
  rwa [List.map_id] at each

theorem reads_values {values : List Bytes} {width : Nat} (whole : ∀ value ∈ values, value.length = width) :
    Reads (Format.times (Cursor.take width) values.length) (values.flatMap id) values := by
  have each : Reads (Format.times (Cursor.take width) values.length) (values.flatMap id) (values.map id) :=
    Reads.times fun value member => whole value member ▸ Cursor.reads_take value
  rwa [List.map_id] at each

theorem reads_enum {base : Datatype} {names : List String} {values : List Bytes}
    (few : names.length < 2 ^ 16) (clean : ∀ name ∈ names, CleanName name)
    (count : values.length = names.length) (whole : ∀ value ∈ values, value.length = base.size)
    (inner : Reads parseAt base.encode base) :
    Reads (parseEnum parseAt 3 names.length)
      (base.encode ++ (names.flatMap Cursor.encodeCString ++ values.flatMap id))
      (.enumeration base names values) := by
  have listed := reads_values whole
  rw [count] at listed
  unfold parseEnum
  rw [Nat.mod_eq_of_lt few]
  exact inner.bind ((reads_names clean).bind (listed.bind_pure _))

theorem reads_member {name : String} {offset size : Nat} {datatype : Datatype} (fits : size < 256 ^ 4)
    (clean : CleanName name) (within : offset < size) (even : ¬ SkewedSize size)
    (inner : Reads parseAt datatype.encode datatype) :
    Reads (parseMember parseAt 3 size)
      (Cursor.encodeCString name ++ (littleEndian (encSize size) offset ++ datatype.encode))
      ⟨name, offset, datatype⟩ := by
  have width := compoundOffsetWidth_eq fits even
  have narrow : offset < 256 ^ encSize size := within.trans (lt_encSize size)
  unfold parseMember parseMemberV3
  rw [width]
  refine (Cursor.reads_cstring clean).bind ?_
  exact (Cursor.reads_uint (encSize_le fits) narrow).bind (inner.bind_pure _)

theorem encodeAll_cons (width : Nat) (name : String) (offset : Nat) (datatype : Datatype)
    (members : List CompoundMember) :
    CompoundMember.encodeAll width (⟨name, offset, datatype⟩ :: members) =
      (Cursor.encodeCString name ++ (littleEndian width offset ++ datatype.encode)) ++
        CompoundMember.encodeAll width members := by
  rw [CompoundMember.encodeAll]
  simp only [List.append_assoc]

mutual

theorem reads_datatype : (type : Datatype) → type.WellFormed → type.Aligned →
    Reads parseAt type.encode type
  | ⟨version, size, class_⟩, well, aligned => by
    obtain ⟨rfl, fits, inner⟩ := well
    exact reads_of_properties (code_lt inner) (bitfield_lt inner) fits
      (reads_class fits class_ inner aligned)

theorem reads_class {size : Nat} (fits : size < 256 ^ 4) : (class_ : DatatypeClass) →
    class_.WellFormed size → class_.Aligned size →
    Reads (parseClass parseAt 3 class_.code class_.bitfield size) (class_.properties size) class_
  | .fixedPoint order signed _ _, ⟨offset, precision⟩, _ => reads_fixedPoint order signed offset precision
  | .floatingPoint order .., ⟨offset, precision, exponentAt, exponent, mantissaAt, mantissa, bias, sign⟩, _ =>
    reads_floatingPoint order offset precision exponentAt exponent mantissaAt mantissa bias sign
  | .string pad charset, _, _ => reads_string pad charset
  | .opaqueBlob _, ⟨clean, short⟩, _ => reads_opaqueTag clean short
  | .compound members, ⟨few, well⟩, ⟨even, aligned⟩ => by
    have read := reads_members fits members well aligned even
    simp only [DatatypeClass.code, DatatypeClass.bitfield, parseClass, parseCompound,
      Nat.mod_eq_of_lt few, DatatypeClass.properties]
    exact read.bind_pure _
  | .reference kind, well, _ => by
    have few : kind < 2 ^ 4 := well
    simp only [DatatypeClass.code, DatatypeClass.bitfield, parseClass, Nat.mod_eq_of_lt few]
    exact Reads.pure _
  | .enumeration base _ _, ⟨well, few, clean, count, whole⟩, aligned =>
    reads_enum few clean count whole (reads_datatype base well aligned)
  | .variableLength kind base pad charset, well, aligned => by
    have inner := reads_datatype base well aligned
    simp only [DatatypeClass.code, DatatypeClass.bitfield, parseClass, parseVlen_bits,
      DatatypeClass.properties]
    exact inner.bind_pure _
  | .array dims base, ⟨few, fit, well⟩, aligned => by
    have inner := reads_datatype base well aligned
    rw [DatatypeClass.properties, ← List.append_assoc]
    exact (reads_dims few fit).bind (inner.bind_pure _)

theorem reads_members {size : Nat} (fits : size < 256 ^ 4) : (members : List CompoundMember) →
    CompoundMember.AllWellFormed size members → CompoundMember.AllAligned members →
    (members ≠ [] → ¬ SkewedSize size) →
    Reads (Format.times (parseMember parseAt 3 size) members.length)
      (CompoundMember.encodeAll (encSize size) members) members
  | [], _, _, _ => Reads.pure []
  | ⟨name, offset, datatype⟩ :: members, ⟨clean, within, well, rest⟩, ⟨aligned, later⟩, even => by
    have skew := even (List.cons_ne_nil _ _)
    have member := reads_member fits clean within skew (reads_datatype datatype well aligned)
    have others := reads_members fits members rest later fun _ => skew
    rw [encodeAll_cons]
    exact member.bind (others.bind_pure _)

end

end Reading

section Failing

def versionZero : Error := .malformed "datatype message version 0"

theorem fails_versionZero {byte : Nat} (small : byte < 2 ^ 4) (rest : Bytes) :
    Fails parseAt (littleEndian 1 byte ++ rest) versionZero := by
  have zero : byte / 2 ^ 4 = 0 := by omega
  have fields : Fails (parseFields byte) [] versionZero := by
    intro before after
    unfold parseFields
    rw [zero]
    rfl
  have header : Fails parseHeader (littleEndian 1 byte) versionZero := by
    have fails := (Cursor.reads_u8 (by omega)).bind_fails fields
    rwa [List.append_nil] at fails
  rw [parseAt_eq]
  exact header.bind _ rest

/-- With one byte too few taken for the offset, its last byte is taken for a type. -/
theorem fails_member_skewed {name : String} {offset size : Nat} (clean : CleanName name)
    (within : offset < size) (fits : size < 256 ^ 4) (skewed : SkewedSize size) (code : Bytes) :
    Fails (parseMember parseAt 3 size)
      (Cursor.encodeCString name ++ (littleEndian (encSize size) offset ++ code)) versionZero := by
  obtain ⟨width, large⟩ := encSize_skewed skewed
  have narrow := encSize_le fits
  have last : offset / 256 ^ compoundOffsetWidth size < 2 ^ 4 := by
    have := (Nat.div_lt_iff_lt_mul (Nat.pow_pos (by decide))).mpr (within.trans large)
    omega
  have positive : compoundOffsetWidth size ≠ 0 := by
    unfold compoundOffsetWidth
    split
    · exact Nat.one_ne_zero
    · dsimp only
      omega
  have taken : Reads (Cursor.uint (compoundOffsetWidth size))
      (littleEndian (compoundOffsetWidth size) offset) (offset % 256 ^ compoundOffsetWidth size) := by
    unfold Cursor.uint
    rw [if_neg positive, if_neg (by omega)]
    exact Cursor.reads_low _ _
  rw [width, littleEndian_add, List.append_assoc]
  refine (Cursor.reads_cstring clean).bind_fails (taken.bind_fails ?_)
  have fails := (fails_versionZero last code).bind (fun datatype =>
    (pure ⟨name, offset % 256 ^ compoundOffsetWidth size, datatype⟩ : Parse CompoundMember)) []
  rwa [List.append_nil] at fails

theorem fails_nil {α : Type} {step : Parse α} {code : Bytes} {e : Error} {β : Type} (next : α → Parse β)
    (fails : Fails step code e) : Fails (step >>= next) code e := by
  have longer := fails.bind next []
  rwa [List.append_nil] at longer

mutual

/-- The first compound with a skewed size makes the whole type fail. -/
theorem fails_datatype : (type : Datatype) → type.WellFormed → ¬ type.Aligned →
    Fails parseAt type.encode versionZero
  | ⟨version, size, class_⟩, well, skewed => by
    obtain ⟨rfl, fits, inner⟩ := well
    exact fails_of_properties (code_lt inner) (bitfield_lt inner) fits
      (fails_class fits class_ inner skewed)

theorem fails_class {size : Nat} (fits : size < 256 ^ 4) : (class_ : DatatypeClass) →
    class_.WellFormed size → ¬ class_.Aligned size →
    Fails (parseClass parseAt 3 class_.code class_.bitfield size) (class_.properties size) versionZero
  | .fixedPoint .., _, skewed => absurd True.intro skewed
  | .floatingPoint .., _, skewed => absurd True.intro skewed
  | .string .., _, skewed => absurd True.intro skewed
  | .opaqueBlob _, _, skewed => absurd True.intro skewed
  | .compound members, ⟨few, well⟩, skewed => by
    have fails := fails_members fits members well skewed
    simp only [DatatypeClass.code, DatatypeClass.bitfield, parseClass, parseCompound,
      Nat.mod_eq_of_lt few, DatatypeClass.properties]
    exact fails_nil _ fails
  | .reference _, _, skewed => absurd True.intro skewed
  | .enumeration base names values, ⟨well, _⟩, skewed =>
    (fails_datatype base well skewed).bind _ (names.flatMap Cursor.encodeCString ++ values.flatMap id)
  | .variableLength kind base pad charset, well, skewed => by
    have fails := fails_datatype base well skewed
    simp only [DatatypeClass.code, DatatypeClass.bitfield, parseClass, parseVlen_bits,
      DatatypeClass.properties]
    exact fails_nil _ fails
  | .array dims base, ⟨few, fit, well⟩, skewed => by
    have fails := fails_datatype base well skewed
    rw [DatatypeClass.properties, ← List.append_assoc]
    exact (reads_dims few fit).bind_fails (fails_nil _ fails)
  | .unsupported _, well, _ => well.elim

theorem fails_members {size : Nat} (fits : size < 256 ^ 4) : (members : List CompoundMember) →
    CompoundMember.AllWellFormed size members →
    ¬ ((members ≠ [] → ¬ SkewedSize size) ∧ CompoundMember.AllAligned members) →
    Fails (Format.times (parseMember parseAt 3 size) members.length)
      (CompoundMember.encodeAll (encSize size) members) versionZero
  | [], _, skewed => absurd ⟨fun empty => absurd rfl empty, True.intro⟩ skewed
  | ⟨name, offset, datatype⟩ :: members, ⟨clean, within, well, rest⟩, skewed => by
    rw [encodeAll_cons]
    by_cases odd : SkewedSize size
    · exact (fails_member_skewed clean within fits odd _).bind _ _
    · by_cases aligned : datatype.Aligned
      -- The member is read, so a later one fails.
      · have member := reads_member fits clean within odd (reads_datatype datatype well aligned)
        have later := fails_members fits members rest fun ⟨_, all⟩ =>
          skewed ⟨fun _ => odd, aligned, all⟩
        exact member.bind_fails (fails_nil _ later)
      · have inner := fails_datatype datatype well aligned
        have narrow : offset < 256 ^ encSize size := within.trans (lt_encSize size)
        refine Fails.bind ?_ _ _
        unfold parseMember parseMemberV3
        rw [compoundOffsetWidth_eq fits odd]
        refine (Cursor.reads_cstring clean).bind_fails ?_
        exact (Cursor.reads_uint (encSize_le fits) narrow).bind_fails (fails_nil _ inner)

end

end Failing

section RoundTrip

/-- A version 3 datatype is read back, and the cursor left at its end, exactly
when no compound in it with a member has a size whose highest byte, of more
than one, is 1. -/
theorem datatype_encode_iff {type : Datatype} (well : type.WellFormed) :
    (∀ before after : Bytes,
      parseAt ⟨before ++ type.encode ++ after, before.length⟩ =
        (.ok type, ⟨before ++ type.encode ++ after, before.length + type.encode.length⟩)) ↔
      type.Aligned := by
  constructor
  · intro reads
    by_contra skewed
    have failed := fails_datatype type well skewed [] []
    rw [reads [] []] at failed
    cases failed
  · exact reads_datatype type well

def byteType : Datatype := ⟨3, 1, .fixedPoint .little false 0 8⟩

/-- A compound of some size whose one member is an array of two bytes. -/
def oneMember (size : Nat) : Datatype := ⟨3, size, .compound [⟨"m", 4, ⟨3, 2, .array [2] byteType⟩⟩]⟩

theorem oneMember_wellFormed {size : Nat} (room : 4 < size) (fits : size < 256 ^ 4) :
    (oneMember size).WellFormed := by
  have inner : (⟨3, 2, .array [2] byteType⟩ : Datatype).WellFormed :=
    ⟨rfl, by decide, by decide, by decide, rfl, by decide, by decide, by decide⟩
  exact ⟨rfl, fits, by simp, by decide +kernel, room, inner, True.intro⟩

theorem datatype_encode_oneMember : parse (oneMember 12).encode = .ok (oneMember 12) := by
  have well : (oneMember 12).WellFormed := oneMember_wellFormed (by decide) (by decide)
  have reads := (datatype_encode_iff well).mpr ⟨fun _ => by decide, True.intro, True.intro⟩ [] []
  rw [List.append_nil] at reads
  exact congrArg Prod.fst reads

/-- A size of 256 takes two bytes for the offset of a member; one is read. -/
theorem datatype_encode_skewed :
    (oneMember 256).WellFormed ∧
    (parse (oneMember 256).encode) = .error (.malformed "datatype message version 0") := by
  have well : (oneMember 256).WellFormed := oneMember_wellFormed (by decide) (by decide)
  have skewed : ¬ (oneMember 256).Aligned := fun ⟨even, _⟩ => even (by simp) (by decide)
  have failed := fails_datatype (oneMember 256) well skewed [] []
  rw [List.append_nil] at failed
  exact ⟨well, failed⟩

end RoundTrip

end Datatype

end Oxcdf
