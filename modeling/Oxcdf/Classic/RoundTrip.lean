import Mathlib.Algebra.Order.BigOperators.Group.List
import Oxcdf.Classic.Header

/-! What a classic header says survives being written and parsed.

A stored header is what a writer puts down; `encode` is its standard big-endian
form. Each part of the parser reads the code of the part it is for, so the whole
parser reads the whole header, as long as one record's bytes fit a word.
-/

set_option autoImplicit false

namespace Oxcdf.Classic

open Foundation Foundation.Format

structure StoredDimension where
  name : String
  /-- Zero marks the record dimension. -/
  len : Nat

structure StoredAttribute where
  name : String
  ncType : NcType
  count : Nat
  raw : Bytes
  whole : raw.length = count * ncType.size

structure StoredVariable where
  name : String
  dimIds : List Nat
  attributes : List StoredAttribute
  ncType : NcType
  vsize : Nat
  begin : Nat

structure StoredHeader where
  recordCount : Nat
  dimensions : List StoredDimension
  attributes : List StoredAttribute
  vars : List StoredVariable

/-- The next multiple of four. -/
def padded (n : Nat) : Nat := (n + 3) / 4 * 4

def NcType.code : NcType → Nat
  | .byte => 1
  | .char => 2
  | .short => 3
  | .int => 4
  | .float => 5
  | .double => 6
  | .uByte => 7
  | .uShort => 8
  | .uInt => 9
  | .int64 => 10
  | .uInt64 => 11

section Encoding

def encodeWord (n : Nat) : Bytes := bigEndian 4 n

def encodePad (n : Nat) : Bytes := List.replicate (padded n - n) 0

def encodeName (name : String) : Bytes :=
  encodeWord (utf8Bytes name).length ++ (utf8Bytes name ++ encodePad (utf8Bytes name).length)

/-- A list with its tag and length; an absent list is two zero words. -/
def encodeList {α : Type} (tag : Nat) (encode : α → Bytes) (items : List α) : Bytes :=
  if items.isEmpty then encodeWord 0 ++ encodeWord 0
  else encodeWord tag ++ (encodeWord items.length ++ items.flatMap encode)

def StoredDimension.encode (dimension : StoredDimension) : Bytes :=
  encodeName dimension.name ++ encodeWord dimension.len

def StoredAttribute.encode (entry : StoredAttribute) : Bytes :=
  encodeName entry.name ++ (encodeWord entry.ncType.code ++ (encodeWord entry.count ++
    (entry.raw ++ encodePad entry.raw.length)))

def encodeAttributes (attributes : List StoredAttribute) : Bytes :=
  encodeList ncAttribute StoredAttribute.encode attributes

/-- Four bytes for the first format, eight for the second. -/
def offsetWidth (container : Container) : Nat := if container = .cdf1 then 4 else 8

def StoredVariable.encode (container : Container) (v : StoredVariable) : Bytes :=
  encodeName v.name ++ (encodeWord v.dimIds.length ++
    (v.dimIds.flatMap encodeWord ++ (encodeAttributes v.attributes ++
      (encodeWord v.ncType.code ++ (encodeWord v.vsize ++
        bigEndian (offsetWidth container) v.begin)))))

def magic (container : Container) : Bytes := [0x43, 0x44, 0x46, if container = .cdf1 then 1 else 2]

def StoredHeader.encode (container : Container) (header : StoredHeader) : Bytes :=
  magic container ++ (encodeWord header.recordCount ++
    (encodeList ncDimension StoredDimension.encode header.dimensions ++
      (encodeAttributes header.attributes ++
        encodeList ncVariable (StoredVariable.encode container) header.vars)))

end Encoding

section Meaning

def StoredDimension.meant (recordCount : Nat) (dimension : StoredDimension) : ClassicDimension :=
  { name := dimension.name, len := if dimension.len = 0 then recordCount else dimension.len,
    isUnlimited := dimension.len == 0 }

def StoredAttribute.meant (entry : StoredAttribute) : ClassicAttribute :=
  attributeOf entry.name entry.ncType entry.raw

/-- The dimensions a variable names, resolved. -/
def StoredVariable.axes (dimensions : List ClassicDimension) (v : StoredVariable) :
    List ClassicDimension :=
  v.dimIds.filterMap fun id => dimensions[id]?

/-- A variable is a record variable when its first dimension is the record dimension. -/
def StoredVariable.isRecord (dimensions : List ClassicDimension) (v : StoredVariable) : Bool :=
  (v.axes dimensions).head?.any ClassicDimension.isUnlimited

/-- The bytes of one record, as an exact number. -/
def StoredVariable.recordBytes (dimensions : List ClassicDimension) (v : StoredVariable) : Nat :=
  (((v.axes dimensions).map ClassicDimension.len).drop 1).prod * v.ncType.size

def StoredVariable.meant (dimensions : List ClassicDimension) (v : StoredVariable) :
    ClassicVariable :=
  { name := v.name
    dimensions := (v.axes dimensions).map ClassicDimension.name
    shape := (v.axes dimensions).map ClassicDimension.len
    ncType := v.ncType
    datatype := v.ncType.toDatatype
    attributes := v.attributes.map StoredAttribute.meant
    begin := v.begin
    recordSize :=
      if v.isRecord dimensions then padded (v.recordBytes dimensions) else 0
    isRecord := v.isRecord dimensions }

namespace StoredHeader

variable (header : StoredHeader)

def resolved : List ClassicDimension := header.dimensions.map (StoredDimension.meant header.recordCount)

def recordVars : List StoredVariable :=
  header.vars.filter (StoredVariable.isRecord header.resolved)

/-- The bytes of one record over every record variable, each padded. -/
def recordBytes : Nat :=
  (header.recordVars.map fun v => padded (v.recordBytes header.resolved)).sum

/-- One record variable alone is not padded. -/
def stride : Nat :=
  match header.recordVars with
  | [v] => v.recordBytes header.resolved
  | _ => header.recordBytes

def meant : Header :=
  { dimensions := header.resolved
    attributes := header.attributes.map StoredAttribute.meant
    vars := header.vars.map (StoredVariable.meant header.resolved)
    recordCount := header.recordCount
    recordStride := header.stride }

end StoredHeader

end Meaning

section Bounds

/-- A number fits one four-byte word. -/
abbrev FitsWord (n : Nat) : Prop := n < 256 ^ 4

def StoredDimension.Fits (dimension : StoredDimension) : Prop :=
  FitsWord (utf8Bytes dimension.name).length ∧ FitsWord dimension.len

def StoredAttribute.Fits (entry : StoredAttribute) : Prop :=
  FitsWord (utf8Bytes entry.name).length ∧ FitsWord entry.count

structure StoredVariable.Fits (container : Container) (rank : Nat) (v : StoredVariable) : Prop where
  name : FitsWord (utf8Bytes v.name).length
  dimIds : FitsWord v.dimIds.length
  named : ∀ id ∈ v.dimIds, id < rank
  attributes : FitsWord v.attributes.length
  each : ∀ entry ∈ v.attributes, entry.Fits
  vsize : FitsWord v.vsize
  begin : v.begin < 256 ^ offsetWidth container

/-- Every count, length and position fits the width the format gives it. -/
structure StoredHeader.Fits (container : Container) (header : StoredHeader) : Prop where
  recordCount : FitsWord header.recordCount
  dimensions : FitsWord header.dimensions.length
  eachDimension : ∀ dimension ∈ header.dimensions, dimension.Fits
  attributes : FitsWord header.attributes.length
  eachAttribute : ∀ entry ∈ header.attributes, entry.Fits
  vars : FitsWord header.vars.length
  eachVariable : ∀ v ∈ header.vars, v.Fits container header.dimensions.length

instance (d : StoredDimension) : Decidable d.Fits := inferInstanceAs (Decidable (_ ∧ _))

instance (entry : StoredAttribute) : Decidable entry.Fits := inferInstanceAs (Decidable (_ ∧ _))

instance (container : Container) (rank : Nat) (v : StoredVariable) : Decidable (v.Fits container rank) :=
  decidable_of_iff
    (FitsWord (utf8Bytes v.name).length ∧ FitsWord v.dimIds.length ∧ (∀ id ∈ v.dimIds, id < rank) ∧
      FitsWord v.attributes.length ∧ (∀ entry ∈ v.attributes, entry.Fits) ∧ FitsWord v.vsize ∧
      v.begin < 256 ^ offsetWidth container)
    ⟨fun ⟨a, b, c, d, e, f, g⟩ => ⟨a, b, c, d, e, f, g⟩, fun ⟨a, b, c, d, e, f, g⟩ => ⟨a, b, c, d, e, f, g⟩⟩

instance (container : Container) (header : StoredHeader) : Decidable (header.Fits container) :=
  decidable_of_iff
    (FitsWord header.recordCount ∧ FitsWord header.dimensions.length ∧
      (∀ d ∈ header.dimensions, d.Fits) ∧ FitsWord header.attributes.length ∧
      (∀ entry ∈ header.attributes, entry.Fits) ∧ FitsWord header.vars.length ∧
      (∀ v ∈ header.vars, v.Fits container header.dimensions.length))
    ⟨fun ⟨a, b, c, d, e, f, g⟩ => ⟨a, b, c, d, e, f, g⟩, fun ⟨a, b, c, d, e, f, g⟩ => ⟨a, b, c, d, e, f, g⟩⟩

end Bounds

section Reading

variable {build : Build} {container : Container}

theorem reads_beU32 {n : Nat} (fits : FitsWord n) : Reads beU32 (encodeWord n) n := by
  have taken := Reads.take Cursor.oob (encodeWord n)
  rw [encodeWord, bigEndian_length] at taken
  have decoded := taken.bind_pure ofBigEndian
  rwa [ofBigEndian_bigEndian 4 fits] at decoded

theorem reads_beU64 {n : Nat} (fits : n < 256 ^ 8) : Reads beU64 (bigEndian 8 n) n := by
  have taken := Reads.take Cursor.oob (bigEndian 8 n)
  rw [bigEndian_length] at taken
  have decoded := taken.bind_pure ofBigEndian
  rwa [ofBigEndian_bigEndian 8 fits] at decoded

theorem reads_size (classic : container ≠ .cdf5) {n : Nat} (fits : FitsWord n) :
    Reads (readSize container) (encodeWord n) n := by
  rw [readSize, if_neg classic]
  exact reads_beU32 fits

theorem reads_offset {n : Nat} (fits : n < 256 ^ offsetWidth container) :
    Reads (readOffset container) (bigEndian (offsetWidth container) n) n := by
  unfold readOffset offsetWidth at *
  split
  · next first => exact reads_beU32 (by simpa [first] using fits)
  · next second => exact reads_beU64 (by simpa [second] using fits)

theorem le_padded (n : Nat) : n ≤ padded n := by
  unfold padded
  omega

theorem padded_lt (n : Nat) : padded n < n + 4 := by
  unfold padded
  omega

theorem pad4_eq_word (build : Build) (n : Nat) : pad4 build n = build.word (padded n) := rfl

theorem reads_skipPad {n : Nat} (fits : padded n < wordSize) :
    Reads (skipPad build n) (encodePad n) () := by
  have skipped := Cursor.reads_skip (encodePad n)
  rw [encodePad, List.length_replicate] at skipped
  exact Reads.bind_lift (pad4_eq_word build n ▸ Build.word_of_lt build fits)
    (Reads.bind_lift (build.sub_of_le (le_padded n)) skipped)

theorem reads_name (classic : container ≠ .cdf5) {name : String}
    (fits : FitsWord (utf8Bytes name).length) :
    Reads (readName build container) (encodeName name) name := by
  have small : padded (utf8Bytes name).length < wordSize := by
    have := padded_lt (utf8Bytes name).length
    unfold FitsWord at fits
    unfold wordSize
    omega
  have decoded : Reads (readName build container) (encodeName name) (fromUtf8Lossy (utf8Bytes name)) :=
    (reads_size classic fits).bind ((Cursor.reads_take _).bind ((reads_skipPad small).bind_pure fun _ =>
      fromUtf8Lossy (utf8Bytes name)))
  rwa [fromUtf8Lossy_utf8Bytes] at decoded

theorem fromCode_code (type : NcType) : NcType.fromCode type.code = .ok type := by
  cases type <;> rfl

theorem code_fits (type : NcType) : FitsWord type.code := by
  cases type <;> decide

theorem size_le (type : NcType) : type.size ≤ 8 := by
  cases type <;> decide

theorem reads_attribute (classic : container ≠ .cdf5) {entry : StoredAttribute}
    (fits : entry.Fits) :
    Reads (readAttribute build container) entry.encode entry.meant := by
  have length : entry.count * entry.ncType.size = entry.raw.length := entry.whole.symm
  have small : entry.raw.length < 256 ^ 4 * 8 := by
    rw [← length]
    exact lt_of_le_of_lt (Nat.mul_le_mul_left _ (size_le _))
      (Nat.mul_lt_mul_of_pos_right fits.2 (by decide))
  have word : entry.raw.length < wordSize := by
    unfold wordSize
    omega
  have pad : padded entry.raw.length < wordSize := by
    have := padded_lt entry.raw.length
    unfold wordSize
    omega
  refine (reads_name classic fits.1).bind ((reads_beU32 (code_fits _)).bind ?_)
  refine Reads.bind_lift (fromCode_code _) ((reads_size classic fits.2).bind ?_)
  refine Reads.bind_lift (show _ = Outcome.ok entry.raw.length from ?_) ?_
  · rw [checkedMul, length, if_pos word]
    rfl
  · exact (Cursor.reads_take _).bind ((reads_skipPad pad).bind_pure fun _ => entry.meant)

theorem reads_attributes (classic : container ≠ .cdf5) {attributes : List StoredAttribute}
    (count : FitsWord attributes.length) (fits : ∀ entry ∈ attributes, entry.Fits) :
    Reads (readAttributes build container) (encodeAttributes attributes)
      (attributes.map StoredAttribute.meant) := by
  unfold encodeAttributes encodeList
  cases attributes with
  | nil =>
    have absent := ((reads_size classic (show FitsWord 0 by decide)).bind_pure fun _ =>
      ([] : List ClassicAttribute))
    exact (reads_beU32 (by decide)).bind absent
  | cons entry attributes =>
    refine (reads_beU32 (by decide)).bind ((reads_size classic count).bind ?_)
    rw [if_neg (not_not_intro rfl)]
    exact Reads.times fun entry member => reads_attribute classic (fits entry member)

theorem reads_dimensions (classic : container ≠ .cdf5) {header : StoredHeader}
    (fits : header.Fits container) :
    Reads (readDimensions build container)
      (encodeList ncDimension StoredDimension.encode header.dimensions)
      (header.dimensions.map fun d => { name := d.name, len := d.len, isUnlimited := d.len == 0 }) := by
  have each : ∀ d ∈ header.dimensions, Reads (readDimension build container) d.encode
      ({ name := d.name, len := d.len, isUnlimited := d.len == 0 } : ClassicDimension) := by
    intro d member
    obtain ⟨name, len⟩ := fits.eachDimension d member
    exact (reads_name classic name).bind ((reads_size classic len).bind_pure _)
  have count := fits.dimensions
  revert each count
  cases header.dimensions with
  | nil =>
    intro _ _
    exact (reads_beU32 (by decide)).bind ((reads_size classic (show FitsWord 0 by decide)).bind_pure _)
  | cons d ds =>
    intro each count
    refine (reads_beU32 (by decide)).bind ((reads_size classic count).bind ?_)
    rw [if_pos rfl]
    exact Reads.times each

theorem getElem?_some {dimensions : List ClassicDimension} {id : Nat} (inside : id < dimensions.length) :
    ∃ d, dimensions[id]? = some d := ⟨dimensions[id], List.getElem?_eq_getElem inside⟩

theorem lookupDimensions_eq (name : String) {dimensions : List ClassicDimension} :
    ∀ {ids : List Nat}, (∀ id ∈ ids, id < dimensions.length) →
      lookupDimensions name dimensions ids = .ok (ids.filterMap fun id => dimensions[id]?)
  | [], _ => rfl
  | id :: ids, named => by
    obtain ⟨d, here⟩ := getElem?_some (named id (by simp))
    rw [lookupDimensions, lookupDimensions_eq name fun later member => named later (by simp [member]),
      List.filterMap_cons, here]
    rfl

theorem isRecord_eq {dimensions : List ClassicDimension} {v : StoredVariable}
    (named : ∀ id ∈ v.dimIds, id < dimensions.length) :
    (v.dimIds.head?.bind fun id => dimensions[id]?).any ClassicDimension.isUnlimited =
      v.isRecord dimensions := by
  unfold StoredVariable.isRecord StoredVariable.axes
  cases ids : v.dimIds with
  | nil => rfl
  | cons id rest =>
    obtain ⟨d, here⟩ := getElem?_some (named id (by simp [ids]))
    rw [List.filterMap_cons, here]
    simp [here]

theorem size_pos (type : NcType) : 0 < type.size := by
  cases type <;> decide

/-- The clamped size of one record is the exact one when that is a word. -/
theorem saturated_recordBytes {dimensions : List ClassicDimension} {v : StoredVariable}
    (small : v.recordBytes dimensions < wordSize) :
    saturatingMul (elementCount (((v.axes dimensions).map ClassicDimension.len).drop 1)) v.ncType.size =
      v.recordBytes dimensions := by
  have bound := lt_of_le_of_lt (Nat.le_mul_of_pos_right _ (size_pos v.ncType)) small
  rw [elementCount_of_lt bound, saturatingMul]
  exact Nat.min_eq_left (Nat.le_pred_of_lt small)

theorem recordSize_eq {dimensions : List ClassicDimension} {v : StoredVariable}
    (record : v.isRecord dimensions = true → padded (v.recordBytes dimensions) < wordSize) :
    (if v.isRecord dimensions then pad4 build (saturatingMul
        (elementCount (((v.axes dimensions).map ClassicDimension.len).drop 1)) v.ncType.size)
      else .ok 0) =
      .ok (if v.isRecord dimensions then padded (v.recordBytes dimensions) else 0) := by
  split
  · next is =>
    have small := record is
    rw [saturated_recordBytes (lt_of_le_of_lt (le_padded _) small), pad4_eq_word,
      Build.word_of_lt build small]
  · rfl

theorem reads_variable (classic : container ≠ .cdf5) {dimensions : List ClassicDimension}
    (words : FitsWord dimensions.length) {v : StoredVariable} (fits : v.Fits container dimensions.length)
    (record : v.isRecord dimensions = true → padded (v.recordBytes dimensions) < wordSize) :
    Reads (readVariable build container dimensions) (v.encode container) (v.meant dimensions) := by
  have ids : Reads (Format.times (readSize container) v.dimIds.length) (v.dimIds.flatMap encodeWord)
      (v.dimIds.map fun id => id) := Reads.times fun id member =>
    reads_size classic ((fits.named id member).trans words)
  rw [List.map_id'] at ids
  refine (reads_name classic fits.name).bind ((reads_size classic fits.dimIds).bind ?_)
  refine ids.bind ((reads_attributes classic fits.attributes fits.each).bind ?_)
  refine (reads_beU32 (code_fits _)).bind (Reads.bind_lift (fromCode_code _) ?_)
  refine (reads_size classic fits.vsize).bind ?_
  -- The dimensions are looked up last, after everything is read.
  refine (reads_offset fits.begin).bind_done fun input => ?_
  rw [lookupDimensions_eq v.name fits.named, isRecord_eq fits.named]
  have size := @recordSize_eq build dimensions v record
  unfold StoredVariable.axes at size
  rw [Session.bind_lift_ok, size]
  rfl

theorem reads_variables (classic : container ≠ .cdf5) {header : StoredHeader}
    (fits : header.Fits container)
    (records : ∀ v ∈ header.recordVars, padded (v.recordBytes header.resolved) < wordSize) :
    Reads (readVariables build container header.resolved)
      (encodeList ncVariable (StoredVariable.encode container) header.vars)
      (header.vars.map (StoredVariable.meant header.resolved)) := by
  have rank : header.resolved.length = header.dimensions.length := List.length_map _
  have each : ∀ v ∈ header.vars, Reads (readVariable build container header.resolved)
      (v.encode container) (v.meant header.resolved) := by
    intro v member
    refine reads_variable classic (by rw [rank]; exact fits.dimensions) ?_ fun is => ?_
    · rw [rank]
      exact fits.eachVariable v member
    · exact records v (List.mem_filter.mpr ⟨member, is⟩)
  have count := fits.vars
  revert each count
  cases header.vars with
  | nil =>
    intro _ _
    exact (reads_beU32 (by decide)).bind ((reads_size classic (show FitsWord 0 by decide)).bind_pure _)
  | cons v vs =>
    intro each count
    refine (reads_beU32 (by decide)).bind ((reads_size classic count).bind ?_)
    rw [if_pos rfl]
    exact Reads.times each

end Reading

section Stride

variable {build : Build} {container : Container}

theorem sumWords_eq (build : Build) : ∀ (sizes : List Nat) {total : Nat}, total < wordSize →
    sumWords build total sizes = build.word (total + sizes.sum)
  | [], total, small => by
    rw [sumWords, List.sum_nil, Nat.add_zero, Build.word_of_lt build small]
  | n :: rest, total, _ => by
    rw [sumWords, List.sum_cons, ← Nat.add_assoc]
    by_cases word : total + n < wordSize
    · rw [Build.add, Build.word_of_lt build word, Outcome.ok_bind, sumWords_eq build rest word]
    · cases build with
      | debug =>
        rw [Build.add, Build.word_debug_of_le (Nat.not_lt.mp word), Build.word_debug_of_le (by omega)]
        rfl
      | release =>
        have wrapped : (total + n) % wordSize < wordSize := Nat.mod_lt _ wordSize_pos
        rw [Build.add, Build.word_release, Outcome.ok_bind, sumWords_eq .release rest wrapped,
          Build.word_release, Build.word_release, Nat.mod_add_mod]

theorem filter_meant (header : StoredHeader) :
    (header.vars.map (StoredVariable.meant header.resolved)).filter ClassicVariable.isRecord =
      header.recordVars.map (StoredVariable.meant header.resolved) :=
  List.filter_map

theorem map_recordSize (header : StoredHeader) :
    (header.recordVars.map (StoredVariable.meant header.resolved)).map ClassicVariable.recordSize =
      header.recordVars.map fun v => padded (v.recordBytes header.resolved) := by
  rw [List.map_map]
  refine List.map_congr_left fun v member => ?_
  have is : v.isRecord header.resolved = true := (List.mem_filter.mp member).2
  exact if_pos is

theorem recordStride_eq {header : StoredHeader} (small : header.recordBytes < wordSize) :
    recordStride build (header.vars.map (StoredVariable.meant header.resolved)) = .ok header.stride := by
  have sizes := map_recordSize header
  unfold recordStride StoredHeader.stride
  unfold StoredHeader.recordBytes at small ⊢
  rw [filter_meant]
  rcases found : header.recordVars with _ | ⟨v, _ | ⟨w, rest⟩⟩
  · rfl
  · rw [found] at small
    simp only [List.map_cons, List.map_nil, List.sum_cons, List.sum_nil, Nat.add_zero] at small ⊢
    exact congrArg _ (saturated_recordBytes (lt_of_le_of_lt (le_padded _) small))
  · rw [found] at small sizes
    simp only [List.map_cons] at sizes small ⊢
    rw [sizes, sumWords_eq build _ wordSize_pos, Nat.zero_add, Build.word_of_lt build small]

theorem padded_le_recordBytes {header : StoredHeader} {v : StoredVariable} (member : v ∈ header.recordVars) :
    padded (v.recordBytes header.resolved) ≤ header.recordBytes :=
  List.le_sum_of_mem (List.mem_map_of_mem member)

/-- A header whose record fits a word is read back from its code. -/
theorem reads_header (classic : container ≠ .cdf5) {header : StoredHeader} (fits : header.Fits container)
    (small : header.recordBytes < wordSize) :
    Reads (Header.read build container) (header.encode container) header.meant := by
  have records : ∀ v ∈ header.recordVars, padded (v.recordBytes header.resolved) < wordSize :=
    fun v member => lt_of_le_of_lt (padded_le_recordBytes member) small
  have resolved : (header.dimensions.map fun d =>
      ({ name := d.name, len := d.len, isUnlimited := d.len == 0 } : ClassicDimension)).map
        (resolveLength header.recordCount) = header.resolved := by
    rw [StoredHeader.resolved, List.map_map]
    refine List.map_congr_left fun d _ => ?_
    by_cases zero : d.len = 0 <;> simp [resolveLength, StoredDimension.meant, zero]
  refine (Cursor.reads_skip (magic container)).bind ((reads_beU32 fits.recordCount).bind ?_)
  refine (reads_dimensions classic fits).bind ?_
  rw [resolved]
  refine (reads_attributes classic fits.attributes fits.eachAttribute).bind ?_
  refine (reads_variables classic fits records).bind_done fun input => ?_
  rw [recordStride_eq small]
  rfl

end Stride

section Words

variable (build : Build) (container : Container)

theorem yields_recordSize (dimensions : List ClassicDimension) :
    (readVariable build container dimensions).Yields fun v => v.recordSize < wordSize := by
  unfold readVariable
  iterate 9 refine Session.Yields.last fun _ => ?_
  refine (show Session.Yields (fun size => size < wordSize) _ from
    Session.Yields.lift fun size found => ?_).bind fun size small => Session.Yields.pure small
  split at found
  · exact Build.lt_of_word_eq_ok found
  · exact Outcome.ok.inj found ▸ wordSize_pos

theorem sumWords_lt : ∀ (sizes : List Nat) {total sum : Nat}, total < wordSize →
    sumWords build total sizes = .ok sum → sum < wordSize := by
  intro sizes total sum small found
  rw [sumWords_eq build sizes small] at found
  exact Build.lt_of_word_eq_ok found

theorem recordStride_lt {vars : List ClassicVariable} {stride : Nat}
    (found : recordStride build vars = .ok stride) : stride < wordSize := by
  unfold recordStride at found
  split at found
  · exact Outcome.ok.inj found ▸ saturatingMul_lt _ _
  · exact sumWords_lt build _ wordSize_pos found

/-- A parsed header's sizes are words. -/
theorem yields_words : (Header.read build container).Yields fun header =>
    header.recordStride < wordSize ∧ ∀ v ∈ header.vars, v.recordSize < wordSize := by
  unfold Header.read
  iterate 4 refine Session.Yields.last fun _ => ?_
  refine (show Session.Yields (fun vars => ∀ v ∈ vars, v.recordSize < wordSize) _ from ?_).bind
    fun vars words => ?_
  · unfold readVariables
    iterate 2 refine Session.Yields.last fun _ => ?_
    split
    · exact Format.yields_times (yields_recordSize build container _) _
    · split
      · exact Session.Yields.throw _
      · exact Session.Yields.pure (by simp)
  · refine (Session.Yields.lift fun stride found => recordStride_lt build found).bind fun stride small =>
      Session.Yields.pure ⟨small, words⟩

end Words

section RoundTrip

variable {container : Container}

/-- The parser returns the header that was stored exactly when one record over
all record variables fits a word. -/
theorem parse_encode_iff (build : Build) (form : container = .cdf1 ∨ container = .cdf2)
    {header : StoredHeader} (fits : header.Fits container) :
    Header.parse build (header.encode container) container = .ok header.meant ↔
      header.recordBytes < wordSize := by
  have classic : container ≠ .cdf5 := by rcases form with rfl | rfl <;> decide
  refine ⟨fun parsed => ?_, fun small => ?_⟩
  · rcases read : Header.read build container (Cursor.start (header.encode container)) with ⟨outcome, after⟩
    have returned : outcome = .ok header.meant := (congrArg Prod.fst read).symm.trans parsed
    obtain ⟨stride, sizes⟩ := yields_words build container _ header.meant after (returned ▸ read)
    -- One record variable bounds its padded size, any other number of them the stride.
    change header.stride < wordSize at stride
    unfold StoredHeader.stride at stride
    split at stride
    · next v alone =>
      have member : v ∈ header.recordVars := by rw [alone]; simp
      obtain ⟨stored, is⟩ := List.mem_filter.mp member
      have size := sizes (v.meant header.resolved) (List.mem_map_of_mem stored)
      change (if v.isRecord header.resolved then padded (v.recordBytes header.resolved) else 0) < _ at size
      rw [if_pos is] at size
      simpa [StoredHeader.recordBytes, alone] using size
    · exact stride
  · have read := @reads_header build container classic header fits small [] []
    rw [List.nil_append, List.append_nil] at read
    exact congrArg Prod.fst read

/-- A record dimension, two others, and two variables over them. -/
def twoRecordVariables (rows columns : Nat) (type : NcType) : StoredHeader where
  recordCount := 1
  dimensions := [⟨"t", 0⟩, ⟨"y", rows⟩, ⟨"x", columns⟩]
  attributes := [⟨"title", .char, 3, [0x61, 0x62, 0x63], rfl⟩]
  vars :=
    [{ name := "u", dimIds := [0, 1, 2], attributes := [], ncType := type, vsize := 0, begin := 240 },
     { name := "v", dimIds := [0, 1, 2], attributes := [], ncType := type, vsize := 0, begin := 248 }]

/-- Two small record variables of one row each. -/
theorem parse_encode_small :
    Header.parse .debug ((twoRecordVariables 1 3 .short).encode .cdf1) .cdf1 =
      .ok (twoRecordVariables 1 3 .short).meant :=
  (parse_encode_iff .debug (.inl rfl) (by decide +kernel)).mpr (by decide +kernel)

/-- Two record variables of `2 ^ 63` bytes a record each: the sum of their sizes
panics in a checked build and is zero in an unchecked one. -/
theorem parse_encode_overflow :
    (twoRecordVariables (2 ^ 31) (2 ^ 31) .short).Fits .cdf1 ∧
    (∀ v ∈ (twoRecordVariables (2 ^ 31) (2 ^ 31) .short).vars,
      padded (v.recordBytes (twoRecordVariables (2 ^ 31) (2 ^ 31) .short).resolved) = 2 ^ 63) ∧
    Header.recordStride <$> Header.parse .debug
      ((twoRecordVariables (2 ^ 31) (2 ^ 31) .short).encode .cdf1) .cdf1 = .panic .overflow ∧
    Header.recordStride <$> Header.parse .release
      ((twoRecordVariables (2 ^ 31) (2 ^ 31) .short).encode .cdf1) .cdf1 = .ok 0 ∧
    (twoRecordVariables (2 ^ 31) (2 ^ 31) .short).meant.recordStride = 2 ^ 64 :=
  ⟨by decide +kernel, by decide +kernel, by decide +kernel, by decide +kernel, by decide +kernel⟩

end RoundTrip

end Oxcdf.Classic
