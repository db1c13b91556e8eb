import Oxcdf.Classic.RoundTrip

/-! The wide form of a classic header, with 64-bit counts.

The wide form stores the record count in eight bytes, as it does every list
length. The parser takes four bytes for it whatever the form, so all that
follows is read four bytes early.
-/

set_option autoImplicit false

namespace Oxcdf.Classic.Wide

open Foundation Foundation.Format

section Encoding

def encodeSize (n : Nat) : Bytes := bigEndian 8 n

def encodeName (name : String) : Bytes :=
  encodeSize (utf8Bytes name).length ++ (utf8Bytes name ++ encodePad (utf8Bytes name).length)

/-- A list with its tag and length; an absent list has both zero. -/
def encodeList {α : Type} (tag : Nat) (encode : α → Bytes) (items : List α) : Bytes :=
  if items.isEmpty then encodeWord 0 ++ encodeSize 0
  else encodeWord tag ++ (encodeSize items.length ++ items.flatMap encode)

def encodeDimension (dimension : StoredDimension) : Bytes :=
  encodeName dimension.name ++ encodeSize dimension.len

def encodeAttribute (entry : StoredAttribute) : Bytes :=
  encodeName entry.name ++ (encodeWord entry.ncType.code ++ (encodeSize entry.count ++
    (entry.raw ++ encodePad entry.raw.length)))

def encodeAttributes (attributes : List StoredAttribute) : Bytes :=
  encodeList ncAttribute encodeAttribute attributes

def encodeVariable (v : StoredVariable) : Bytes :=
  encodeName v.name ++ (encodeSize v.dimIds.length ++
    (v.dimIds.flatMap encodeSize ++ (encodeAttributes v.attributes ++
      (encodeWord v.ncType.code ++ (encodeSize v.vsize ++ bigEndian 8 v.begin)))))

def magic : Bytes := [0x43, 0x44, 0x46, 5]

def encode (header : StoredHeader) : Bytes :=
  magic ++ (encodeSize header.recordCount ++
    (encodeList ncDimension encodeDimension header.dimensions ++
      (encodeAttributes header.attributes ++ encodeList ncVariable encodeVariable header.vars)))

end Encoding

section Reading

variable {build : Build}

theorem encodeSize_zero : encodeSize 0 = encodeWord 0 ++ encodeWord 0 := by decide

/-- Every list starts with twelve bytes, its tag and its length. -/
theorem encodeList_starts {α : Type} (tag : Nat) (encode : α → Bytes) (items : List α) :
    ∃ eight rest : Bytes, eight.length = 8 ∧ encodeList tag encode items = eight ++ rest := by
  have long : 8 ≤ (encodeList tag encode items).length := by
    unfold encodeList encodeSize encodeWord
    split <;> simp only [List.length_append, bigEndian_length] <;> omega
  exact ⟨_, _, List.length_take_of_le long, (List.take_append_drop 8 _).symm⟩

theorem reads_eight {eight : Bytes} (length : eight.length = 8) :
    Reads beU64 eight (ofBigEndian eight) := by
  have taken := Cursor.reads_take eight
  rw [length] at taken
  exact taken.bind_pure ofBigEndian

/-- A zero tag and any length is no dimension. -/
theorem reads_noDimensions {eight : Bytes} (length : eight.length = 8) :
    Reads (readDimensions build .cdf5) (encodeWord 0 ++ eight) [] :=
  (reads_beU32 (by decide)).bind ((reads_eight length).bind_done fun _ => rfl)

theorem reads_noAttributes {eight : Bytes} (length : eight.length = 8) :
    Reads (readAttributes build .cdf5) (encodeWord 0 ++ eight) [] :=
  (reads_beU32 (by decide)).bind ((reads_eight length).bind_done fun _ => rfl)

theorem reads_noVariables {eight : Bytes} (length : eight.length = 8)
    (dimensions : List ClassicDimension) :
    Reads (readVariables build .cdf5 dimensions) (encodeWord 0 ++ eight) [] :=
  (reads_beU32 (by decide)).bind ((reads_eight length).bind_done fun _ => rfl)

end Reading

section Parsing

variable (build : Build)

def readVars (recordCount : Nat) (dimensions : List ClassicDimension)
    (attributes : List ClassicAttribute) : Parse Header := do
  let vars ← readVariables build .cdf5 dimensions
  let recordStride ← Session.lift (Classic.recordStride build vars)
  pure { dimensions, attributes, vars, recordCount, recordStride }

def readRest (recordCount : Nat) (dimensions : List ClassicDimension) : Parse Header := do
  let attributes ← readAttributes build .cdf5
  readVars build recordCount dimensions attributes

/-- The part of the parser after the record count. -/
def readLists (recordCount : Nat) : Parse Header := do
  let stored ← readDimensions build .cdf5
  readRest build recordCount (stored.map (resolveLength recordCount))

theorem yields_recordCount (count : Nat) :
    (readLists build count).Yields fun header => header.recordCount = count := by
  unfold readLists readRest readVars
  iterate 4 refine Session.Yields.last fun _ => ?_
  exact Session.Yields.pure rfl

theorem yields_dimensions (count : Nat) (dimensions : List ClassicDimension) :
    (readRest build count dimensions).Yields fun header => header.dimensions = dimensions := by
  unfold readRest readVars
  iterate 3 refine Session.Yields.last fun _ => ?_
  exact Session.Yields.pure rfl

theorem yields_attributes (count : Nat) (dimensions : List ClassicDimension)
    (attributes : List ClassicAttribute) :
    (readVars build count dimensions attributes).Yields fun header => header.attributes = attributes := by
  unfold readVars
  iterate 2 refine Session.Yields.last fun _ => ?_
  exact Session.Yields.pure rfl

theorem reads_low (n : Nat) : Reads beU32 (encodeWord n) (n % 256 ^ 4) := by
  have taken := Cursor.reads_take (encodeWord n)
  rw [encodeWord, bigEndian_length] at taken
  have decoded := taken.bind_pure ofBigEndian
  rwa [ofBigEndian_bigEndian_mod 4 n] at decoded

/-- Four bytes are taken for the record count. -/
theorem parse_eq (count : Nat) (tail : Bytes) :
    Header.parse build (magic ++ (encodeWord count ++ tail)) .cdf5 =
      (readLists build (count % 256 ^ 4)
        ⟨magic ++ encodeWord count ++ tail, (magic ++ encodeWord count).length⟩).1 := by
  have skipped := (Cursor.reads_skip magic).step (fun _ => beU32 >>= readLists build) []
    (encodeWord count ++ tail)
  have counted := (reads_low count).step (readLists build) magic tail
  exact congrArg Prod.fst (skipped.trans counted)

/-- The low half of the record count is where the dimension list is looked for. -/
theorem encode_eq (header : StoredHeader) : encode header =
    magic ++ (encodeWord (header.recordCount / 256 ^ 4) ++ (encodeWord header.recordCount ++
      (encodeList ncDimension encodeDimension header.dimensions ++
        (encodeAttributes header.attributes ++ encodeList ncVariable encodeVariable header.vars)))) := by
  rw [encode, encodeSize, bigEndian_add 4 4, List.append_assoc]
  rfl

/-- A record count of zero hides the tag of the dimension list: none is read. -/
theorem parse_noDimensions {eight : Bytes} (length : eight.length = 8) (tail : Bytes) :
    Header.parse build (magic ++ (encodeWord 0 ++ (encodeWord 0 ++ (eight ++ tail)))) .cdf5 =
      (readRest build 0 [] ⟨magic ++ encodeWord 0 ++ (encodeWord 0 ++ eight) ++ tail,
        (magic ++ encodeWord 0 ++ (encodeWord 0 ++ eight)).length⟩).1 := by
  have absent := (@reads_noDimensions build eight length).step
    (fun stored => readRest build 0 (stored.map (resolveLength 0))) (magic ++ encodeWord 0) tail
  rw [List.append_assoc (encodeWord 0)] at absent
  exact (parse_eq build 0 _).trans (congrArg Prod.fst absent)

theorem readRest_noAttributes {eight : Bytes} (length : eight.length = 8) (before tail : Bytes) :
    readRest build 0 [] ⟨before ++ (encodeWord 0 ++ (eight ++ tail)), before.length⟩ =
      readVars build 0 [] [] ⟨before ++ (encodeWord 0 ++ eight) ++ tail,
        (before ++ (encodeWord 0 ++ eight)).length⟩ := by
  have absent := (@reads_noAttributes build eight length).step (readVars build 0 []) before tail
  rwa [List.append_assoc (encodeWord 0)] at absent

theorem readVars_noVariables {eight : Bytes} (length : eight.length = 8) (before tail : Bytes) :
    (readVars build 0 [] [] ⟨before ++ (encodeWord 0 ++ (eight ++ tail)), before.length⟩).1 =
      .ok { dimensions := [], attributes := [], vars := [], recordCount := 0, recordStride := 0 } := by
  have absent := (@reads_noVariables build eight length []).step (fun vars => do
    let recordStride ← Session.lift (Classic.recordStride build vars)
    pure { dimensions := [], attributes := [], vars, recordCount := 0, recordStride : Header }) before tail
  rw [List.append_assoc (encodeWord 0)] at absent
  exact congrArg Prod.fst absent

/-- A list stored as absent leaves a zero tag after the eight bytes taken for a length. -/
theorem encodeList_nil {α : Type} (tag : Nat) (encode : α → Bytes) (tail : Bytes) :
    encodeList tag encode [] ++ tail =
      encodeWord 0 ++ encodeWord 0 ++ (encodeWord 0 ++ tail) := by
  simp [encodeList, encodeSize_zero]

theorem encodeWord_zero_length : (encodeWord 0 ++ encodeWord 0).length = 8 := by decide

theorem recordCount_of_parse {header : StoredHeader} {parsed : Header}
    (found : Header.parse build (encode header) .cdf5 = .ok parsed) :
    parsed.recordCount = header.recordCount / 256 ^ 4 % 256 ^ 4 := by
  rw [encode_eq, parse_eq] at found
  exact yields_recordCount build _ _ _ _ (Prod.ext found rfl)

theorem dimensions_of_parse {header : StoredHeader} {parsed : Header} (none : header.recordCount = 0)
    (found : Header.parse build (encode header) .cdf5 = .ok parsed) : parsed.dimensions = [] := by
  obtain ⟨eight, rest, length, starts⟩ :=
    encodeList_starts ncDimension encodeDimension header.dimensions
  rw [encode_eq, none, starts, List.append_assoc eight] at found
  have rest := (parse_noDimensions build length _).symm.trans found
  exact yields_dimensions build _ _ _ _ _ (Prod.ext rest rfl)

theorem attributes_of_parse {header : StoredHeader} {parsed : Header} (none : header.recordCount = 0)
    (flat : header.dimensions = []) (found : Header.parse build (encode header) .cdf5 = .ok parsed) :
    parsed.attributes = [] := by
  obtain ⟨eight, rest, length, starts⟩ :=
    encodeList_starts ncAttribute encodeAttribute header.attributes
  rw [encode_eq, none, flat, encodeList_nil, encodeAttributes, starts, List.append_assoc eight] at found
  have later := (parse_noDimensions build encodeWord_zero_length _).symm.trans found
  rw [readRest_noAttributes build length] at later
  exact yields_attributes build _ _ _ _ _ _ (Prod.ext later rfl)

theorem parse_bare {header : StoredHeader} (none : header.recordCount = 0)
    (flat : header.dimensions = []) (plain : header.attributes = []) :
    Header.parse build (encode header) .cdf5 =
      .ok { dimensions := [], attributes := [], vars := [], recordCount := 0, recordStride := 0 } := by
  obtain ⟨eight, rest, length, starts⟩ := encodeList_starts ncVariable encodeVariable header.vars
  rw [encode_eq, none, flat, encodeList_nil, encodeAttributes, plain, encodeList_nil, starts]
  refine (parse_noDimensions build encodeWord_zero_length _).trans ?_
  rw [readRest_noAttributes build encodeWord_zero_length]
  exact readVars_noVariables build length _ _

/-- The wide form is read back only when there is nothing in it: every other
header is shifted by the four bytes of the record count left over. -/
theorem parse_encode_wide_iff (header : StoredHeader) :
    Header.parse build (encode header) .cdf5 = .ok header.meant ↔
      header.recordCount = 0 ∧ header.dimensions = [] ∧ header.attributes = [] ∧ header.vars = [] := by
  constructor
  · intro found
    have count : header.recordCount = header.recordCount / 256 ^ 4 % 256 ^ 4 :=
      recordCount_of_parse build found
    have none : header.recordCount = 0 := by omega
    have flat : header.dimensions = [] := List.map_eq_nil_iff.mp (dimensions_of_parse build none found)
    have plain : header.attributes = [] :=
      List.map_eq_nil_iff.mp (attributes_of_parse build none flat found)
    have bare := (parse_bare build none flat plain).symm.trans found
    have vars : ([] : List ClassicVariable) = header.vars.map (StoredVariable.meant header.resolved) :=
      congrArg Header.vars (Outcome.ok.inj bare)
    exact ⟨none, flat, plain, List.map_eq_nil_iff.mp vars.symm⟩
  · rintro ⟨none, flat, plain, empty⟩
    rw [parse_bare build none flat plain]
    obtain ⟨count, dimensions, attributes, vars⟩ := header
    subst none flat plain empty
    rfl

/-- One dimension of three cells, and a byte variable over it. -/
def oneVariable : StoredHeader where
  recordCount := 0
  dimensions := [⟨"x", 3⟩]
  attributes := []
  vars := [{ name := "v", dimIds := [0], attributes := [], ncType := .byte, vsize := 4, begin := 112 }]

/-- The length of its dimension list is read as the tag of its attribute list. -/
theorem parse_encode_wide_shifted :
    Header.parse .debug (encode oneVariable) .cdf5 =
      .error (.malformed "expected an attribute list, found tag 1") ∧
    Header.parse .release (encode oneVariable) .cdf5 =
      .error (.malformed "expected an attribute list, found tag 1") ∧
    oneVariable.meant.dimensions = [{ name := "x", len := 3, isUnlimited := false }] :=
  ⟨Outcome.map_eq_error.mp (show Header.recordCount <$> _ = _ by decide +kernel),
    Outcome.map_eq_error.mp (show Header.recordCount <$> _ = _ by decide +kernel), by decide +kernel⟩

end Parsing

end Oxcdf.Classic.Wide
