import Oxcdf.Classic.SourceAlone
import Oxcdf.Text

/-! The strings of a classic character variable.

A `char` variable holds one byte in each element, and its last axis is the length of
the text. One reader decodes a whole row; the other gives a string for each byte,
to be joined by the caller.
-/

set_option autoImplicit false

namespace Oxcdf.Classic

open Foundation Foundation.Buffer

/-- `slice::chunks`: windows of one width, the last one shorter when the bytes run out. -/
def chunks (width : Nat) (bytes : Bytes) : List Bytes :=
  (List.range ((bytes.length + width - 1) / width)).map fun i => slice bytes (i * width) width

namespace ClassicFile

def read (build : Build) (file : ClassicFile) (var : ClassicVariable) : Code Bytes :=
  file.readSelection build var (.all var.shape)

/-- Read a `char` variable as one string per row of the last axis. -/
def readStrings (build : Build) (file : ClassicFile) (var : ClassicVariable) : Code (List String) :=
  if var.ncType ≠ .char then .error (.unsupported s!"variable {var.name} is not a character variable")
  else do
    let bytes ← file.read build var
    let width := var.shape.getLastD 1
    if width = 0 then .ok []
    else .ok ((chunks width bytes).map fun row => fromUtf8Lossy (trimBlanks (untilNul row)))

/-- The values of a selection, as the reading interface hands them out. -/
def values (build : Build) (file : ClassicFile) (var : ClassicVariable) (slab : Hyperslab) : Code RawData := do
  let _ ← slab.validate var.shape
  let bytes ← file.readSelection build var slab
  .ok ⟨bytes, var.ncType.size, slab.count⟩

/-- `Variable::get_strings` on a classic file. -/
def getStrings (build : Build) (file : ClassicFile) (var : ClassicVariable) (slab : Hyperslab) :
    Code (List String) := do
  let raw ← file.values build var slab
  raw.toStringsOf var.datatype

end ClassicFile

/-- A row of a character variable: a text, and the NULs after it. -/
structure TextRow where
  text : String
  pad : Nat

def TextRow.bytes (row : TextRow) : Bytes := utf8Bytes row.text ++ List.replicate row.pad 0

/-- Whether a text ends in a blank. -/
def Blank (text : String) : Prop := text.toList.getLast? = some ' '

section Rows

theorem utf8Bytes_last {text : String} (full : ¬ Blank text) :
    trimBlanks (utf8Bytes text) = utf8Bytes text := by
  apply List.rdropWhile_eq_self_iff.mpr
  intro nonempty blank
  rcases List.eq_nil_or_concat text.toList with empty | ⟨chars, c, split⟩
  · simp [utf8Bytes, empty, Utf8.encode] at nonempty
  · have bytes : utf8Bytes text = Utf8.encode chars ++ String.utf8EncodeChar c := by
      simp [utf8Bytes, split, Utf8.encode]
    have last : (utf8Bytes text).getLast nonempty ∈ String.utf8EncodeChar c := by
      have some_ : String.utf8EncodeChar c ≠ [] := List.ne_nil_of_length_pos
        (by rw [String.length_utf8EncodeChar]; exact c.utf8Size_pos)
      simp only [bytes, List.getLast_append_of_ne_nil _ some_, List.getLast_mem]
    rw [of_decide_eq_true blank, Utf8.mem_encodeChar (by decide)] at last
    have space : c = ' ' := Char.ext (UInt32.toNat_inj.mp last)
    exact full (by simp [Blank, split, space])

/-- A whole row decodes to its text, which ends before the first NUL and is not blank at its end. -/
theorem decode_row {row : TextRow} (clean : 0 ∉ utf8Bytes row.text) (full : ¬ Blank row.text) :
    fromUtf8Lossy (trimBlanks (untilNul row.bytes)) = row.text := by
  have padding : untilNul (List.replicate row.pad 0) = [] := by
    cases row.pad <;> simp [untilNul, List.replicate_succ]
  rw [TextRow.bytes, Cursor.untilNul_clean clean, padding, List.append_nil, utf8Bytes_last full,
    fromUtf8Lossy_utf8Bytes]

theorem chunks_rows {rows : List TextRow} {width : Nat} (positive : 0 < width)
    (each : ∀ row ∈ rows, row.bytes.length = width) :
    chunks width (rows.flatMap TextRow.bytes) = rows.map TextRow.bytes := by
  have long := length_flatMap_block each
  have count : (rows.length * width + width - 1) / width = rows.length := by
    rw [Nat.add_sub_assoc positive, Nat.mul_comm, Nat.mul_add_div positive,
      Nat.div_eq_of_lt (Nat.sub_one_lt_of_lt positive), Nat.add_zero]
  rw [chunks, long, count]
  apply List.ext_getElem (by simp)
  intro i _ inside
  rw [List.length_map] at inside
  simp only [List.getElem_map, List.getElem_range]
  exact slice_flatMap_block each (List.getElem?_eq_getElem inside)

end Rows

section Variables

variable {build : Build} {file : ClassicFile} {var : ClassicVariable} {rows : List TextRow}

/-- A character variable whose rows, along the last axis, each hold a text and NULs after it. -/
structure HoldsRows (build : Build) (file : ClassicFile) (var : ClassicVariable)
    (rows : List TextRow) : Prop where
  char : var.ncType = .char
  typed : var.datatype = var.ncType.toDatatype
  count : rows.length = var.shape.dropLast.prod
  width : ∀ row ∈ rows, row.bytes.length = var.shape.getLastD 1
  stored : file.read build var = .ok (rows.flatMap TextRow.bytes)

namespace HoldsRows

theorem valid (holds : HoldsRows build file var rows) :
    Hyperslab.validate (.all var.shape) var.shape = .ok () := by
  have stored := holds.stored
  unfold ClassicFile.read ClassicFile.readSelection ClassicFile.readSelectionWith at stored
  rw [Walk.against_bind, Walk.against_lift] at stored
  obtain ⟨_, valid, _⟩ := Outcome.bind_eq_ok.mp stored
  exact valid

theorem strings (holds : HoldsRows build file var rows) :
    file.getStrings build var (.all var.shape) =
      .ok (rows.flatMap fun row => row.bytes.map fun byte => StringPad.nullTerminate.decode [byte]) := by
  have stored : file.readSelection build var (.all var.shape) = .ok (rows.flatMap TextRow.bytes) := holds.stored
  have size : var.ncType.size = 1 := by rw [holds.char]; rfl
  have text : var.datatype.class_ = .string .nullTerminate .ascii := by rw [holds.typed, holds.char]; rfl
  unfold ClassicFile.getStrings ClassicFile.values
  rw [holds.valid, Outcome.ok_bind, stored, Outcome.ok_bind, Outcome.ok_bind, size,
    toStringsOf_bytes _ rfl text, List.map_flatMap]

theorem texts (holds : HoldsRows build file var rows) (positive : 0 < var.shape.getLastD 1) :
    file.readStrings build var = .ok (rows.map fun row => fromUtf8Lossy (trimBlanks (untilNul row.bytes))) := by
  have chars : ¬ var.ncType ≠ .char := fun other => other holds.char
  rw [ClassicFile.readStrings, if_neg chars, holds.stored, Outcome.ok_bind]
  dsimp only
  rw [if_neg (by omega), chunks_rows positive holds.width, List.map_map]
  rfl

/-- Without a width there are no rows to be read. -/
theorem texts_none (holds : HoldsRows build file var rows) (none_ : var.shape.getLastD 1 = 0) :
    file.readStrings build var = .ok [] := by
  have chars : ¬ var.ncType ≠ .char := fun other => other holds.char
  rw [ClassicFile.readStrings, if_neg chars, holds.stored, Outcome.ok_bind]
  dsimp only
  rw [if_pos none_]

end HoldsRows

/-- Whether joining the strings of each row gives its text, as the row reader does for a text that does not
end in a blank. -/
def JoinsRows (build : Build) (file : ClassicFile) (var : ClassicVariable) (rows : List TextRow) : Prop :=
  ∃ strings texts, file.getStrings build var (.all var.shape) = .ok strings ∧
    file.readStrings build var = .ok texts ∧
    ∀ (i : Nat) (row : TextRow), rows[i]? = some row →
      String.join (slice strings (i * var.shape.getLastD 1) (var.shape.getLastD 1)) = row.text ∧
        (¬ Blank row.text → texts[i]? = some row.text)

/-- The strings of a row, joined, are its text exactly when that is ASCII without a NUL. -/
theorem HoldsRows.join_iff (holds : HoldsRows build file var rows) {strings : List String}
    (read : file.getStrings build var (.all var.shape) = .ok strings) {i : Nat} {row : TextRow}
    (found : rows[i]? = some row) :
    String.join (slice strings (i * var.shape.getLastD 1) (var.shape.getLastD 1)) = row.text ↔
      ∀ c ∈ row.text.toList, c ≠ Char.ofNat 0 ∧ c.toNat < 128 := by
  rw [holds.strings] at read
  cases read
  rw [slice_flatMap_block (fun row member => (List.length_map _).trans (holds.width row member)) found]
  exact join_text_iff row.pad

/-- The strings of every row join to its text, as the row reader has it, exactly when all texts are ASCII
without a NUL, and the rows have a width. -/
theorem joined_strings_iff (holds : HoldsRows build file var rows) :
    JoinsRows build file var rows ↔
      (∀ row ∈ rows, ∀ c ∈ row.text.toList, c ≠ Char.ofNat 0 ∧ c.toNat < 128) ∧
        (0 < var.shape.getLastD 1 ∨ rows = []) := by
  constructor
  · rintro ⟨strings, texts, read, rowwise, each⟩
    refine ⟨fun row member => ?_, ?_⟩
    · obtain ⟨i, found⟩ := List.getElem?_of_mem member
      exact (holds.join_iff read found).mp (each i row found).1
    · rcases Nat.eq_zero_or_pos (var.shape.getLastD 1) with none_ | positive
      · right
        rw [holds.texts_none none_] at rowwise
        cases rowwise
        cases listed : rows with
        | nil => rfl
        | cons row rest =>
          -- The text of a row without bytes is empty, and none is returned for it.
          have bytes := (holds.width row (by simp [listed])).trans none_
          have long := Utf8.length_encode_le row.text.toList
          rw [TextRow.bytes, List.length_append, utf8Bytes] at bytes
          have empty : row.text.toList = [] := List.eq_nil_of_length_eq_zero (by omega)
          have returned := (each 0 row (by simp [listed])).2 (by simp [Blank, empty])
          simp at returned
      · exact .inl positive
  · rintro ⟨ascii, wide⟩
    have joins {i : Nat} {row : TextRow} (found : rows[i]? = some row) :=
      (holds.join_iff holds.strings found).mpr (ascii row (List.mem_of_getElem? found))
    rcases wide with positive | none_
    · refine ⟨_, _, holds.strings, holds.texts positive, fun i row found => ⟨joins found, fun full => ?_⟩⟩
      have clean : 0 ∉ utf8Bytes row.text := utf8Bytes_clean.mpr fun nul =>
        (ascii row (List.mem_of_getElem? found) _ nul).1 rfl
      rw [List.getElem?_map, found, Option.map_some, decode_row clean full]
    · subst none_
      rcases Nat.eq_zero_or_pos (var.shape.getLastD 1) with none_ | positive
      · exact ⟨_, _, holds.strings, holds.texts_none none_, by simp⟩
      · exact ⟨_, _, holds.strings, holds.texts positive, by simp⟩

end Variables

section Labels

/-- Two labels of four bytes. -/
def label : StoredVariable :=
  { name := "label", dimIds := [0, 1], attributes := [], ncType := .char, vsize := 8, begin := 100 }

def labels : StoredHeader where
  recordCount := 0
  dimensions := [⟨"row", 2⟩, ⟨"len", 4⟩]
  attributes := []
  vars := [label]

theorem labels_length : (labels.encode .cdf1).length = 100 := by decide +kernel

def labelsImage (data : Bytes) : FileImage :=
  ⟨labels.encode .cdf1 ++ data.take 8, by
    rw [List.length_append, labels_length, List.length_take]
    exact Nat.le_trans (show 100 + min 8 data.length ≤ 108 by omega) (by decide)⟩

def labelsFile (rows : List TextRow) : ClassicFile :=
  { labels.meant with source := fileSource (labelsImage (rows.flatMap TextRow.bytes)), container := .cdf1 }

theorem labels_opened (rows : List TextRow) : (labelsFile rows).Opened .debug :=
  opened_of_encode (by decide +kernel) (by decide +kernel) rfl (by
    rw [FileImage.size, labelsImage, List.length_append, labels_length, List.length_take]
    exact (show 100 + min 8 (rows.flatMap TextRow.bytes).length ≤ 2 ^ 16 by omega))

def plainRows : List TextRow := [⟨"ab", 2⟩, ⟨"wxyz", 0⟩]

theorem joined_strings_plain :
    JoinsRows .debug (labelsFile plainRows) (label.meant labels.resolved) plainRows :=
  (joined_strings_iff ⟨rfl, rfl, rfl, by decide, by decide +kernel⟩).mpr
    ⟨by simp [plainRows], .inl (by decide)⟩

def accentedRows : List TextRow := [⟨"é", 2⟩, ⟨"wxyz", 0⟩]

/-- The two bytes of an accented letter are decoded for themselves, and joined as two replacement characters. -/
theorem joined_strings_accented :
    (labelsFile accentedRows).Opened .debug ∧
      HoldsRows .debug (labelsFile accentedRows) (label.meant labels.resolved) accentedRows ∧
      (labelsFile accentedRows).getStrings .debug (label.meant labels.resolved) (.all [2, 4]) =
        .ok ["\uFFFD", "\uFFFD", "", "", "w", "x", "y", "z"] ∧
      (labelsFile accentedRows).readStrings .debug (label.meant labels.resolved) = .ok ["é", "wxyz"] ∧
      ¬ JoinsRows .debug (labelsFile accentedRows) (label.meant labels.resolved) accentedRows := by
  have holds : HoldsRows .debug (labelsFile accentedRows) (label.meant labels.resolved) accentedRows :=
    ⟨rfl, rfl, rfl, by decide, by decide +kernel⟩
  refine ⟨labels_opened accentedRows, holds, by decide +kernel, by decide +kernel, ?_⟩
  rintro ⟨strings, texts, read, -, each⟩
  have ascii := (holds.join_iff read (show accentedRows[0]? = some ⟨"é", 2⟩ from rfl)).mp
    (each 0 _ rfl).1 'é' (by decide)
  revert ascii
  decide

end Labels

end Oxcdf.Classic
