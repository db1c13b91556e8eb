import Oxcdf.Classic.SourceAlone
import Oxcdf.Foundation.Consistent
import Oxcdf.Foundation.Window

/-! What can overflow when a netCDF classic file is opened.

No padding of a name or of an attribute's values overflows, for these have been
read before they are padded. What is left is the padded size of a record, the
sum of these sizes, and the window that grows until the header fits into it.
-/

set_option autoImplicit false

namespace Oxcdf.Classic

open Foundation Foundation.Buffer

/-- A cursor over a buffer that memory can hold. -/
def Existing (cursor : Cursor) : Prop := cursor.buf.length ≤ isizeMax

/-- A reader that has no overflow in a buffer that memory can hold. -/
abbrev Calm {α : Type} (read : Build → Parse α) : Prop := Session.SoundOn Existing read

/-- A reader that does on the front of a buffer what it does on the whole, while it does not run
out. -/
abbrev Windowed {α : Type} (read : Parse α) : Prop := Format.Windowed Cursor.oob read

section Fields

variable (container : Container)

theorem calm_take (n : Nat) : Calm fun _ => Cursor.take n := by
  apply Session.SoundOn.const
  · intro cursor
    unfold Session.Panics Cursor.take Format.take
    split <;> simp
  · intro cursor small
    unfold Cursor.take Format.take
    split <;> exact small

theorem calm_beU32 : Calm fun _ => beU32 := (calm_take 4).bind fun _ => .pure _

theorem calm_beU64 : Calm fun _ => beU64 := (calm_take 8).bind fun _ => .pure _

theorem calm_readSize : Calm fun _ => readSize container := by
  unfold readSize
  exact calm_beU64.ite calm_beU32

theorem calm_readOffset : Calm fun _ => readOffset container := by
  unfold readOffset
  exact calm_beU32.ite calm_beU64

/-- The padding behind bytes that memory can hold. -/
theorem skipPad_of_le (build : Build) {n : Nat} (small : n ≤ isizeMax) :
    skipPad build n = Cursor.skip (padded n - n) := by
  have near := padded_lt n
  have room : padded n < wordSize := by
    unfold isizeMax at small
    unfold wordSize
    omega
  rw [skipPad, pad4_eq_word, Build.word_of_lt build room, Session.bind_lift_ok,
    Build.sub_of_le build (le_padded n), Session.bind_lift_ok]

/-- Bytes that were read are padded without an overflow. -/
theorem calm_padded {α : Type} (n : Nat) {next : Build → Bytes → Parse α}
    (rest : ∀ raw, Calm fun build => next build raw) :
    Calm fun build => Cursor.take n >>= fun raw => skipPad build n >>= fun _ => next build raw := by
  by_cases small : n ≤ isizeMax
  · simp only [skipPad_of_le _ small]
    have skipped : Calm fun _ => Cursor.skip (padded n - n) := (calm_take _).bind fun _ => .pure ()
    exact (calm_take n).bind fun raw => skipped.bind fun _ => rest raw
  · -- No buffer has so many bytes left.
    have fails : ∀ build cursor, Existing cursor →
        (Cursor.take n >>= fun raw => skipPad build n >>= fun _ => next build raw) cursor =
          (.error (Cursor.oob cursor.pos n cursor.buf.length), cursor) := by
      intro build cursor bounded
      apply Session.bind_error
      unfold Existing at bounded
      exact if_pos (by omega)
    refine ⟨fun cursor bounded => ?_, fun cursor bounded => ?_, fun cursor bounded => ?_⟩
    · rw [Session.Panics, fails _ cursor bounded]
      exact nofun
    · rw [fails _ cursor bounded, fails _ cursor bounded]
    · rw [fails _ cursor bounded]
      exact bounded

theorem calm_readName : Calm fun build => readName build container := by
  unfold readName
  exact (calm_readSize container).bind fun len => calm_padded len fun raw => .pure _

theorem not_panics_fromCode (code : Nat) : ¬ (NcType.fromCode code).Panics := by
  unfold NcType.fromCode
  split <;> simp

theorem calm_readAttribute : Calm fun build => readAttribute build container := by
  unfold readAttribute
  refine (calm_readName container).bind fun name => calm_beU32.bind fun code => ?_
  refine (Session.SoundOn.lift (not_panics_fromCode code)).bind fun type => ?_
  refine (calm_readSize container).bind fun n => ?_
  refine (Session.SoundOn.lift (Outcome.not_panics_ofOption _ _)).bind fun bytes => ?_
  exact calm_padded bytes fun raw => .pure _

theorem calm_readAttributes : Calm fun build => readAttributes build container := by
  unfold readAttributes
  refine calm_beU32.bind fun tag => (calm_readSize container).bind fun count => ?_
  exact ((Session.SoundOn.throw _).ite (.pure [])).ite
    (Format.soundOn_times (calm_readAttribute container) count)

theorem calm_readDimensions : Calm fun build => readDimensions build container := by
  have each : Calm fun build => readDimension build container := by
    unfold readDimension
    exact (calm_readName container).bind fun name => (calm_readSize container).bind fun len => .pure _
  unfold readDimensions
  refine calm_beU32.bind fun tag => (calm_readSize container).bind fun count => ?_
  exact (Format.soundOn_times each count).ite ((Session.SoundOn.throw _).ite (.pure []))

end Fields

section Declarations

/-- A variable as the header declares it, without the size of its records. -/
def declaredVariable (build : Build) (container : Container) (dimensions : List ClassicDimension) :
    Parse ClassicVariable := do
  let name ← readName build container
  let rank ← readSize container
  let dimIds ← Format.times (readSize container) rank
  let attributes ← readAttributes build container
  let code ← beU32
  let ncType ← Session.lift (NcType.fromCode code)
  let _vsize ← readSize container
  let begin ← readOffset container
  let found ← Session.lift (lookupDimensions name dimensions dimIds)
  pure
    { name, dimensions := found.map ClassicDimension.name, shape := found.map ClassicDimension.len, ncType,
      datatype := ncType.toDatatype, attributes, begin, recordSize := 0,
      isRecord := (dimIds.head?.bind fun id => dimensions[id]?).any ClassicDimension.isUnlimited }

/-- The variable with the size of its records, where that can be padded. -/
def withRecordSize (build : Build) (v : ClassicVariable) : Code ClassicVariable :=
  (if v.isRecord then pad4 build (saturatingMul (elementCount (v.shape.drop 1)) v.ncType.size) else .ok 0) >>=
    fun recordSize => .ok { v with recordSize }

/-- What a header says before its variables. -/
structure Preamble where
  recordCount : Nat
  dimensions : List ClassicDimension
  attributes : List ClassicAttribute
  /-- How many variables follow. -/
  vars : Nat

/-- How many variables a list of them has. -/
def countVariables (tag count : Nat) : Parse Nat :=
  if tag = ncVariable then pure count
  else if tag ≠ 0 then Session.throw (.malformed s!"expected a variable list, found tag {tag}")
  else pure 0

def readPreamble (build : Build) (container : Container) : Parse Preamble := do
  Cursor.skip 4
  let recordCount ← beU32
  let stored ← readDimensions build container
  let attributes ← readAttributes build container
  let tag ← beU32
  let count ← readSize container
  let vars ← countVariables tag count
  pure { recordCount, dimensions := stored.map (resolveLength recordCount), attributes, vars }

variable (build : Build) (container : Container) (dimensions : List ClassicDimension)

theorem readVariable_eq : readVariable build container dimensions =
    declaredVariable build container dimensions >>= fun v => Session.lift (withRecordSize build v) := by
  unfold readVariable declaredVariable
  simp only [bind_assoc]
  iterate 9 refine bind_congr fun _ => ?_
  rw [pure_bind]
  unfold withRecordSize
  rw [Session.lift_bind]
  rfl

/-- A header is its preamble, its variables one after the other, and the stride of its records. -/
theorem read_eq : Header.read build container =
    readPreamble build container >>= fun preamble =>
      Format.times (readVariable build container preamble.dimensions) preamble.vars >>= fun vars =>
        Session.lift (recordStride build vars) >>= fun recordStride =>
          pure { preamble with vars, recordStride } := by
  unfold Header.read readPreamble readVariables countVariables
  simp only [bind_assoc]
  iterate 6 refine bind_congr fun _ => ?_
  split
  · simp only [pure_bind]
  · split
    · rfl
    · simp only [pure_bind]
      rfl

theorem calm_declaredVariable : Calm fun build => declaredVariable build container dimensions := by
  unfold declaredVariable
  refine (calm_readName container).bind fun name => (calm_readSize container).bind fun rank => ?_
  refine (Format.soundOn_times (calm_readSize container) rank).bind fun dimIds => ?_
  refine (calm_readAttributes container).bind fun attributes => calm_beU32.bind fun code => ?_
  refine (Session.SoundOn.lift (not_panics_fromCode code)).bind fun ncType => ?_
  refine (calm_readSize container).bind fun vsize => (calm_readOffset container).bind fun begin => ?_
  refine (Session.SoundOn.lift ?_).bind fun found => .pure _
  induction dimIds with
  | nil => exact Outcome.not_panics_ok []
  | cons id dimIds ih =>
    exact Outcome.not_panics_bind (Outcome.not_panics_ofOption _ _) fun d =>
      Outcome.not_panics_bind ih fun rest => Outcome.not_panics_ok _

theorem calm_readPreamble : Calm fun build => readPreamble build container := by
  unfold readPreamble
  have magic : Calm fun _ => Cursor.skip 4 := (calm_take 4).bind fun _ => .pure ()
  refine magic.bind fun _ => calm_beU32.bind fun recordCount => ?_
  refine (calm_readDimensions container).bind fun stored =>
    (calm_readAttributes container).bind fun attributes => ?_
  refine calm_beU32.bind fun tag => (calm_readSize container).bind fun count => ?_
  have counted : Calm fun _ => countVariables tag count := by
    unfold countVariables
    exact (Session.SoundOn.pure count).ite ((Session.SoundOn.throw _).ite (.pure 0))
  exact counted.bind fun vars => .pure _

end Declarations

section Sizes

/-- What one record of a variable holds, in bytes. -/
def ClassicVariable.recordBytes (v : ClassicVariable) : Nat := v.shape.tail.prod * v.ncType.size

/-- The padded records of some variables, put together. -/
def recordsBytes (vars : List ClassicVariable) : Nat :=
  ((vars.filter ClassicVariable.isRecord).map fun v => padded v.recordBytes).sum

/-- The variable with the exact size of its records. -/
def sized (v : ClassicVariable) : ClassicVariable :=
  { v with recordSize := if v.isRecord then padded v.recordBytes else 0 }

theorem saturated_eq (dims : List Nat) (type : NcType) :
    saturatingMul (elementCount dims) type.size = min (dims.prod * type.size) (wordSize - 1) := by
  have positive := size_pos type
  rw [elementCount_eq, saturatingMul]
  rcases Nat.le_total dims.prod (wordSize - 1) with small | large
  · rw [Nat.min_eq_left small]
  · have more := Nat.le_mul_of_pos_right dims.prod positive
    have full := Nat.le_mul_of_pos_right (wordSize - 1) positive
    rw [Nat.min_eq_right large, Nat.min_eq_right full, Nat.min_eq_right (large.trans more)]

/-- A size that was saturated overflows when it is padded, and no other does that its exact value
does not. -/
theorem padded_saturated (n : Nat) :
    (wordSize ≤ padded (min n (wordSize - 1)) ↔ wordSize ≤ padded n) ∧
      (padded n < wordSize → min n (wordSize - 1) = n) := by
  unfold padded wordSize
  omega

theorem withRecordSize_panics {v : ClassicVariable} :
    (withRecordSize .debug v).Panics ↔ v.isRecord = true ∧ wordSize ≤ padded v.recordBytes := by
  obtain ⟨overflows, -⟩ := padded_saturated v.recordBytes
  unfold withRecordSize
  rw [Outcome.panics_bind, List.drop_one, saturated_eq, pad4_eq_word]
  by_cases record : v.isRecord = true
  · simp only [record, if_true, Build.word_panics, true_and, Outcome.not_panics_ok, and_false, exists_false,
      or_false]
    exact overflows
  · simp [record]

theorem withRecordSize_unfailing (build : Build) (v : ClassicVariable) :
    (withRecordSize build v).Unfailing := by
  refine Outcome.Unfailing.bind ?_ fun size => .ok _
  split
  · exact Build.word_unfailing build _
  · exact .ok 0

theorem withRecordSize_eq_ok {v found : ClassicVariable} (sizes : withRecordSize .debug v = .ok found) :
    found = sized v := by
  have fits : ¬ (withRecordSize .debug v).Panics := by
    rw [sizes]
    exact Outcome.not_panics_ok found
  rw [withRecordSize_panics] at fits
  unfold withRecordSize at sizes
  unfold sized
  by_cases record : v.isRecord = true
  · have small : padded v.recordBytes < wordSize := Nat.not_le.mp fun large => fits ⟨record, large⟩
    have exactly := (padded_saturated v.recordBytes).2 small
    rw [if_pos record, List.drop_one, saturated_eq, pad4_eq_word] at sizes
    change Build.debug.word (padded (min v.recordBytes (wordSize - 1))) >>= _ = _ at sizes
    rw [exactly, Build.word_of_lt _ small] at sizes
    cases sizes
    rw [if_pos record]
  · rw [if_neg record] at sizes ⊢
    cases sizes
    rfl

theorem sized_of_mapM : ∀ {stored found : List ClassicVariable},
    stored.mapM (withRecordSize .debug) = .ok found → found = stored.map sized
  | [], _, checked => by
    cases checked
    rfl
  | v :: stored, _, checked => by
    rw [List.mapM_cons] at checked
    obtain ⟨first, here, checked⟩ := Outcome.bind_eq_ok.mp checked
    obtain ⟨rest, later, same⟩ := Outcome.bind_eq_ok.mp checked
    cases same
    rw [List.map_cons, withRecordSize_eq_ok here, sized_of_mapM later]

/-- The stride of several records, or of none, is a sum that may overflow. -/
theorem recordStride_panics (stored : List ClassicVariable) :
    (recordStride .debug (stored.map sized)).Panics ↔
      (stored.filter ClassicVariable.isRecord).length ≠ 1 ∧ wordSize ≤ recordsBytes stored := by
  have records : (stored.map sized).filter ClassicVariable.isRecord =
      (stored.filter ClassicVariable.isRecord).map sized := by
    rw [List.filter_map]
    rfl
  have sizes : ((stored.filter ClassicVariable.isRecord).map sized).map ClassicVariable.recordSize =
      (stored.filter ClassicVariable.isRecord).map fun v => padded v.recordBytes := by
    rw [List.map_map]
    refine List.map_congr_left fun v member => ?_
    exact if_pos (List.mem_filter.mp member).2
  unfold recordStride recordsBytes
  rw [records]
  split
  · next v single =>
    have one := congrArg List.length single
    rw [List.length_map] at one
    simp [one]
  · next several =>
    have some : (stored.filter ClassicVariable.isRecord).length ≠ 1 := by
      intro one
      obtain ⟨v, only⟩ := List.length_eq_one_iff.mp one
      exact several (sized v) (by rw [only, List.map_singleton])
    rw [sizes, sumWords_eq _ _ wordSize_pos, Nat.zero_add, Build.word_panics]
    simp only [ne_eq, some, not_false_eq_true, true_and]

end Sizes

section Parsing

variable (container : Container) (buf : Bytes)

/-- A header begins with these variables, and so many follow. -/
def Declares (vars : List ClassicVariable) (rest : Nat) : Prop :=
  ∃ preamble after last,
    readPreamble .release container (Cursor.start buf) = (.ok preamble, after) ∧
      preamble.vars = vars.length + rest ∧
      Format.times (declaredVariable .release container preamble.dimensions) vars.length after =
        (.ok vars, last)

/-- A record of a declared variable is too large for a word when padded, or all of them together
are and they are not only one. -/
def SizesOverflow : Prop :=
  ∃ vars rest, Declares container buf vars rest ∧
    ((∃ v ∈ vars, v.isRecord = true ∧ wordSize ≤ padded v.recordBytes) ∨
      rest = 0 ∧ (vars.filter ClassicVariable.isRecord).length ≠ 1 ∧ wordSize ≤ recordsBytes vars)

variable {container buf}

theorem parse_panics_iff (bounded : buf.length ≤ isizeMax) :
    (Header.parse .debug buf container).Panics ↔ SizesOverflow container buf := by
  have start : Existing (Cursor.start buf) := bounded
  have calm := calm_readPreamble container
  change (Header.read .debug container).Panics (Cursor.start buf) ↔ _
  unfold SizesOverflow Declares
  rw [read_eq, Session.panics_bind, or_iff_right (calm.safe _ start), calm.same _ start]
  constructor
  · rintro ⟨preamble, after, opened, panics⟩
    have existing := calm.keeps _ start
    rw [opened] at existing
    have fields := calm_declaredVariable container preamble.dimensions
    have same : ∀ k, Format.times (declaredVariable .release container preamble.dimensions) k after =
        Format.times (declaredVariable .debug container preamble.dimensions) k after :=
      fun k => (Format.soundOn_times fields k).same after existing
    simp only [readVariable_eq] at panics
    -- The size of each record is checked as its variable is read, the stride after all of them.
    rcases Session.panics_bind.mp panics with sizes | ⟨found, last, sizes, panics⟩
    · obtain ⟨k, le, vars, last, declared, v, member, fails⟩ :=
        (Format.panics_times_checked fields.keeps fields.safe
          (withRecordSize_unfailing .debug) existing).mp sizes
      obtain rfl := Format.times_length declared
      refine ⟨vars, preamble.vars - vars.length, ⟨preamble, after, last, opened, by omega, ?_⟩, .inl ?_⟩
      · rw [same, declared]
      · exact ⟨v, member, withRecordSize_panics.mp fails⟩
    · obtain ⟨vars, declared, checked⟩ := Format.times_checked_eq_ok.mp sizes
      obtain rfl := sized_of_mapM checked
      have length := Format.times_length declared
      refine ⟨vars, 0, ⟨preamble, after, last, opened, length.symm, ?_⟩, .inr ⟨rfl, ?_⟩⟩
      · rw [same, length, declared]
      · exact (recordStride_panics vars).mp (Session.panics_bind_pure.mp panics)
  · rintro ⟨vars, rest, ⟨preamble, after, last, opened, length, declared⟩, overflows⟩
    have existing := calm.keeps _ start
    rw [opened] at existing
    have fields := calm_declaredVariable container preamble.dimensions
    have same : Format.times (declaredVariable .release container preamble.dimensions) vars.length after =
        Format.times (declaredVariable .debug container preamble.dimensions) vars.length after :=
      (Format.soundOn_times fields vars.length).same after existing
    rw [same] at declared
    refine ⟨preamble, after, opened, Session.panics_bind.mpr ?_⟩
    simp only [readVariable_eq]
    -- The stride is only reached where every size fits.
    by_cases fails : ∃ v ∈ vars, (withRecordSize .debug v).Panics
    · left
      refine (Format.panics_times_checked fields.keeps fields.safe
        (withRecordSize_unfailing .debug) existing).mpr ?_
      exact ⟨vars.length, by omega, vars, last, declared, fails⟩
    · right
      have fits : ∀ v ∈ vars, withRecordSize .debug v = .ok (sized v) := by
        intro v member
        cases size : withRecordSize .debug v with
        | ok found => rw [withRecordSize_eq_ok size]
        | error e => exact absurd size (withRecordSize_unfailing .debug v e)
        | panic why => exact absurd ⟨v, member, why, size⟩ fails
      rcases overflows with ⟨v, member, large⟩ | ⟨rfl, several, large⟩
      · exact absurd ⟨v, member, withRecordSize_panics.mpr large⟩ fails
      · refine ⟨vars.map sized, last, Format.times_checked_eq_ok.mpr
          ⟨vars, ?_, Outcome.mapM_of_ok sized fits⟩, ?_⟩
        · rw [length]
          exact declared
        · exact Session.panics_bind_pure.mpr ((recordStride_panics vars).mpr ⟨several, large⟩)

end Parsing

section Windows

open Format

variable (build : Build) (container : Container)

theorem windowed_beU32 : Windowed beU32 := (Windowed.take 4).bind fun _ => .pure _

theorem windowed_beU64 : Windowed beU64 := (Windowed.take 8).bind fun _ => .pure _

theorem windowed_readSize : Windowed (readSize container) := by
  unfold readSize
  exact windowed_beU64.ite windowed_beU32

theorem windowed_readOffset : Windowed (readOffset container) := by
  unfold readOffset
  exact windowed_beU32.ite windowed_beU64

theorem windowed_skipPad (n : Nat) : Windowed (skipPad build n) := by
  unfold skipPad
  refine (Windowed.lift _).bind fun padded => (Windowed.lift _).bind fun rest => ?_
  exact (Windowed.take rest).bind fun _ => .pure ()

theorem windowed_readName : Windowed (readName build container) := by
  unfold readName
  refine (windowed_readSize container).bind fun len => (Windowed.take len).bind fun raw => ?_
  exact (windowed_skipPad build len).bind fun _ => .pure _

theorem windowed_readAttribute : Windowed (readAttribute build container) := by
  unfold readAttribute
  refine (windowed_readName build container).bind fun name => windowed_beU32.bind fun code => ?_
  refine (Windowed.lift _).bind fun type => (windowed_readSize container).bind fun n => ?_
  refine (Windowed.lift _).bind fun bytes => (Windowed.take bytes).bind fun raw => ?_
  exact (windowed_skipPad build bytes).bind fun _ => .pure _

theorem windowed_readAttributes : Windowed (readAttributes build container) := by
  unfold readAttributes
  refine windowed_beU32.bind fun tag => (windowed_readSize container).bind fun count => ?_
  exact ((Windowed.throw _).ite (.pure [])).ite ((windowed_readAttribute build container).times count)

theorem windowed_readDimensions : Windowed (readDimensions build container) := by
  have each : Windowed (readDimension build container) := by
    unfold readDimension
    exact (windowed_readName build container).bind fun name =>
      (windowed_readSize container).bind fun len => .pure _
  unfold readDimensions
  refine windowed_beU32.bind fun tag => (windowed_readSize container).bind fun count => ?_
  exact (each.times count).ite ((Windowed.throw _).ite (.pure []))

theorem windowed_readVariable (dimensions : List ClassicDimension) :
    Windowed (readVariable build container dimensions) := by
  rw [readVariable_eq]
  refine Windowed.bind ?_ fun v => .lift _
  unfold declaredVariable
  refine (windowed_readName build container).bind fun name => (windowed_readSize container).bind fun rank => ?_
  refine ((windowed_readSize container).times rank).bind fun dimIds => ?_
  refine (windowed_readAttributes build container).bind fun attributes => windowed_beU32.bind fun code => ?_
  refine (Windowed.lift _).bind fun ncType => (windowed_readSize container).bind fun vsize => ?_
  exact (windowed_readOffset container).bind fun begin => (Windowed.lift _).bind fun found => .pure _

theorem windowed_read : Windowed (Header.read build container) := by
  have magic : Windowed (Cursor.skip 4) := (Windowed.take 4).bind fun _ => .pure ()
  have counted : ∀ tag count, Windowed (countVariables tag count) := fun tag count =>
    (Windowed.pure count).ite ((Windowed.throw _).ite (.pure 0))
  rw [read_eq]
  refine Windowed.bind ?_ fun preamble => ?_
  · unfold readPreamble
    refine magic.bind fun _ => windowed_beU32.bind fun recordCount => ?_
    refine (windowed_readDimensions build container).bind fun stored => ?_
    refine (windowed_readAttributes build container).bind fun attributes => windowed_beU32.bind fun tag => ?_
    exact (windowed_readSize container).bind fun count => (counted tag count).bind fun vars => .pure _
  · refine ((windowed_readVariable build container preamble.dimensions).times preamble.vars).bind fun vars => ?_
    exact (Windowed.lift _).bind fun stride => .pure _

variable {build container} {buf : Bytes} {window : Nat}

/-- The header in a window at the front: it runs out of the window, or is the header of all. -/
theorem parse_window (within : window ≤ buf.length) :
    (∃ what offset len available,
      Header.parse build (buf.take window) container = .error (.outOfBounds what offset len available)) ∨
    Header.parse build (buf.take window) container = Header.parse build buf container := by
  rcases windowed_read build container buf 0 window within with
    ⟨offset, len, available, after, short⟩ | ⟨outcome, last, here, whole⟩
  · exact .inl ⟨_, offset, len, available, congrArg Prod.fst short⟩
  · exact .inr ((congrArg Prod.fst here).trans (congrArg Prod.fst whole).symm)

theorem parse_consistent (bounded : buf.length ≤ isizeMax) :
    Consistent fun build => Header.parse build buf container := by
  have sums : ∀ vars, Consistent fun build => recordStride build vars := by
    intro vars
    unfold recordStride
    split
    · exact .const _
    · simp only [sumWords_eq _ _ wordSize_pos]
      exact .word _
  have record : ∀ v, Consistent fun build => withRecordSize build v := by
    intro v
    unfold withRecordSize pad4
    exact ((Consistent.word _).ite (.const _)).bind fun size _ => .const _
  have each : ∀ dimensions, Session.ConsistentOn Existing fun build =>
    readVariable build container dimensions := by
    intro dimensions
    simp only [readVariable_eq]
    exact (calm_declaredVariable container dimensions).consistent.bind fun v => .lift (record v)
  have whole : Session.ConsistentOn Existing fun build => Header.read build container := by
    simp only [read_eq]
    refine (calm_readPreamble container).consistent.bind fun preamble => ?_
    refine (Format.consistentOn_times (each preamble.dimensions) preamble.vars).bind fun vars => ?_
    exact (Session.ConsistentOn.lift (sums vars)).bind fun stride => .pure _
  exact fun safe => congrArg Prod.fst (whole.same (Cursor.start buf) bounded safe)

end Windows

section Growing

/-- A header runs out of its buffer. -/
def Short (parsed : Code Header) : Prop :=
  ∃ what offset len available, parsed = .error (.outOfBounds what offset len available)

variable {build : Build} {source : ByteSource} {container : Container} {buf : Bytes} {window : Nat}

theorem parseWindow_of_not_short (stored : source.readVec 0 window = .ok buf)
    (whole : ¬ Short (Header.parse build buf container)) (budget : Nat) :
    parseWindow build source container budget window = Header.parse build buf container := by
  rw [parseWindow.eq_def]
  dsimp only
  rw [stored, Outcome.ok_bind]
  split
  · next short => exact absurd ⟨_, _, _, _, short⟩ whole
  · rfl

theorem parseWindow_of_all (stored : source.readVec 0 window = .ok buf) (all : ¬ window < source.size)
    (budget : Nat) : parseWindow build source container budget window = Header.parse build buf container := by
  rw [parseWindow.eq_def]
  dsimp only
  rw [stored, Outcome.ok_bind]
  split
  · next short => rw [if_neg all, short]
  · rfl

theorem parseWindow_of_last (stored : source.readVec 0 window = .ok buf)
    (last : ¬ (Short (Header.parse build buf container) ∧ window < source.size)) (budget : Nat) :
    parseWindow build source container budget window = Header.parse build buf container := by
  by_cases short : Short (Header.parse build buf container)
  · exact parseWindow_of_all stored (fun more => last ⟨short, more⟩) budget
  · exact parseWindow_of_not_short stored short budget

theorem parseWindow_of_short (stored : source.readVec 0 window = .ok buf)
    (short : Short (Header.parse build buf container)) (more : window < source.size) (budget : Nat) :
    parseWindow build source container (budget + 1) window =
      build.mul window 4 >>= fun wider =>
        parseWindow build source container budget (min wider source.size) := by
  obtain ⟨what, offset, len, available, short⟩ := short
  rw [parseWindow, stored, Outcome.ok_bind, short]
  exact if_pos more

theorem parseWindow_of_spent (stored : source.readVec 0 window = .ok buf) :
    parseWindow build source container 0 window = Header.parse build buf container := by
  rw [parseWindow, stored, Outcome.ok_bind]
  split
  · next short => rw [short, ite_self]
  · rfl

theorem parseWindow_of_unread (unread : ∀ buf, source.readVec 0 window ≠ .ok buf) (budget : Nat)
    (first second : Build) :
    parseWindow first source container budget window = parseWindow second source container budget window := by
  rw [parseWindow.eq_def, parseWindow.eq_def]
  dsimp only
  exact Outcome.bind_congr fun buf stored => absurd stored (unread buf)

variable {image : FileImage}

theorem readVec_front (within : window ≤ image.size) :
    (fileSource image).readVec 0 window = .ok (image.bytes.take window) := by
  have held : image.Holds 0 window := by
    unfold FileImage.Holds
    omega
  rw [fileSource_readVec image 0 window held.le_isizeMax, if_pos held]
  rfl

theorem front_bounded (image : FileImage) (window : Nat) : (image.bytes.take window).length ≤ isizeMax :=
  (List.length_take_le' _ _).trans image.bounded

/-- The header does not end in the largest window that can still grow. -/
def RunsPast (container : Container) (image : FileImage) : Prop :=
  2 ^ 62 < image.size ∧ Short (Header.parse .release (image.bytes.take (2 ^ 62)) container)

theorem short_front {smaller larger : Nat} (le : smaller ≤ larger) (within : larger ≤ image.size)
    (short : Short (Header.parse build (image.bytes.take larger) container)) :
    Short (Header.parse build (image.bytes.take smaller) container) := by
  have inside : smaller ≤ (image.bytes.take larger).length := by
    rwa [List.length_take_of_le within]
  have front := @parse_window build container (image.bytes.take larger) smaller inside
  rw [List.take_take, Nat.min_eq_left le] at front
  rcases front with runs | same
  · exact runs
  · rwa [same]

theorem short_safe {parsed : Code Header} (short : Short parsed) : ¬ parsed.Panics := by
  obtain ⟨what, offset, len, available, rfl⟩ := short
  exact Outcome.not_panics_error _

/-- The checked build stops at a window that is enough or that shows all there is. It panics there
where a size overflows in the header. -/
theorem parseWindow_panics_last (within : window ≤ image.size) (small : window ≤ 2 ^ 62)
    (last : ¬ (Short (Header.parse .debug (image.bytes.take window) container) ∧ window < image.size))
    (budget : Nat) :
    (parseWindow .debug (fileSource image) container budget window).Panics ↔
      SizesOverflow container image.bytes ∨ RunsPast container image := by
  have stored := readVec_front within
  have whole : (Header.parse .debug image.bytes container).Panics ↔ SizesOverflow container image.bytes :=
    parse_panics_iff image.bounded
  have front := @parse_window .debug container image.bytes window within
  by_cases short : Short (Header.parse .debug (image.bytes.take window) container)
  · -- The window is the whole file.
    have all : ¬ window < image.size := fun more => last ⟨short, more⟩
    have same : window = image.bytes.length := Nat.le_antisymm within (Nat.not_lt.mp all)
    rw [parseWindow_of_all stored all, ← whole, same, List.take_length]
    constructor
    · exact .inl
    · rintro (panics | ⟨large, -⟩)
      · exact panics
      · exact absurd large (by omega)
  · rw [parseWindow_of_not_short stored short]
    rcases front with runs | same
    · exact absurd runs short
    · rw [same] at short ⊢
      rw [← whole]
      constructor
      · exact .inl
      · rintro (panics | ⟨large, past⟩)
        · exact panics
        · by_contra safe
          -- Without an overflow the unchecked build reads the window alike.
          have alike : ¬ (Header.parse .debug (image.bytes.take window) container).Panics →
              Header.parse .release (image.bytes.take window) container =
                Header.parse .debug (image.bytes.take window) container :=
            parse_consistent (front_bounded image window)
          rw [same] at alike
          have here := short_front small large.le past
          rw [alike safe] at here
          exact short here

/-- From a window of so many turns on, the checked build panics where a size overflows in the
header, or where the window cannot grow any more. -/
theorem parseWindow_panics (budget : Nat) : ∀ {turns : Nat}, budget + turns = 23 →
    ((parseWindow .debug (fileSource image) container (budget + 1)
      (min image.size (2 ^ 16 * 4 ^ turns))).Panics ↔
      SizesOverflow container image.bytes ∨ RunsPast container image) := by
  induction budget with
  | zero =>
    intro turns sum
    obtain rfl : turns = 23 := by omega
    by_cases more : Short (Header.parse .debug
      (image.bytes.take (min image.size (2 ^ 16 * 4 ^ 23))) container) ∧
        min image.size (2 ^ 16 * 4 ^ 23) < image.size
    · obtain ⟨short, room⟩ := more
      have window : min image.size (2 ^ 16 * 4 ^ 23) = 2 ^ 62 := by omega
      rw [parseWindow_of_short (readVec_front (Nat.min_le_left _ _)) short room]
      rw [window] at short room ⊢
      have alike : Header.parse .release _ container = Header.parse .debug _ container :=
        parse_consistent (front_bounded image (2 ^ 62)) (short_safe short)
      have past : RunsPast container image := ⟨room, alike ▸ short⟩
      exact iff_of_true (Outcome.panics_bind.mpr (.inl ⟨.overflow, rfl⟩)) (.inr past)
    · exact parseWindow_panics_last (Nat.min_le_left _ _) (by omega) more 1
  | succ budget ih =>
    intro turns sum
    have grown : 2 ^ 16 * 4 ^ turns * 4 ≤ 2 ^ 62 := by
      have powers := Nat.pow_le_pow_right (show 0 < 4 by decide) (show turns + 1 ≤ 23 by omega)
      rw [Nat.pow_succ] at powers
      omega
    by_cases more : Short (Header.parse .debug
      (image.bytes.take (min image.size (2 ^ 16 * 4 ^ turns))) container) ∧
        min image.size (2 ^ 16 * 4 ^ turns) < image.size
    · obtain ⟨short, room⟩ := more
      have window : min image.size (2 ^ 16 * 4 ^ turns) = 2 ^ 16 * 4 ^ turns := by omega
      have next : min (2 ^ 16 * 4 ^ turns * 4) image.size = min image.size (2 ^ 16 * 4 ^ (turns + 1)) := by
        rw [Nat.min_comm, @Nat.pow_succ 4 turns, Nat.mul_assoc]
      have fits : 2 ^ 16 * 4 ^ turns * 4 < wordSize := by
        unfold wordSize
        omega
      rw [parseWindow_of_short (readVec_front (Nat.min_le_left _ _)) short room, window, Build.mul,
        Build.word_of_lt _ fits, Outcome.ok_bind]
      change (parseWindow .debug (fileSource image) container (budget + 1)
        (min (2 ^ 16 * 4 ^ turns * 4) image.size)).Panics ↔ _
      rw [next]
      exact ih (by omega)
    · exact parseWindow_panics_last (Nat.min_le_left _ _) (by omega) more _

theorem parseWindow_consistent (budget : Nat) : ∀ window : Nat,
    Consistent fun build => parseWindow build (fileSource image) container budget window := by
  induction budget with
  | zero =>
    intro window safe
    cases stored : (fileSource image).readVec 0 window with
    | ok buf =>
      have bounded := (holds_of_readVec stored).2.trans_le (holds_of_readVec stored).1.le_isizeMax
      dsimp only at safe ⊢
      rw [parseWindow_of_spent stored] at safe ⊢
      rw [parseWindow_of_spent stored]
      exact parse_consistent bounded safe
    | _ => exact parseWindow_of_unread (by simp [stored]) 0 .release .debug
  | succ budget ih =>
    intro window safe
    cases stored : (fileSource image).readVec 0 window with
    | ok buf =>
      have bounded := (holds_of_readVec stored).2.trans_le (holds_of_readVec stored).1.le_isizeMax
      have alike : ¬ (Header.parse .debug buf container).Panics →
          Header.parse .release buf container = Header.parse .debug buf container := parse_consistent bounded
      dsimp only at safe ⊢
      by_cases short : Short (Header.parse .debug buf container)
      · have same := alike (short_safe short)
        by_cases more : window < (fileSource image).size
        · rw [parseWindow_of_short stored short more] at safe ⊢
          rw [parseWindow_of_short stored (same ▸ short) more]
          exact ((Consistent.word _).bind fun wider _ => ih _) safe
        · rw [parseWindow_of_all stored more, parseWindow_of_all stored more, same]
      · rw [parseWindow_of_not_short stored short] at safe ⊢
        rw [parseWindow_of_not_short stored (alike safe ▸ short), alike safe]
    | _ => exact parseWindow_of_unread (by simp [stored]) _ .release .debug

end Growing

section Opened

/-- What overflows when a file is opened. -/
def OpeningOverflows (image : FileImage) : Prop :=
  image.Holds 0 4 ∧ ∃ container, containerOf (image.part 0 4) = .ok container ∧
    (SizesOverflow container image.bytes ∨ RunsPast container image)

variable {image : FileImage}

theorem not_panics_containerOf (magic : Bytes) : ¬ (containerOf magic).Panics := by
  unfold containerOf
  repeat' split
  all_goals simp

/-- Opening a file overflows nowhere but there. -/
theorem fromSource_sound_iff :
    Sound (fun build => ClassicFile.fromSource build (fileSource image)) ↔ ¬ OpeningOverflows image := by
  have consistent : Consistent fun build => ClassicFile.fromSource build (fileSource image) := by
    unfold ClassicFile.fromSource
    refine (Consistent.const _).bind fun magic _ => (Consistent.const _).bind fun container _ => ?_
    exact (parseWindow_consistent 24 _).bind fun header _ => .const _
  rw [consistent.sound_iff, not_iff_not]
  unfold ClassicFile.fromSource OpeningOverflows
  rw [fileSource_readExactAt]
  by_cases held : image.Holds 0 4
  · rw [if_pos held, Outcome.ok_bind]
    cases known : containerOf (image.part 0 4) with
    | ok container =>
      have windows := @parseWindow_panics container image 23 0 rfl
      rw [Nat.pow_zero, Nat.mul_one] at windows
      change Outcome.Panics (parseWindow .debug (fileSource image) container 24
        (min image.size (2 ^ 16)) >>= _) ↔ _
      rw [Outcome.panics_bind, windows]
      simp [held]
    | error e => simp
    | panic why => exact absurd ⟨why, known⟩ (not_panics_containerOf _)
  · simp [held]

end Opened

end Oxcdf.Classic
