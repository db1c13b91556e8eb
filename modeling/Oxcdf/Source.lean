import Oxcdf.Error
import Oxcdf.Foundation.Buffer
import Oxcdf.Foundation.Dialogue

/-! Byte sources addressed by absolute file offset.

A synchronous walk sees the file through the four calls of a source only, so a
walk is a dialogue over those calls. A file on disk and a buffer in memory are
sources; an asynchronous source is described by what it serves of a file.
-/

set_option autoImplicit false

namespace Oxcdf

open Foundation Foundation.Buffer

inductive SourceCall where
  | size
  | readExactAt (offset len : Nat)
  | readVec (offset len : Nat)
  | readRanges (ranges : List (Nat × Nat))
  deriving DecidableEq, Repr

def SourceCall.Value : SourceCall → Type
  | .size => Nat
  | .readExactAt _ _ => Bytes
  | .readVec _ _ => Bytes
  | .readRanges _ => List Bytes

abbrev sourceCalls : Signature := ⟨SourceCall, SourceCall.Value⟩

structure ByteSource where
  size : Nat
  readExactAt : Nat → Nat → Code Bytes
  readVec : Nat → Nat → Code Bytes
  readRanges : List (Nat × Nat) → Code (List Bytes)

namespace ByteSource

/-- The trait's default for `read_vec`. -/
def defaultReadVec (readExactAt : Nat → Nat → Code Bytes) (offset len : Nat) : Code Bytes := do
  let _ ← zeroed len
  readExactAt offset len

/-- The trait's default for `read_ranges`: one range after the other. -/
def defaultReadRanges (readVec : Nat → Nat → Code Bytes) (ranges : List (Nat × Nat)) :
    Code (List Bytes) :=
  ranges.mapM fun range => readVec range.1 range.2

theorem defaultReadRanges_cons (readVec : Nat → Nat → Code Bytes) (range : Nat × Nat)
    (ranges : List (Nat × Nat)) :
    defaultReadRanges readVec (range :: ranges) =
      readVec range.1 range.2 >>= fun bytes =>
        defaultReadRanges readVec ranges >>= fun rest => .ok (bytes :: rest) := by
  unfold defaultReadRanges
  rw [List.mapM_cons]
  rfl

def answer (source : ByteSource) : Environment Error sourceCalls
  | .size => .ok source.size
  | .readExactAt offset len => source.readExactAt offset len
  | .readVec offset len => source.readVec offset len
  | .readRanges ranges => source.readRanges ranges

end ByteSource

/-- A synchronous computation over the byte source it is given. -/
abbrev Walk (α : Type) := Dialogue Error sourceCalls α

namespace Walk

variable {α : Type}

def size : Walk Nat := Dialogue.query (I := sourceCalls) .size

def readExactAt (offset len : Nat) : Walk Bytes :=
  Dialogue.query (I := sourceCalls) (.readExactAt offset len)

def readVec (offset len : Nat) : Walk Bytes :=
  Dialogue.query (I := sourceCalls) (.readVec offset len)

def readRanges (ranges : List (Nat × Nat)) : Walk (List Bytes) :=
  Dialogue.query (I := sourceCalls) (.readRanges ranges)

/-- A step that reads nothing from the source. -/
def lift (outcome : Code α) : Walk α := Dialogue.lift outcome

theorem lift_bind {β : Type} (outcome : Code α) (next : α → Code β) :
    lift (outcome >>= next) = lift outcome >>= fun a => lift (next a) :=
  Dialogue.lift_bind outcome next

@[simp] theorem lift_ok_bind {β : Type} (a : α) (k : α → Walk β) : (lift (.ok a) >>= k) = k a := rfl

/-- Run a walk over one source. -/
def against (walk : Walk α) (source : ByteSource) : Code α := walk.run source.answer

variable (source : ByteSource)

@[simp] theorem against_size : size.against source = .ok source.size := rfl

@[simp] theorem against_readExactAt (offset len : Nat) :
    (readExactAt offset len).against source = source.readExactAt offset len :=
  Dialogue.run_query source.answer (.readExactAt offset len)

@[simp] theorem against_readVec (offset len : Nat) :
    (readVec offset len).against source = source.readVec offset len :=
  Dialogue.run_query source.answer (.readVec offset len)

@[simp] theorem against_readRanges (ranges : List (Nat × Nat)) :
    (readRanges ranges).against source = source.readRanges ranges :=
  Dialogue.run_query source.answer (.readRanges ranges)

@[simp] theorem against_lift (outcome : Code α) : (lift outcome).against source = outcome := rfl

@[simp] theorem against_pure (a : α) : (pure a : Walk α).against source = .ok a := rfl

@[simp] theorem against_bind {β : Type} (walk : Walk α) (k : α → Walk β) :
    (walk >>= k).against source = walk.against source >>= fun a => (k a).against source :=
  Dialogue.run_bind source.answer walk k

theorem asked_readVec (offset len : Nat) :
    (readVec offset len).asked source.answer = [.readVec offset len] :=
  Dialogue.asked_query source.answer (.readVec offset len)

theorem asked_bind {β : Type} {source : ByteSource} {walk : Walk α} {k : α → Walk β} {a : α}
    (returned : walk.against source = .ok a) :
    (walk >>= k).asked source.answer = walk.asked source.answer ++ (k a).asked source.answer :=
  Dialogue.asked_bind source.answer returned

theorem asked_lift (outcome : Code α) : (lift outcome).asked source.answer = [] := rfl

end Walk

/-- The bytes of a file. Offsets into it are signed, which bounds its length. -/
structure FileImage where
  bytes : Bytes
  bounded : bytes.length ≤ isizeMax

namespace FileImage

variable (file : FileImage)

def size : Nat := file.bytes.length

/-- Whether a range lies in the file. -/
def Holds (offset len : Nat) : Prop := offset + len ≤ file.size

instance (offset len : Nat) : Decidable (file.Holds offset len) := inferInstanceAs (Decidable (_ ≤ _))

/-- The bytes of a range. -/
def part (offset len : Nat) : Bytes := slice file.bytes offset len

theorem size_lt : file.size < wordSize := lt_of_le_of_lt file.bounded isizeMax_lt_wordSize

end FileImage

theorem FileImage.part_length {file : FileImage} {offset len : Nat} (held : file.Holds offset len) :
    (file.part offset len).length = len := slice_length file.bytes held

/-- `FileSource`: positional reads of one open file. -/
def fileSource (file : FileImage) : ByteSource where
  size := file.size
  readExactAt := readExactAt
  readVec := ByteSource.defaultReadVec readExactAt
  readRanges := ByteSource.defaultReadRanges (ByteSource.defaultReadVec readExactAt)
where
  readExactAt (offset len : Nat) : Code Bytes :=
    if saturatingAdd offset len > file.size then
      .error (.outOfBounds "file" offset len (file.size - offset))
    else .ok (file.part offset len)

/-- `MemorySource`: a buffer that holds the whole file. -/
def memorySource (file : FileImage) : ByteSource where
  size := file.size
  readExactAt := readExactAt
  readVec := ByteSource.defaultReadVec readExactAt
  readRanges := ByteSource.defaultReadRanges (ByteSource.defaultReadVec readExactAt)
where
  readExactAt (offset len : Nat) : Code Bytes :=
    let end_ := saturatingAdd offset len
    if end_ > file.size then .error (.outOfBounds "buffer" offset len (file.size - offset))
    else range file.bytes offset end_

structure AsyncByteSource where
  size : Nat
  readAt : Nat → Nat → Code Bytes
  readRanges : List (Nat × Nat) → Code (List Bytes)

/-- What an asynchronous source of a file serves: the file's bytes for ranges in
the file, an error for a range that runs past its end. -/
structure AsyncByteSource.Serves (source : AsyncByteSource) (file : FileImage) : Prop where
  size : source.size = file.size
  readAt : ∀ offset len, file.Holds offset len → source.readAt offset len = .ok (file.part offset len)
  readAt_beyond : ∀ offset len, len ≤ isizeMax → ¬ file.Holds offset len →
    ∃ e, source.readAt offset len = .error e
  readRanges : ∀ ranges : List (Nat × Nat), (∀ range ∈ ranges, file.Holds range.1 range.2) →
    source.readRanges ranges = .ok (ranges.map fun range => file.part range.1 range.2)
  readRanges_beyond : ∀ ranges : List (Nat × Nat), (∀ range ∈ ranges, range.2 ≤ isizeMax) →
    (∃ range ∈ ranges, ¬ file.Holds range.1 range.2) → ∃ e, source.readRanges ranges = .error e

/-- `SyncAsAsync`: a synchronous source behind the asynchronous interface. -/
def syncAsAsync (source : ByteSource) : AsyncByteSource where
  size := source.size
  readAt := source.readVec
  readRanges := source.readRanges

section Reading

variable (file : FileImage) {offset len : Nat}

/-- A range past the end stays past it when the sum of offset and length saturates. -/
theorem saturatingAdd_gt_size : saturatingAdd offset len > file.size ↔ ¬ file.Holds offset len := by
  have bounded := file.bounded
  unfold saturatingAdd FileImage.Holds FileImage.size isizeMax wordSize at *
  omega

theorem fileSource_readExactAt (offset len : Nat) :
    (fileSource file).readExactAt offset len =
      if file.Holds offset len then .ok (file.part offset len)
      else .error (.outOfBounds "file" offset len (file.size - offset)) := by
  change fileSource.readExactAt file offset len = _
  by_cases held : file.Holds offset len
  · rw [fileSource.readExactAt, if_neg (mt (saturatingAdd_gt_size file).mp (not_not_intro held)),
      if_pos held]
  · rw [fileSource.readExactAt, if_pos ((saturatingAdd_gt_size file).mpr held), if_neg held]

theorem memorySource_readExactAt (offset len : Nat) :
    (memorySource file).readExactAt offset len =
      if file.Holds offset len then .ok (file.part offset len)
      else .error (.outOfBounds "buffer" offset len (file.size - offset)) := by
  change memorySource.readExactAt file offset len = _
  unfold memorySource.readExactAt
  by_cases held : file.Holds offset len
  · have sum : saturatingAdd offset len = offset + len := by
      have bounded := file.size_lt
      unfold saturatingAdd
      unfold FileImage.Holds at held
      omega
    rw [if_pos held, sum, if_neg (Nat.not_lt.mpr held)]
    exact range_of_le file.bytes held
  · rw [if_neg held]
    exact if_pos ((saturatingAdd_gt_size file).mpr held)

theorem fileSource_readVec (offset len : Nat) (small : len ≤ isizeMax) :
    (fileSource file).readVec offset len =
      if file.Holds offset len then .ok (file.part offset len)
      else .error (.outOfBounds "file" offset len (file.size - offset)) := by
  rw [← fileSource_readExactAt]
  change zeroed len >>= (fun _ => (fileSource file).readExactAt offset len) = _
  rw [zeroed_of_le small, Outcome.ok_bind]

theorem FileImage.Holds.le_isizeMax {file : FileImage} {offset len : Nat}
    (held : file.Holds offset len) : len ≤ isizeMax := by
  have := file.bounded
  unfold FileImage.Holds FileImage.size at held
  omega

/-- What a file answers to a read lies in it. -/
theorem holds_of_readVec {file : FileImage} {bytes : Bytes}
    (read : (fileSource file).readVec offset len = .ok bytes) :
    file.Holds offset len ∧ bytes.length = len := by
  by_cases small : len ≤ isizeMax
  · rw [fileSource_readVec file offset len small] at read
    split at read
    · next held =>
      cases read
      exact ⟨held, FileImage.part_length held⟩
    · cases read
  · change (zeroed len >>= fun _ => (fileSource file).readExactAt offset len) = _ at read
    rw [zeroed, if_neg small] at read
    cases read

/-- The file itself, read asynchronously, serves the file. -/
theorem syncAsAsync_serves : (syncAsAsync (fileSource file)).Serves file where
  size := rfl
  readAt offset len held := by
    change (fileSource file).readVec offset len = _
    rw [fileSource_readVec file offset len held.le_isizeMax, if_pos held]
  readAt_beyond offset len small beyond := by
    refine ⟨.outOfBounds "file" offset len (file.size - offset), ?_⟩
    change (fileSource file).readVec offset len = _
    rw [fileSource_readVec file offset len small, if_neg beyond]
  readRanges ranges held := by
    change ByteSource.defaultReadRanges (fileSource file).readVec ranges = _
    induction ranges with
    | nil => rfl
    | cons range ranges ih =>
      have here := held range (by simp)
      rw [ByteSource.defaultReadRanges_cons, fileSource_readVec file _ _ here.le_isizeMax, if_pos here,
        ih fun later member => held later (by simp [member])]
      rfl
  readRanges_beyond ranges small beyond := by
    change ∃ e, ByteSource.defaultReadRanges (fileSource file).readVec ranges = .error e
    induction ranges with
    | nil => simp at beyond
    | cons range ranges ih =>
      rw [ByteSource.defaultReadRanges_cons, fileSource_readVec file _ _ (small range (by simp))]
      by_cases here : file.Holds range.1 range.2
      · have later : ∃ r ∈ ranges, ¬ file.Holds r.1 r.2 := by
          obtain ⟨r, member, outside⟩ := beyond
          rcases List.mem_cons.mp member with rfl | member
          · exact absurd here outside
          · exact ⟨r, member, outside⟩
        obtain ⟨e, failed⟩ := ih (fun r member => small r (by simp [member])) later
        exact ⟨e, by rw [if_pos here, Outcome.ok_bind, failed]; rfl⟩
      · exact ⟨_, by rw [if_neg here]; rfl⟩

end Reading

end Oxcdf
