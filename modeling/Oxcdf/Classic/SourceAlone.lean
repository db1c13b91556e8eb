import Oxcdf.Classic.Read
import Oxcdf.Classic.RoundTrip
import Oxcdf.Replay.Rounds

/-! Which source the data of a classic read come from.

The addresses of a read are computed from the header alone. A record variable
and a scalar are then read from the source passed in, and such a read is a
strict walk with known requests. Any other variable is read from the source its
file was opened over, whatever is passed in.
-/

set_option autoImplicit false

namespace Oxcdf.Classic

open Foundation Foundation.Buffer

variable {build : Build}

/-- The runs of a read and its zeroed output, before anything is read. -/
def plan (build : Build) (recordStride : Nat) (var : ClassicVariable) (slab : Hyperslab) :
    Code (List (Code Run) × Bytes) := do
  let _ ← slab.validate var.shape
  let total ← Outcome.ofOption ClassicFile.selectionTooLarge
    (checkedMul slab.elementCount var.ncType.size)
  let out ← zeroed total
  let runs ←
    if var.isRecord then recordRuns build recordStride var slab var.ncType.size
    else fixedRuns build var slab var.ncType.size
  .ok (runs, out)

def native (size : Nat) (out : Bytes) : Bytes := if size > 1 then reverseElements size out else out

/-- A read whose data come through one way of reading. -/
def readPlan (build : Build) (recordStride : Nat) (var : ClassicVariable) (slab : Hyperslab)
    (read : Nat → Nat → Walk Bytes) : Walk Bytes :=
  Walk.lift (plan build recordStride var slab) >>= fun planned =>
    readRuns build var.ncType.size read planned.1 planned.2 >>= fun out =>
      pure (native var.ncType.size out)

/-- How a file reads a variable. -/
def ClassicFile.reader (file : ClassicFile) (var : ClassicVariable) : Nat → Nat → Walk Bytes :=
  if var.isRecord ∨ var.shape.length = 0 then Walk.readVec
  else fun offset len => Walk.lift (file.source.readVec offset len)

theorem readSelectionWith_eq (file : ClassicFile) (var : ClassicVariable) (slab : Hyperslab) :
    file.readSelectionWith build var slab =
      readPlan build file.recordStride var slab (file.reader var) := by
  unfold ClassicFile.readSelectionWith readPlan plan ClassicFile.reader
  simp only [Walk.lift_bind, bind_assoc]
  apply bind_congr
  intro _
  apply bind_congr
  intro total
  apply bind_congr
  intro out
  cases var.isRecord with
  | true =>
    simp only [ClassicFile.readRecordVariable, if_true, true_or, Walk.lift_bind, bind_assoc,
      Walk.lift_ok_bind]
    rfl
  | false =>
    simp only [ClassicFile.readFixedVariable, Bool.false_eq_true, if_false, false_or, Walk.lift_bind,
      bind_assoc, Walk.lift_ok_bind]
    apply bind_congr
    intro runs
    split <;> rfl

section Runs

variable {elementSize : Nat}

/-- Whether the bytes of a run can be copied to their place in an output. -/
def Run.Lands (build : Build) (elementSize length : Nat) (run : Run) : Prop :=
  ∃ db, (build.mul run.dst elementSize : Code Nat) = .ok db ∧
    (build.add db run.len : Code Nat) = .ok (db + run.len) ∧ db + run.len ≤ length

theorem place_of_lands {run : Run} {bytes out : Bytes} (lands : run.Lands build elementSize out.length)
    (long : bytes.length = run.len) :
    ∃ later, place build elementSize run bytes out = .ok later ∧ later.length = out.length := by
  obtain ⟨db, start, stop, inside⟩ := lands
  refine ⟨splice out db bytes, ?_, splice_length out (by omega)⟩
  rw [place, start, Outcome.ok_bind, stop, Outcome.ok_bind, copyInto, if_pos (by omega)]

theorem lands_of_place {run : Run} {bytes out later : Bytes}
    (placed : place build elementSize run bytes out = .ok later) (long : bytes.length = run.len) :
    run.Lands build elementSize out.length ∧ later.length = out.length := by
  obtain ⟨db, start, placed⟩ := Outcome.bind_eq_ok.mp placed
  obtain ⟨stop, sum, placed⟩ := Outcome.bind_eq_ok.mp placed
  unfold copyInto at placed
  split at placed
  · next inside =>
    obtain ⟨ordered, within, fits⟩ := inside
    have exact_ : stop = db + run.len := by omega
    subst exact_
    cases placed
    exact ⟨⟨db, start, sum, within⟩, splice_length out (by omega)⟩
  · cases placed

theorem readRuns_unread {runs : List (Code Run)} (none_ : ∀ run rest, runs ≠ .ok run :: rest)
    (first second : Nat → Nat → Walk Bytes) (out : Bytes) :
    readRuns build elementSize first runs out = readRuns build elementSize second runs out := by
  match runs with
  | [] => rfl
  | .ok run :: rest => exact absurd rfl (none_ run rest)
  | .error e :: rest => rfl
  | .panic p :: rest => rfl

theorem readRuns_strict (runs : List (Code Run)) : ∀ out : Bytes,
    (readRuns build elementSize Walk.readVec runs out).Strict := by
  induction runs with
  | nil => exact fun _ => trivial
  | cons next runs ih =>
    intro out
    refine Walk.Strict.bind (Walk.Strict.lift next) fun run => ?_
    refine Walk.Strict.bind (Walk.Strict.readVec _ _) fun bytes => ?_
    exact Walk.Strict.bind (Walk.Strict.lift _) fun later => ih later

variable (image : FileImage)

/-- Runs that lie in the file and land in the output are all requested and read. -/
theorem readRuns_of_inside {runs : List Run} : ∀ {out : Bytes},
    (∀ run ∈ runs, image.Holds run.offset run.len ∧ run.Lands build elementSize out.length) →
    (∃ later, (readRuns build elementSize Walk.readVec (runs.map .ok) out).against (fileSource image) =
        .ok later) ∧
      (readRuns build elementSize Walk.readVec (runs.map .ok) out).asked (fileSource image).answer =
        runs.map fun run => .readVec run.offset run.len := by
  induction runs with
  | nil => exact fun _ => ⟨⟨_, rfl⟩, rfl⟩
  | cons run runs ih =>
    intro out inside
    obtain ⟨held, lands⟩ := inside run (by simp)
    have read : (fileSource image).readVec run.offset run.len = .ok (image.part run.offset run.len) :=
      (fileSource_readVec image _ _ held.le_isizeMax).trans (if_pos held)
    obtain ⟨later, placed, same⟩ := place_of_lands lands (FileImage.part_length held)
    obtain ⟨⟨last, whole⟩, asked⟩ := @ih later fun other member => by
      rw [same]
      exact inside other (by simp [member])
    have reads : ((Walk.readVec run.offset run.len).against (fileSource image)) =
        .ok (image.part run.offset run.len) := (Walk.against_readVec _ _ _).trans read
    constructor
    · refine ⟨last, ?_⟩
      simp only [List.map_cons, readRuns, Walk.lift_ok_bind, Walk.against_bind, reads, Outcome.ok_bind,
        Walk.against_lift, placed, whole]
    · rw [List.map_cons, List.map_cons, readRuns, Walk.lift_ok_bind, Walk.asked_bind reads,
        Walk.asked_readVec, placed, Walk.lift_ok_bind, asked]
      rfl

theorem inside_of_readRuns {runs : List (Code Run)} : ∀ {out last : Bytes},
    (readRuns build elementSize Walk.readVec runs out).against (fileSource image) = .ok last →
    ∃ found : List Run, runs = found.map .ok ∧
      ∀ run ∈ found, image.Holds run.offset run.len ∧ run.Lands build elementSize out.length := by
  induction runs with
  | nil => exact fun _ => ⟨[], rfl, by simp⟩
  | cons next runs ih =>
    intro out last whole
    simp only [readRuns, Walk.against_bind, Walk.against_lift, Walk.against_readVec] at whole
    obtain ⟨run, available, reading⟩ := Outcome.bind_eq_ok.mp whole
    obtain ⟨bytes, read, placing⟩ := Outcome.bind_eq_ok.mp reading
    obtain ⟨later, placed, rest⟩ := Outcome.bind_eq_ok.mp placing
    obtain ⟨held, long⟩ := holds_of_readVec read
    obtain ⟨lands, same⟩ := lands_of_place placed long
    obtain ⟨found, others, inside⟩ := ih rest
    refine ⟨run :: found, by rw [available, others, List.map_cons], fun other member => ?_⟩
    rcases List.mem_cons.mp member with rfl | member
    · exact ⟨held, lands⟩
    · exact same ▸ inside other member

end Runs

section Opening

def ClassicFile.Opened (build : Build) (file : ClassicFile) : Prop :=
  ClassicFile.fromSource build file.source = .ok file

theorem parseWindow_eq_ok {source : ByteSource} {container : Container} {header : Header} :
    ∀ {budget window : Nat}, parseWindow build source container budget window = .ok header →
      ∃ buf, Header.parse build buf container = .ok header := by
  intro budget
  induction budget with
  | zero =>
    intro window parsed
    rw [parseWindow] at parsed
    obtain ⟨buf, -, parsed⟩ := Outcome.bind_eq_ok.mp parsed
    refine ⟨buf, ?_⟩
    split at parsed
    · split at parsed <;> cases parsed
    · exact parsed
  | succ budget ih =>
    intro window parsed
    rw [parseWindow] at parsed
    obtain ⟨buf, -, parsed⟩ := Outcome.bind_eq_ok.mp parsed
    split at parsed
    · split at parsed
      · obtain ⟨wider, -, parsed⟩ := Outcome.bind_eq_ok.mp parsed
        exact ih parsed
      · cases parsed
    · exact ⟨buf, parsed⟩

theorem fromSource_eq_ok {source : ByteSource} {file : ClassicFile}
    (opened : ClassicFile.fromSource build source = .ok file) :
    file.source = source ∧ ∃ magic buf, source.readExactAt 0 4 = .ok magic ∧
      containerOf magic = .ok file.container ∧
      Header.parse build buf file.container = .ok file.toHeader := by
  obtain ⟨magic, found, opened⟩ := Outcome.bind_eq_ok.mp opened
  obtain ⟨container, known, opened⟩ := Outcome.bind_eq_ok.mp opened
  obtain ⟨header, parsed, opened⟩ := Outcome.bind_eq_ok.mp opened
  cases opened
  obtain ⟨buf, here⟩ := parseWindow_eq_ok parsed
  exact ⟨rfl, magic, buf, found, known, here⟩

/-- A source that shows a header once and then fails. -/
def failing (magic buf : Bytes) (size : Nat) (e : Error) : ByteSource where
  size
  readExactAt _ _ := .ok magic
  readVec offset len := if offset = 0 ∧ len = size then .ok buf else .error e
  readRanges _ := .error e

/-- A header over a source that failed after it was read. -/
def lost (header : Header) (container : Container) (magic buf : Bytes) (size : Nat) (e : Error) :
    ClassicFile :=
  { header with source := failing magic buf size e, container }

theorem lost_opened {magic buf : Bytes} {container : Container} {header : Header}
    (known : containerOf magic = .ok container)
    (parsed : Header.parse build buf container = .ok header) {size : Nat} (small : size ≤ 2 ^ 16)
    (e : Error) :
    (lost header container magic buf size e).Opened build := by
  have window : parseWindow build (failing magic buf size e) container 24 (min size (2 ^ 16)) =
      .ok header := by
    rw [Nat.min_eq_left small, parseWindow]
    simp only [failing, and_self, if_true, Outcome.ok_bind, parsed]
  change (Outcome.ok magic >>= fun magic => _) = _
  rw [Outcome.ok_bind, known, Outcome.ok_bind]
  change (parseWindow build (failing magic buf size e) container 24 (min size (2 ^ 16)) >>= _) = _
  rw [window]
  rfl

end Opening

section Sources

/-- The result of a read does not depend on the source the file was opened over. -/
def SourceAlone (build : Build) (header : Header) (var : ClassicVariable) (slab : Hyperslab) : Prop :=
  ∀ first second : ClassicFile, first.Opened build → second.Opened build →
    first.toHeader = header → second.toHeader = header → ∀ source : ByteSource,
      (first.readSelectionWith build var slab).against source =
        (second.readSelectionWith build var slab).against source

/-- What the synchronous read of a file returns, the asynchronous read over any
source that serves the file returns, whatever source its file was opened over. -/
def AsyncAgrees (build : Build) (image : FileImage) (file : ClassicFile) (requestSize : Nat)
    (name : String) (var : ClassicVariable) (slab : Hyperslab) : Prop :=
  ∀ stored : ClassicFile, stored.Opened build → stored.toHeader = file.toHeader →
    ∀ source : AsyncByteSource, source.Serves image → ∀ bytes,
      file.readSelection build var slab = .ok bytes →
        stored.readClassicSelection build source requestSize name slab = .ok bytes

/-- The read gets to a first run, of a fixed-size variable of rank at least one. -/
def ReadsStored (build : Build) (recordStride : Nat) (var : ClassicVariable) (slab : Hyperslab) : Prop :=
  var.isRecord = false ∧ var.shape ≠ [] ∧
    ∃ run rest out, plan build recordStride var slab = .ok (.ok run :: rest, out)

/-- When every run of the read lies in the file, the driver has a round for each
run that touches a page neither the first page nor touched by an earlier run, and
one more. -/
def Affordable (build : Build) (image : FileImage) (recordStride requestSize : Nat)
    (var : ClassicVariable) (slab : Hyperslab) : Prop :=
  ∀ (runs : List Run) (out : Bytes),
    plan build recordStride var slab = .ok (runs.map .ok, out) →
    (∀ run ∈ runs, image.Holds run.offset run.len ∧
      run.Lands build var.ncType.size out.length) →
    freshReads (max requestSize 1) [0] (runs.map fun run => (run.offset, run.len)) < maxRounds

variable {var : ClassicVariable} {slab : Hyperslab}

/-- Unless it reaches a run of its own source, a read goes through the one passed in. -/
theorem readSelectionWith_passed {file : ClassicFile}
    (elsewhere : ¬ ReadsStored build file.recordStride var slab) :
    file.readSelectionWith build var slab = readPlan build file.recordStride var slab Walk.readVec := by
  rw [readSelectionWith_eq]
  by_cases passed : var.isRecord = true ∨ var.shape.length = 0
  · rw [ClassicFile.reader, if_pos passed]
  · unfold readPlan
    cases planned : plan build file.recordStride var slab with
    | error e => rfl
    | panic p => rfl
    | ok runs =>
      rw [Walk.lift_ok_bind, Walk.lift_ok_bind, readRuns_unread fun run rest first => elsewhere ⟨?_, ?_, ?_⟩]
      · simpa using (not_or.mp passed).1
      · exact mt (congrArg List.length) (not_or.mp passed).2
      · exact ⟨run, rest, runs.2, by rw [planned, ← first]⟩

/-- A read that reaches a run of its own source fails when that source does. -/
theorem readSelectionWith_failing (file : ClassicFile) {run : Run} {rest : List (Code Run)} {out : Bytes}
    (fixed : var.isRecord = false) (axes : var.shape ≠ [])
    (planned : plan build file.recordStride var slab = .ok (.ok run :: rest, out)) {e : Error}
    (fails : file.source.readVec run.offset run.len = .error e) (source : ByteSource) :
    (file.readSelectionWith build var slab).against source = .error e := by
  have stored : file.reader var = fun offset len => Walk.lift (file.source.readVec offset len) := by
    rw [ClassicFile.reader, if_neg (by simp [fixed, axes])]
  rw [readSelectionWith_eq, readPlan, planned, stored, Walk.lift_ok_bind, readRuns, Walk.lift_ok_bind, fails]
  rfl

theorem not_sourceAlone {file : ClassicFile} (opened : file.Opened build)
    (reads : ReadsStored build file.recordStride var slab) :
    ¬ SourceAlone build file.toHeader var slab := by
  intro alone
  obtain ⟨fixed, axes, run, rest, out, planned⟩ := reads
  obtain ⟨-, magic, buf, -, known, parsed⟩ := fromSource_eq_ok opened
  -- A front window of another length than the first run.
  obtain ⟨size, small, differs⟩ : ∃ size, size ≤ 2 ^ 16 ∧ run.len ≠ size := by
    by_cases one : run.len = 1
    · exact ⟨2, by decide, by omega⟩
    · exact ⟨1, by decide, one⟩
  have result : ∀ e : Error,
      ((lost file.toHeader file.container magic buf size e).readSelectionWith build var slab).against
        file.source = .error e := by
    intro e
    refine readSelectionWith_failing (lost file.toHeader file.container magic buf size e) fixed axes
      planned ?_ _
    simp only [lost, failing, differs, and_false, if_false]
  have same := alone _ _ (lost_opened known parsed small .incomplete)
    (lost_opened known parsed small (.io "lost")) rfl rfl file.source
  rw [result, result] at same
  cases same

/-- The window that a data read starts with is the first page. -/
theorem window_front (requestSize size : Nat) :
    (Replay.window (max requestSize 1) requestSize size).elements = [0] := by
  have one : max ((requestSize + max requestSize 1 - 1) / max requestSize 1) 1 = 1 := by
    rcases Nat.eq_zero_or_pos requestSize with rfl | positive
    · rfl
    · rw [Nat.max_eq_left positive, Nat.max_eq_right]
      rw [← Nat.lt_succ_iff, Nat.div_lt_iff_lt_mul positive]
      omega
  rw [Replay.window, one, Nat.min_eq_left (Nat.succ_le_succ (Nat.zero_le _))]
  rfl

theorem readPlan_strict (recordStride : Nat) :
    (readPlan build recordStride var slab Walk.readVec).Strict := by
  refine Walk.Strict.bind (Walk.Strict.lift _) fun planned => ?_
  exact Walk.Strict.bind (readRuns_strict planned.1 planned.2) fun out => trivial

variable {image : FileImage} {file : ClassicFile} {name : String}

/-- The asynchronous read of what comes from the source passed in. -/
theorem asyncAgrees_iff (opened : ClassicFile.fromSource build (fileSource image) = .ok file)
    (named : file.variableNamed name = some var) (valid : slab.validate var.shape = .ok ())
    (requestSize : Nat) (elsewhere : ¬ ReadsStored build file.recordStride var slab) :
    AsyncAgrees build image file requestSize name var slab ↔
      Affordable build image file.recordStride requestSize var slab := by
  obtain ⟨stands, magic, buf, found, -, -⟩ := fromSource_eq_ok opened
  have nonempty : 0 < image.size := by
    rw [fileSource_readExactAt] at found
    split at found
    · next held =>
      unfold FileImage.Holds at held
      omega
    · cases found
  have whole : file.readSelection build var slab =
      (readPlan build file.recordStride var slab Walk.readVec).against (fileSource image) := by
    rw [ClassicFile.readSelection, readSelectionWith_passed elsewhere, stands]
  have driven : ∀ (stored : ClassicFile) (source : AsyncByteSource), stored.toHeader = file.toHeader →
      stored.readClassicSelection build source requestSize name slab =
        (replay source none requestSize requestSize
          (readPlan build file.recordStride var slab Walk.readVec)).1 := by
    intro stored source same
    have there : stored.variableNamed name = some var := by
      rw [← named, ClassicFile.variableNamed, ClassicFile.variableNamed, same]
    rw [ClassicFile.readClassicSelection, there, Outcome.ofOption_some, Outcome.ok_bind, valid,
      Outcome.ok_bind, readSelectionWith_passed (by rw [same]; exact elsewhere), same]
  -- Where the whole read succeeds, its requests are the runs and all lie in the file.
  have rounds : ∀ (runs : List Run) (out : Bytes),
      plan build file.recordStride var slab = .ok (runs.map .ok, out) →
      (∀ run ∈ runs, image.Holds run.offset run.len ∧ run.Lands build var.ncType.size out.length) →
      ∃ bytes, (readPlan build file.recordStride var slab Walk.readVec).against (fileSource image) =
          .ok bytes ∧
        ∀ source : AsyncByteSource, source.Serves image →
          (replay source none requestSize requestSize
            (readPlan build file.recordStride var slab Walk.readVec)).1 =
              if freshReads (max requestSize 1) [0] (runs.map fun run => (run.offset, run.len)) < maxRounds
              then .ok bytes else .error Replay.roundLimit := by
    intro runs out planned inside
    obtain ⟨⟨last, read⟩, asked⟩ := readRuns_of_inside image inside
    have returns : (readPlan build file.recordStride var slab Walk.readVec).against (fileSource image) =
        .ok (native var.ncType.size last) := by
      rw [readPlan, planned, Walk.lift_ok_bind, Walk.against_bind, read]
      rfl
    refine ⟨_, returns, fun source serves => ?_⟩
    have requests : (readPlan build file.recordStride var slab Walk.readVec).asked
        (fileSource image).answer = (runs.map fun run => (run.offset, run.len)).map
          fun range => .readVec range.1 range.2 := by
      rw [readPlan, planned, Walk.lift_ok_bind, Walk.asked_bind read, asked, List.map_map]
      exact List.append_nil _
    have driver := @replay_strict _ source image serves nonempty none (by simp) requestSize requestSize _
      (readPlan_strict file.recordStride) _ _ requests ?_ returns
    · rwa [window_front] at driver
    · intro range member
      obtain ⟨run, here, rfl⟩ := List.mem_map.mp member
      exact (inside run here).1
  constructor
  · intro agrees runs out planned inside
    obtain ⟨bytes, returns, driver⟩ := rounds runs out planned inside
    have same := agrees file (by rw [ClassicFile.Opened, stands]; exact opened) rfl _
      (syncAsAsync_serves image) bytes (whole.trans returns)
    rw [driven file _ rfl, driver _ (syncAsAsync_serves image)] at same
    by_contra unaffordable
    rw [if_neg unaffordable] at same
    cases same
  · intro affordable stored _ same source serves bytes returned
    rw [whole] at returned
    rw [driven stored source same]
    have reading := returned
    rw [readPlan, Walk.against_bind, Walk.against_lift] at reading
    obtain ⟨⟨runs, out⟩, planned, reading⟩ := Outcome.bind_eq_ok.mp reading
    rw [Walk.against_bind] at reading
    obtain ⟨last, read, -⟩ := Outcome.bind_eq_ok.mp reading
    obtain ⟨found, rfl, inside⟩ := inside_of_readRuns image read
    obtain ⟨result, returns, driver⟩ := rounds found out planned inside
    rw [driver source serves, if_pos (affordable found out planned inside), ← returns, returned]

/-- A classic read depends on the source passed in alone, and agrees with its
asynchronous form, exactly when it reaches no run of a fixed-size variable with
axes and the driver has enough rounds for its runs. -/
theorem read_source_alone_iff (opened : ClassicFile.fromSource build (fileSource image) = .ok file)
    (named : file.variableNamed name = some var) (valid : slab.validate var.shape = .ok ())
    (requestSize : Nat) :
    (SourceAlone build file.toHeader var slab ∧
        AsyncAgrees build image file requestSize name var slab) ↔
      ¬ ReadsStored build file.recordStride var slab ∧
        Affordable build image file.recordStride requestSize var slab := by
  constructor
  · rintro ⟨alone, agrees⟩
    have elsewhere : ¬ ReadsStored build file.recordStride var slab := fun reads =>
      not_sourceAlone (by rw [ClassicFile.Opened, (fromSource_eq_ok opened).1]; exact opened) reads alone
    exact ⟨elsewhere, (asyncAgrees_iff opened named valid requestSize elsewhere).mp agrees⟩
  · rintro ⟨elsewhere, affordable⟩
    refine ⟨fun first second _ _ same other source => ?_,
      (asyncAgrees_iff opened named valid requestSize elsewhere).mpr affordable⟩
    rw [readSelectionWith_passed (by rw [same]; exact elsewhere),
      readSelectionWith_passed (by rw [other]; exact elsewhere), same, other]

/-- A file that starts with the code of a header opens as this header, when it fits the first window. -/
theorem opened_of_encode {header : StoredHeader} (fits : header.Fits .cdf1)
    (small : header.recordBytes < wordSize)
    {image : FileImage} {rest : Bytes} (content : image.bytes = header.encode .cdf1 ++ rest)
    (window : image.size ≤ 2 ^ 16) :
    ClassicFile.Opened build { header.meant with source := fileSource image, container := .cdf1 } := by
  have start : image.part 0 4 = magic .cdf1 := by
    rw [FileImage.part, content]
    rfl
  have four : 4 ≤ image.size := by
    rw [FileImage.size, content]
    exact Nat.le_add_left 4 _
  have front : (fileSource image).readExactAt 0 4 = .ok (magic .cdf1) := by
    rw [fileSource_readExactAt, if_pos (by rw [FileImage.Holds]; omega), start]
  have all : (fileSource image).readVec 0 image.size = .ok (header.encode .cdf1 ++ rest) := by
    rw [fileSource_readVec _ _ _ (show image.size ≤ isizeMax from image.bounded),
      if_pos (by rw [FileImage.Holds]; omega), ← content]
    exact congrArg Outcome.ok (List.take_of_length_le (Nat.le_refl _))
  have parsed : Header.parse build (header.encode .cdf1 ++ rest) .cdf1 = .ok header.meant :=
    congrArg Prod.fst (@reads_header build .cdf1 (by decide) header fits small [] rest)
  have whole : min image.size (2 ^ 16) = image.size := Nat.min_eq_left window
  have windowed : parseWindow build (fileSource image) .cdf1 24 (min image.size (2 ^ 16)) =
    .ok header.meant := by
    rw [whole, parseWindow, all, Outcome.ok_bind, parsed]
  change ((fileSource image).readExactAt 0 4 >>= fun magic => _) = _
  rw [front, Outcome.ok_bind]
  change (parseWindow build (fileSource image) .cdf1 24 (min image.size (2 ^ 16)) >>= fun header => _) = _
  rw [windowed]
  rfl

/-- A variable of one byte over an axis, and a scalar. -/
def axisVariable : StoredVariable :=
  { name := "v", dimIds := [0], attributes := [], ncType := .byte, vsize := 0, begin := 112 }

def scalarVariable : StoredVariable :=
  { name := "s", dimIds := [], attributes := [], ncType := .byte, vsize := 0, begin := 113 }

def axisAndScalar : StoredHeader where
  recordCount := 0
  dimensions := [⟨"x", 1⟩]
  attributes := []
  vars := [axisVariable, scalarVariable]

theorem axisAndScalar_length : (axisAndScalar.encode .cdf1).length = 112 := rfl

/-- The file with these two values. -/
def axisAndScalarImage (v s : UInt8) : FileImage :=
  ⟨axisAndScalar.encode .cdf1 ++ [v, s], by
    rw [List.length_append, axisAndScalar_length, List.length_cons, List.length_singleton]
    decide⟩

def axisAndScalarFile (v s : UInt8) : ClassicFile :=
  { axisAndScalar.meant with source := fileSource (axisAndScalarImage v s), container := .cdf1 }

theorem axisAndScalar_opened (v s : UInt8) : (axisAndScalarFile v s).Opened .debug :=
  opened_of_encode (by decide) (by decide) rfl
    (by
      rw [FileImage.size, axisAndScalarImage, List.length_append, axisAndScalar_length]
      exact (show 112 + 2 ≤ 2 ^ 16 by decide))

/-- The scalar is read from the source passed in, and asynchronously as well. -/
theorem read_source_alone_scalar :
    SourceAlone .debug axisAndScalar.meant (scalarVariable.meant axisAndScalar.resolved) ⟨[], []⟩ ∧
      AsyncAgrees .debug (axisAndScalarImage 5 7) (axisAndScalarFile 5 7) 64 "s"
        (scalarVariable.meant axisAndScalar.resolved) ⟨[], []⟩ :=
  (read_source_alone_iff (axisAndScalar_opened 5 7) (by rfl) (by decide +kernel) 64).mpr
    ⟨fun reads => reads.2.1 rfl, fun runs out planned _ => by
      have here : plan .debug axisAndScalar.meant.recordStride
          (scalarVariable.meant axisAndScalar.resolved) ⟨[], []⟩ =
            .ok ([⟨113, 1, 0⟩].map .ok, [0]) := by decide +kernel
      have same := Outcome.ok.inj (here.symm.trans planned)
      have runsEq := List.map_injective_iff.mpr (fun _ _ => Outcome.ok.inj) (congrArg Prod.fst same)
      subst runsEq
      decide⟩

/-- Two files with one header and other data: the read of the first one's byte
through a file opened over the second returns the second one's. -/
theorem read_uses_stored_source :
    (axisAndScalarFile 5 7).Opened .debug ∧ (axisAndScalarFile 6 7).Opened .debug ∧
    (axisAndScalarFile 5 7).toHeader = (axisAndScalarFile 6 7).toHeader ∧
    (axisAndScalarFile 5 7).variableNamed "v" = some (axisVariable.meant axisAndScalar.resolved) ∧
    ((axisAndScalarFile 5 7).readSelectionWith .debug (axisVariable.meant axisAndScalar.resolved)
      ⟨[0], [1]⟩).against (fileSource (axisAndScalarImage 5 7)) = .ok [5] ∧
    ((axisAndScalarFile 6 7).readSelectionWith .debug (axisVariable.meant axisAndScalar.resolved)
      ⟨[0], [1]⟩).against (fileSource (axisAndScalarImage 5 7)) = .ok [6] ∧
    (axisAndScalarFile 6 7).readClassicSelection .debug
      (syncAsAsync (fileSource (axisAndScalarImage 5 7))) 64 "v" ⟨[0], [1]⟩ = .ok [6] :=
  ⟨axisAndScalar_opened 5 7, axisAndScalar_opened 6 7, rfl, rfl, by decide +kernel, by decide +kernel,
    by decide +kernel⟩

end Sources

end Oxcdf.Classic
