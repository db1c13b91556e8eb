import Oxcdf.Btree2.Layout
import Oxcdf.FractalHeap.Panic

/-! When reading a version 2 B-tree panics: when a checked build derives a count that is no
word. What a node asks for is small enough, whatever the header declares. -/

set_option autoImplicit false

namespace Oxcdf.BtreeV2

open Foundation Foundation.Buffer Foundation.Format Cursor

section Nodes

variable {view : View} {layout : NodeLayout} {recordSize : Nat}

theorem steady_node (signature : Bytes) (letters node : String) :
    Steady (expectNode signature letters node) := by
  unfold expectNode
  apply (steady_take 4).bind
  intro found
  split
  · exact Steady.throw _
  · exact (Steady.pure ()).bind fun _ => steady_skip 2

theorem steady_pointer (offsetSize nrecSize totalSize : Nat) :
    Steady (readPointer offsetSize nrecSize totalSize) :=
  (steady_uint _).bind fun _ => (steady_uint _).bind fun _ => (steady_skipIf _ _).bind fun _ => Steady.pure _

theorem steady_entries (offsetSize depth recordCount : Nat) :
    Steady (readEntries layout recordSize offsetSize depth recordCount) :=
  ((steady_take recordSize).times recordCount).bind fun _ =>
    ((steady_pointer _ _ _).times (recordCount + 1)).bind fun _ => Steady.pure _

/-- Widths that the derivation of a layout keeps to. -/
structure NodeLayout.Narrow (layout : NodeLayout) : Prop where
  count : layout.maxNrecSize ≤ 4
  total : ∀ depth, layout.childTotalSize depth ≤ 8

theorem yields_pointer {offsetSize nrecSize : Nat} (few : nrecSize ≤ 4) (totalSize : Nat) :
    (readPointer offsetSize nrecSize totalSize).Yields fun child => child.2 < 256 ^ 4 := by
  refine Session.Yields.last fun address => (yields_uint (nrecSize % 256)).bind fun records small => ?_
  refine Session.Yields.last fun _ => Session.Yields.pure ?_
  exact lt_of_lt_of_le small (Nat.pow_le_pow_right (by decide) ((Nat.mod_le _ _).trans few))

theorem yields_entries {offsetSize depth recordCount : Nat} (few : layout.maxNrecSize ≤ 4) :
    (readEntries layout recordSize offsetSize depth recordCount).Yields fun entries =>
      ∀ child ∈ entries.2, child.2 < 256 ^ 4 := by
  refine Session.Yields.last fun records => ?_
  refine (yields_times (yields_pointer few _) (recordCount + 1)).bind fun children small => ?_
  exact Session.Yields.pure small

variable {address recordCount : Nat}

theorem leafLen_le (recordWidth : recordSize < 256 ^ 2) (count : recordCount < 256 ^ 4) :
    leafLen recordSize recordCount ≤ isizeMax := by
  have product : recordCount * recordSize ≤ 256 ^ 4 * 256 ^ 2 := Nat.mul_le_mul count.le recordWidth.le
  unfold leafLen nodeOverhead isizeMax
  omega

theorem internalLen_le {pointerSize : Nat} (recordWidth : recordSize < 256 ^ 2)
    (pointerWidth : pointerSize ≤ 20)
    (count : recordCount < 256 ^ 4) : internalLen recordSize pointerSize recordCount ≤ isizeMax := by
  have records : recordCount * recordSize ≤ 256 ^ 4 * 256 ^ 2 := Nat.mul_le_mul count.le recordWidth.le
  have pointers : (recordCount + 1) * pointerSize ≤ 256 ^ 4 * 20 := Nat.mul_le_mul count pointerWidth
  unfold internalLen nodeOverhead isizeMax
  omega

theorem four_le_of_node {signature : Bytes} {letters node : String} (block : Bytes) (found : Unit)
    (cursor : Cursor) (opened : expectNode signature letters node (Cursor.start block) = (.ok found, cursor)) :
    4 ≤ block.length := four_le_of_take opened

theorem readLeaf_safe (recordWidth : recordSize < 256 ^ 2) (count : recordCount < 256 ^ 4) :
    ¬ (readLeaf view recordSize address recordCount).Panics := by
  intro panics
  have steady := steady_node btlfSignature "BTLF" "leaf"
  rcases (View.open_panics (fun _ _ cursor => (Format.times (take recordSize) recordCount cursor).1)
    (fun block => block.length - 4)
      (fun _ whole => congrArg (· - 4) whole) steady four_le_of_node).mp panics with
    large | ⟨block, found, cursor, opened, later⟩
  · exact absurd large (Nat.not_lt.mpr (leafLen_le recordWidth count))
  · exact ((steady_take recordSize).times recordCount).safe cursor (opened.inBounds steady) later

theorem readInternal_safe {depth : Nat} (recordWidth : recordSize < 256 ^ 2)
    (offsetWidth : view.sizes.offset ≤ 8) (narrow : layout.Narrow) (count : recordCount < 256 ^ 4) :
    ¬ (readInternal view layout recordSize address depth recordCount).Panics := by
  intro panics
  have steady := steady_node btinSignature "BTIN" "internal node"
  have pointerWidth : layout.pointerSize view.sizes.offset depth ≤ 20 := by
    have few := narrow.count
    have total := narrow.total depth
    unfold NodeLayout.pointerSize
    omega
  rcases (View.open_panics
    (fun _ _ cursor => (readEntries layout recordSize view.sizes.offset depth recordCount cursor).1)
    (fun block => block.length - 4)
      (fun _ whole => congrArg (· - 4) whole) steady four_le_of_node).mp panics with
    large | ⟨block, found, cursor, opened, later⟩
  · exact absurd large (Nat.not_lt.mpr (internalLen_le recordWidth pointerWidth count))
  · exact (steady_entries _ _ _).safe cursor (opened.inBounds steady) later

/-- What an internal node says of its children is as small as its fields are. -/
theorem readInternal_counts {depth : Nat} (narrow : layout.Narrow) {entries : List Bytes × List (Nat × Nat)}
    (found : readInternal view layout recordSize address depth recordCount = .ok entries) :
    ∀ child ∈ entries.2, child.2 < 256 ^ 4 := by
  obtain ⟨buf, -, later⟩ := Outcome.bind_eq_ok.mp found
  obtain ⟨⟨⟩, -, later⟩ := Outcome.bind_eq_ok.mp later
  obtain ⟨⟨⟩, -, later⟩ := Outcome.bind_eq_ok.mp later
  exact yields_entries narrow.count _ entries _ (Prod.ext later rfl)

end Nodes

section Collecting

variable {view : View} {layout : NodeLayout} {recordSize : Nat}

theorem visit_safe (state : Collected) : ¬ visit.Panics state := by
  unfold Session.Panics visit
  dsimp only
  split <;> simp

theorem push_safe (records : List Bytes) (state : Collected) : ¬ (push records).Panics state := nofun

theorem collectChildren_safe {step : Nat → Nat → Collect Unit} {children : List (Nat × Nat)}
    (each : ∀ child ∈ children, ∀ state, ¬ (step child.1 child.2).Panics state) (records : List Bytes)
    (state : Collected) : ¬ (collectChildren step children records).Panics state := by
  induction children generalizing records state with
  | nil => exact Session.not_panics_pure () state
  | cons child children ih =>
    rw [collectChildren, Session.panics_bind]
    rintro (here | ⟨-, after, -, later⟩)
    · exact each child List.mem_cons_self state here
    · rw [Session.panics_bind] at later
      obtain ⟨-, pushed, -, later⟩ := later.resolve_left (push_safe _ after)
      exact ih (fun child member => each child (List.mem_cons_of_mem _ member)) (records.drop 1) pushed later

/-- Collecting the records of a tree never panics, however it is damaged. -/
theorem collect_safe (recordWidth : recordSize < 256 ^ 2) (offsetWidth : view.sizes.offset ≤ 8)
    (narrow : layout.Narrow) (depth : Nat) {address recordCount : Nat} (count : recordCount < 256 ^ 4)
    (state : Collected) : ¬ (collect view layout recordSize depth address recordCount).Panics state := by
  induction depth generalizing address recordCount state with
  | zero =>
    rw [collect, Session.panics_bind]
    rintro (here | ⟨-, after, -, later⟩)
    · exact visit_safe state here
    · rw [Session.panics_bind] at later
      obtain ⟨records, pushed, -, later⟩ := later.resolve_left (readLeaf_safe recordWidth count)
      exact push_safe records pushed later
  | succ depth ih =>
    rw [collect, Session.panics_bind]
    rintro (here | ⟨-, after, -, later⟩)
    · exact visit_safe state here
    · rw [Session.panics_bind] at later
      obtain ⟨entries, middle, read, later⟩ :=
        later.resolve_left (readInternal_safe recordWidth offsetWidth narrow count)
      have small := readInternal_counts narrow (Session.lift_eq_ok.mp read).1
      exact collectChildren_safe (fun child member state => ih (small child member) state)
        entries.1 middle later

end Collecting

section Deriving

variable {build : Build} {nodeSize recordSize offsetSize depth : Nat}

theorem deriveLevels_release : ¬ (deriveLevels .release nodeSize recordSize offsetSize depth).Panics := by
  have wraps (n : Nat) : ¬ (Build.release.word n : Code Nat).Panics := by simp [Build.word_panics]
  induction depth with
  | zero => exact Outcome.not_panics_ok _
  | succ depth ih =>
    refine Outcome.not_panics_bind ih fun levels => ?_
    refine Outcome.not_panics_bind ?_ fun next => Outcome.not_panics_ok _
    unfold nextLevel
    dsimp only
    exact Outcome.not_panics_bind (wraps _) fun _ => Outcome.not_panics_bind (wraps _) fun _ =>
      Outcome.not_panics_bind (wraps _) fun _ => Outcome.not_panics_ok _

theorem derive_panics (positive : 0 < recordSize) (word : nodeSize < wordSize) :
    (NodeLayout.derive build nodeSize recordSize depth offsetSize).Panics ↔
      build = .debug ∧ wordSize ≤ (derivedLevel nodeSize recordSize offsetSize depth).cumMaxNrec := by
  rw [NodeLayout.derive, Outcome.panics_bind]
  cases build with
  | debug => simp [deriveLevels_debug positive word]
  | release => simp [deriveLevels_release]

theorem deriveLevels_narrow {levels : List Level}
    (found : deriveLevels build nodeSize recordSize offsetSize depth = .ok levels) :
    ∀ level ∈ levels, level.cumMaxNrecSize ≤ 8 := by
  induction depth generalizing levels with
  | zero =>
    cases found
    simp [leafLevel]
  | succ depth ih =>
    obtain ⟨before, earlier, later⟩ := Outcome.bind_eq_ok.mp found
    obtain ⟨next, step, done⟩ := Outcome.bind_eq_ok.mp later
    cases done
    obtain ⟨pointers, -, step⟩ := Outcome.bind_eq_ok.mp step
    obtain ⟨inChildren, -, step⟩ := Outcome.bind_eq_ok.mp step
    obtain ⟨cum, counted, same⟩ := Outcome.bind_eq_ok.mp step
    cases same
    intro level member
    rcases List.mem_append.mp member with old | new
    · exact ih earlier level old
    · cases List.mem_singleton.mp new
      exact encSize_le (by decide) (Build.lt_of_word_eq_ok counted)

/-- The widths of a layout follow from counts that are words. -/
theorem derive_narrow {layout : NodeLayout} (small : nodeSize < 256 ^ 4)
    (derived : NodeLayout.derive build nodeSize recordSize depth offsetSize = .ok layout) : layout.Narrow := by
  obtain ⟨levels, found, rfl⟩ := derive_eq_ok.mp derived
  constructor
  · have leaf : leafMax nodeSize recordSize ≤ nodeSize := (Nat.div_le_self _ _).trans (Nat.sub_le _ _)
    exact encSize_le (by decide) (lt_of_le_of_lt leaf small)
  · intro d
    unfold NodeLayout.childTotalSize
    split
    · rw [List.getD_eq_getElem?_getD, List.getElem?_map]
      cases here : levels[d - 1]? with
      | none => exact Nat.zero_le 8
      | some level => exact deriveLevels_narrow found level (List.mem_of_getElem? here)
    · exact Nat.zero_le 8

end Deriving

section Reading

variable {build : Build} {view : View} {sizes : Sizes} {address : Nat}

theorem steady_fields : Steady (parseFields sizes) := by
  unfold parseFields
  exact (FractalHeap.steady_start _ _ _).bind fun _ => steady_u8.bind fun _ => steady_u32.bind fun _ =>
    steady_u16.bind fun _ => steady_u16.bind fun _ => steady_u8.bind fun _ => steady_u8.bind fun _ =>
    (steady_address sizes).bind fun _ => steady_u16.bind fun _ =>
      (steady_length sizes).bind fun _ => Steady.pure _

theorem steady_header : Steady (parseHeader sizes) :=
  steady_fields.bind fun header => (FractalHeap.steady_checksum _).bind fun _ =>
    Steady.ite (Steady.throw _) (Steady.pure header)

theorem readHeader_safe : ¬ (readHeader view address).Panics :=
  Outcome.not_panics_bind View.readUpto_safe fun buf => steady_header.fst_safe (inBounds_start buf)

/-- Bounds that the fields of a header have from their widths, and those it is checked for. -/
structure Header.Bounded (header : Header) : Prop where
  nodeSize : header.nodeSize < 256 ^ 4
  recordSize : 0 < header.recordSize ∧ header.recordSize < 256 ^ 2
  rootRecords : header.rootRecords < 256 ^ 2

theorem yields_fields : (parseFields sizes).Yields fun header =>
    header.nodeSize < 256 ^ 4 ∧ header.recordSize < 256 ^ 2 ∧ header.rootRecords < 256 ^ 2 := by
  unfold parseFields
  iterate 2 refine Session.Yields.last fun _ => ?_
  refine yields_u32.bind fun nodeSize small => yields_u16.bind fun recordSize narrow => ?_
  iterate 4 refine Session.Yields.last fun _ => ?_
  refine yields_u16.bind fun rootRecords few => Session.Yields.last fun _ => ?_
  exact Session.Yields.pure ⟨small, narrow, few⟩

theorem bounded_of_read {header : Header} (found : readHeader view address = .ok header) : header.Bounded := by
  obtain ⟨buf, -, parsed⟩ := Outcome.bind_eq_ok.mp found
  have yields : (parseHeader view.sizes).Yields Header.Bounded := by
    refine yields_fields.bind fun header ⟨small, narrow, few⟩ => Session.Yields.last fun _ => ?_
    split
    · exact Session.Yields.throw _
    · next possible => exact Session.Yields.pure ⟨small, ⟨by omega, narrow⟩, few⟩
  exact yields _ header _ (Prod.ext parsed rfl)

theorem collectRoot_safe {layout : NodeLayout} {header : Header} (bounded : header.Bounded)
    (offsetWidth : view.sizes.offset ≤ 8) (narrow : layout.Narrow) :
    ¬ (collectRoot view layout header).Panics := by
  unfold collectRoot
  cases header.rootAddress with
  | none => exact Outcome.not_panics_ok _
  | some root =>
    have count : header.rootRecords < 256 ^ 4 := bounded.rootRecords.trans (by decide)
    exact Outcome.not_panics_bind
      (collect_safe bounded.recordSize.2 offsetWidth narrow header.depth count ⟨[], 0⟩)
      fun _ => Outcome.not_panics_ok _

/-- A tree whose header is read, and whose counts a checked build cannot take. -/
def Uncountable (build : Build) (view : View) (address : Nat) : Prop :=
  build = .debug ∧ ∃ header, readHeader view address = .ok header ∧
    wordSize ≤ (derivedLevel header.nodeSize header.recordSize view.sizes.offset header.depth).cumMaxNrec

theorem read_panics (offsetWidth : view.sizes.offset ≤ 8) :
    (read build view address).Panics ↔ Uncountable build view address := by
  rw [read, Outcome.panics_bind, or_iff_right readHeader_safe, Uncountable, ← exists_and_left]
  apply exists_congr
  intro header
  rw [and_left_comm]
  apply and_congr_right
  intro found
  have bounded := bounded_of_read found
  rw [Outcome.panics_bind, derive_panics bounded.recordSize.1 (bounded.nodeSize.trans (by decide))]
  apply or_iff_left
  rintro ⟨layout, derived, panics⟩
  have narrow := derive_narrow bounded.nodeSize derived
  exact Outcome.not_panics_bind (collectRoot_safe bounded offsetWidth narrow)
    (fun _ => Outcome.not_panics_ok _) panics

end Reading

end Oxcdf.BtreeV2
