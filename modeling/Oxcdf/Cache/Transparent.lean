import Oxcdf.Cache

/-! Reads through the page cache compared with reads of the source itself. -/

set_option autoImplicit false

namespace Oxcdf

open Foundation Foundation.Buffer

/-- What a source of a file answers to `read_vec`: the file's bytes for a range in the
file, an error for one that runs past its end. -/
structure ByteSource.Serves (source : ByteSource) (file : FileImage) : Prop where
  size : source.size = file.size
  readVec : ∀ offset len, file.Holds offset len → source.readVec offset len = .ok (file.part offset len)
  readVec_beyond : ∀ offset len, len ≤ isizeMax → ¬ file.Holds offset len →
    ∃ e, source.readVec offset len = .error e

/-- A source of a file answers a batch of reads when every range lies in the file. -/
def ByteSource.ServesRanges (source : ByteSource) (file : FileImage) : Prop :=
  ∀ ranges blobs, source.readRanges ranges = .ok blobs ↔
    (∀ range ∈ ranges, file.Holds range.1 range.2) ∧ blobs = ranges.map fun range => file.part range.1 range.2

section Whole

variable {source : ByteSource} {file : FileImage} {reason : Nat → Nat → Error}

/-- A source that reads what is in the file, and reads into a buffer and batches as by default, serves the file. -/
theorem serves_of_default (size : source.size = file.size)
    (buffer : source.readVec = ByteSource.defaultReadVec source.readExactAt)
    (reads : ∀ offset len, source.readExactAt offset len =
      if file.Holds offset len then .ok (file.part offset len) else .error (reason offset len)) :
    source.Serves file where
  size := size
  readVec offset len held := by
    rw [buffer, ByteSource.defaultReadVec, zeroed_of_le held.le_isizeMax, Outcome.ok_bind, reads, if_pos held]
  readVec_beyond offset len small beyond :=
    ⟨_, by rw [buffer, ByteSource.defaultReadVec, zeroed_of_le small, Outcome.ok_bind, reads, if_neg beyond]⟩

theorem servesRanges_of_default (serves : source.Serves file)
    (buffer : source.readVec = ByteSource.defaultReadVec source.readExactAt)
    (batch : source.readRanges = ByteSource.defaultReadRanges source.readVec) : source.ServesRanges file := by
  intro ranges blobs
  rw [batch]
  refine Outcome.mapM_eq_ok fun range bytes => ?_
  by_cases held : file.Holds range.1 range.2
  · rw [serves.readVec _ _ held]
    exact ⟨fun same => ⟨held, (Outcome.ok.inj same).symm⟩, fun same => congrArg Outcome.ok same.2.symm⟩
  · refine iff_of_false (fun read => ?_) fun same => held same.1
    by_cases small : range.2 ≤ isizeMax
    · obtain ⟨e, failed⟩ := serves.readVec_beyond _ _ small held
      cases failed.symm.trans read
    · rw [buffer, ByteSource.defaultReadVec, zeroed, if_neg small] at read
      cases read

end Whole

theorem fileSource_serves (file : FileImage) : (fileSource file).Serves file :=
  serves_of_default rfl rfl (fileSource_readExactAt file)

theorem fileSource_servesRanges (file : FileImage) : (fileSource file).ServesRanges file :=
  servesRanges_of_default (fileSource_serves file) rfl rfl

/-- A buffer that holds the whole file serves it like the file itself. -/
theorem memorySource_serves (file : FileImage) : (memorySource file).Serves file :=
  serves_of_default rfl rfl (memorySource_readExactAt file)

theorem memorySource_servesRanges (file : FileImage) : (memorySource file).ServesRanges file :=
  servesRanges_of_default (memorySource_serves file) rfl rfl

namespace IoCache

variable {source : ByteSource} {file : FileImage} {cache : IoCache}

/-- Several reads through one cache. A read that fails does not end the sequence. -/
def readEach (source : ByteSource) : List (Nat × Nat) → IoCache → List (Code Bytes) × IoCache
  | [], cache => ([], cache)
  | (offset, len) :: reads, cache =>
    let (first, cache) := read source offset len cache
    let (others, cache) := readEach source reads cache
    (first :: others, cache)

/-- What a read through the cache returns, whatever the cache holds. -/
def outcome (file : FileImage) (offset len : Nat) : Code Bytes :=
  if len = 0 then .ok []
  else if file.Holds offset len then .ok (file.part offset len)
  else .error (.outOfBounds "cached read" offset len (file.size - offset))

-- The model of the cache computes with exact numbers. The largest is the end of the last
-- page that a read touches, and it is a word for every page size that is one.
theorem read_eq (serves : source.Serves file) (sound : cache.Sound file) (offset len : Nat) :
    (read source offset len cache).1 = outcome file offset len ∧
      (read source offset len cache).2.Sound file ∧
      (read source offset len cache).2.pageSize = cache.pageSize := by
  unfold read
  rw [serves.size]
  exact readThrough_spec serves.readVec offset len sound

theorem readEach_eq (serves : source.Serves file) (reads : List (Nat × Nat)) : ∀ {cache : IoCache},
    cache.Sound file →
      (readEach source reads cache).1 = reads.map (fun range => outcome file range.1 range.2) ∧
        (readEach source reads cache).2.Sound file := by
  induction reads with
  | nil =>
    intro cache sound
    exact ⟨rfl, sound⟩
  | cons range reads ih =>
    intro cache sound
    obtain ⟨first, kept, -⟩ := read_eq serves sound range.1 range.2
    obtain ⟨others, later⟩ := ih kept
    constructor
    · simp only [readEach, List.map_cons, first, others]
    · exact later

theorem outcome_of_held {offset len : Nat} (held : len = 0 ∨ file.Holds offset len) :
    outcome file offset len = .ok (file.part offset len) := by
  unfold outcome
  by_cases empty : len = 0
  · rw [if_pos empty, empty, FileImage.part, slice_zero]
  · rw [if_neg empty, if_pos (held.resolve_left empty)]

theorem outcome_of_beyond {offset len : Nat} (positive : 0 < len) (beyond : ¬ file.Holds offset len) :
    outcome file offset len = .error (.outOfBounds "cached read" offset len (file.size - offset)) := by
  unfold outcome
  rw [if_neg (Nat.pos_iff_ne_zero.mp positive), if_neg beyond]

theorem outcome_eq_error {offset len : Nat} :
    (∃ e, outcome file offset len = .error e) ↔ 0 < len ∧ ¬ file.Holds offset len := by
  constructor
  · rintro ⟨e, failed⟩
    by_contra fine
    rw [not_and_not_right] at fine
    rw [outcome_of_held (Nat.eq_zero_or_pos len |>.imp_right fine)] at failed
    cases failed
  · rintro ⟨positive, beyond⟩
    exact ⟨_, outcome_of_beyond positive beyond⟩

/-- A cached read and a direct one return the same bytes, or fail both. -/
def SameAnswer : Code Bytes → Code Bytes → Prop
  | .ok cached, .ok direct => cached = direct
  | .error _, .error _ => True
  | _, _ => False

theorem outcome_same (serves : source.Serves file) {offset len : Nat} (positive : 0 < len)
    (small : len ≤ isizeMax) : SameAnswer (outcome file offset len) (source.readVec offset len) := by
  by_cases held : file.Holds offset len
  · rw [outcome_of_held (.inr held), serves.readVec offset len held]
    exact rfl
  · obtain ⟨e, failed⟩ := serves.readVec_beyond offset len small held
    rw [outcome_of_beyond positive held, failed]
    exact trivial

/-- A cache of the file's pages is transparent, whatever it holds and drops: a read returns
the file's bytes, it fails if it asks for a byte past the end and only then, and the cache
holds the file's pages afterwards. So any reads of at least one byte return what the
source itself returns. -/
theorem read_transparent (serves : source.Serves file) (sound : cache.Sound file) :
    (∀ offset len,
      (len = 0 ∨ file.Holds offset len →
        (read source offset len cache).1 = .ok (file.part offset len)) ∧
      ((∃ e, (read source offset len cache).1 = .error e) ↔ 0 < len ∧ ¬ file.Holds offset len) ∧
      (read source offset len cache).2.Sound file) ∧
    ∀ reads : List (Nat × Nat),
      (readEach source reads cache).1.length = reads.length ∧
      (readEach source reads cache).2.Sound file ∧
      ∀ (i : Nat) (range : Nat × Nat), reads[i]? = some range → 0 < range.2 → range.2 ≤ isizeMax →
        ∃ answer, (readEach source reads cache).1[i]? = some answer ∧
          SameAnswer answer (source.readVec range.1 range.2) := by
  constructor
  · intro offset len
    obtain ⟨returned, kept, -⟩ := read_eq serves sound offset len
    rw [returned]
    exact ⟨outcome_of_held, outcome_eq_error, kept⟩
  · intro reads
    obtain ⟨returned, kept⟩ := readEach_eq serves reads sound
    rw [returned]
    refine ⟨List.length_map _, kept, fun i range here positive small => ?_⟩
    refine ⟨outcome file range.1 range.2, ?_, outcome_same serves positive small⟩
    rw [List.getElem?_map, here]
    rfl

/-- Nothing is held yet, and nothing is ever dropped. -/
def cold (pageSize : Nat) (positive : 0 < pageSize) : IoCache where
  pages := { held := fun _ => none, keep := fun _ _ => true, calls := 0 }
  pageSize
  positive

theorem cold_sound (file : FileImage) {pageSize : Nat} (positive : 0 < pageSize) :
    (cold pageSize positive).Sound file := nofun

theorem read_transparent_cold :
    (read (fileSource ⟨[1, 2, 3], by decide⟩) 1 2 (cold 2 (by decide))).1 = .ok [2, 3] :=
  ((read_transparent (fileSource_serves ⟨[1, 2, 3], by decide⟩)
    (cold_sound _ (by decide : 0 < 2))).1 1 2).1 (.inr (by decide))

/-- A read of nothing past the end of a file succeeds through a cache, and fails without
one. -/
theorem read_nothing_beyond :
    (cold 1 (by decide)).Sound ⟨[7], by decide⟩ ∧
      (readEach (fileSource ⟨[7], by decide⟩) [(2, 0)] (cold 1 (by decide))).1 = [.ok []] ∧
      (fileSource ⟨[7], by decide⟩).readVec 2 0 = .error (.outOfBounds "file" 2 0 0) := by
  refine ⟨cold_sound _ (by decide), rfl, ?_⟩
  rw [fileSource_readVec _ 2 0 (by decide), if_neg (by decide)]
  rfl

end IoCache

end Oxcdf
