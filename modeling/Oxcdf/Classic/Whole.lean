import Oxcdf.Classic.Opening

/-! The header in a window that grows, and the header of the whole file.

A prefix that is long enough for the header gives the header of every longer one, so
the first window that does is as good as the file. The window is multiplied unchecked,
so it can pass the largest word when no window below 2 ^ 62 is enough.
-/

set_option autoImplicit false

namespace Oxcdf.Classic

open Foundation Foundation.Buffer

section Loop

/-- The loop of `ClassicFile::from_source`: from a window it ends in an outcome. -/
inductive Grows (build : Build) (source : ByteSource) (container : Container) : Nat → Code Header → Prop where
  | failed {window : Nat} {e : Error} : source.readVec 0 window = .error e →
      Grows build source container window (.error e)
  | aborted {window : Nat} {why : Panic} : source.readVec 0 window = .panic why →
      Grows build source container window (.panic why)
  | parsed {window : Nat} {buf : Bytes} : source.readVec 0 window = .ok buf →
      ¬ (Short (Header.parse build buf container) ∧ window < source.size) →
      Grows build source container window (Header.parse build buf container)
  | grown {window wider : Nat} {buf : Bytes} {outcome : Code Header} : source.readVec 0 window = .ok buf →
      Short (Header.parse build buf container) → window < source.size →
      (build.mul window 4 : Code Nat) = .ok wider →
      Grows build source container (min wider source.size) outcome → Grows build source container window outcome
  | overflowed {window : Nat} {buf : Bytes} {why : Panic} : source.readVec 0 window = .ok buf →
      Short (Header.parse build buf container) → window < source.size →
      (build.mul window 4 : Code Nat) = .panic why → Grows build source container window (.panic why)

/-- The same result, or a panic in both. -/
def SameResult (first second : Code Header) : Prop := first = second ∨ first.Panics ∧ second.Panics

/-- The loop of a file ends, in the result of parsing the whole file. -/
def EndsWhole (build : Build) (container : Container) (image : FileImage) : Prop :=
  ∃ outcome, Grows build (fileSource image) container (min image.size (2 ^ 16)) outcome ∧
    SameResult outcome (Header.parse build image.bytes container)

/-- The header runs out of the last window that can be multiplied, and the rest of the file is there to be
parsed. -/
def OutgrowsWord (build : Build) (container : Container) (image : FileImage) : Prop :=
  2 ^ 62 < image.size ∧ Short (Header.parse build (image.bytes.take (2 ^ 62)) container) ∧
    (build = .debug → ¬ SizesOverflow container image.bytes)

end Loop

section Turns

variable {build : Build} {container : Container} {image : FileImage}

theorem parse_longer {buf : Bytes} {smaller larger : Nat} (le : smaller ≤ larger) (within : larger ≤ buf.length)
    (enough : ¬ Short (Header.parse build (buf.take smaller) container)) :
    Header.parse build (buf.take larger) container = Header.parse build (buf.take smaller) container := by
  have inside : smaller ≤ (buf.take larger).length := by rwa [List.length_take_of_le within]
  have front := @parse_window build container (buf.take larger) smaller inside
  rw [List.take_take, Nat.min_eq_left le] at front
  rcases front with runs | same
  · exact absurd runs enough
  · exact same.symm

/-- A turn that does not grow the window parses like the whole file. -/
theorem grows_last {window : Nat} (within : window ≤ image.size)
    (last : ¬ (Short (Header.parse build (image.bytes.take window) container) ∧ window < image.size)) :
    Grows build (fileSource image) container window (Header.parse build image.bytes container) := by
  have ended := Grows.parsed (readVec_front within) last
  by_cases short : Short (Header.parse build (image.bytes.take window) container)
  · obtain rfl : window = image.bytes.length :=
      Nat.le_antisymm within (Nat.not_lt.mp fun more => last ⟨short, more⟩)
    rwa [List.take_length] at ended
  · have whole := parse_longer (show window ≤ image.bytes.length from within) (le_refl _) short
    rw [List.take_length] at whole
    rwa [← whole] at ended

theorem window_lt {turns : Nat} (bound : turns < 23) : 2 ^ 16 * 4 ^ turns * 4 ≤ 2 ^ 62 := by
  have powers := Nat.pow_le_pow_right (show 0 < 4 by decide) (show turns + 1 ≤ 23 by omega)
  rw [Nat.pow_succ] at powers
  omega

theorem next_window {turns : Nat} (bound : turns < 23) (more : min image.size (2 ^ 16 * 4 ^ turns) < image.size) :
    (build.mul (min image.size (2 ^ 16 * 4 ^ turns)) 4 : Code Nat) = .ok (2 ^ 16 * 4 ^ turns * 4) ∧
      min (2 ^ 16 * 4 ^ turns * 4) image.size = min image.size (2 ^ 16 * 4 ^ (turns + 1)) := by
  have grown := window_lt bound
  have small : 2 ^ 16 * 4 ^ turns * 4 < wordSize := by
    unfold wordSize
    omega
  have window : min image.size (2 ^ 16 * 4 ^ turns) = 2 ^ 16 * 4 ^ turns := by omega
  constructor
  · rw [window]
    exact Build.word_of_lt build small
  · rw [Nat.min_comm, @Nat.pow_succ 4 turns, Nat.mul_assoc]

theorem grows_next {turns : Nat} (bound : turns < 23)
    (short : Short (Header.parse build (image.bytes.take (min image.size (2 ^ 16 * 4 ^ turns))) container))
    (more : min image.size (2 ^ 16 * 4 ^ turns) < image.size) {outcome : Code Header} :
    Grows build (fileSource image) container (min image.size (2 ^ 16 * 4 ^ turns)) outcome ↔
      Grows build (fileSource image) container (min image.size (2 ^ 16 * 4 ^ (turns + 1))) outcome := by
  have stored := readVec_front (Nat.min_le_left image.size (2 ^ 16 * 4 ^ turns))
  obtain ⟨product, next⟩ := @next_window build image turns bound more
  rw [← next]
  constructor
  · intro ended
    cases ended with
    | grown read short' more' product' later =>
      cases product.symm.trans product'
      exact later
    | failed read => cases stored.symm.trans read
    | aborted read => cases stored.symm.trans read
    | parsed read last =>
      cases stored.symm.trans read
      exact absurd ⟨short, more⟩ last
    | overflowed read short' more' product' => cases product.symm.trans product'
  · exact .grown stored short more product

/-- From every window the loop ends in the result of the whole file, unless the last window is not enough. -/
theorem grows_whole (fits : ¬ (2 ^ 62 < image.size ∧
      Short (Header.parse build (image.bytes.take (2 ^ 62)) container))) :
    ∀ left turns : Nat, left + turns = 23 →
      Grows build (fileSource image) container (min image.size (2 ^ 16 * 4 ^ turns))
        (Header.parse build image.bytes container) := by
  intro left
  induction left with
  | zero =>
    intro turns sum
    obtain rfl : turns = 23 := by omega
    refine grows_last (Nat.min_le_left _ _) ?_
    rintro ⟨short, more⟩
    have window : min image.size (2 ^ 16 * 4 ^ 23) = 2 ^ 62 := by omega
    rw [window] at short more
    exact fits ⟨more, short⟩
  | succ left ih =>
    intro turns sum
    by_cases more : Short (Header.parse build
      (image.bytes.take (min image.size (2 ^ 16 * 4 ^ turns))) container) ∧
        min image.size (2 ^ 16 * 4 ^ turns) < image.size
    · exact (grows_next (by omega) more.1 more.2).mpr (ih (turns + 1) (by omega))
    · exact grows_last (Nat.min_le_left _ _) more

/-- Where the last window is not enough, a checked build panics. -/
theorem grows_panics (large : 2 ^ 62 < image.size)
    (past : Short (Header.parse .debug (image.bytes.take (2 ^ 62)) container)) :
    ∀ left turns : Nat, left + turns = 23 →
      Grows .debug (fileSource image) container (min image.size (2 ^ 16 * 4 ^ turns)) (.panic .overflow) := by
  intro left
  induction left with
  | zero =>
    intro turns sum
    obtain rfl : turns = 23 := by omega
    have window : min image.size (2 ^ 16 * 4 ^ 23) = 2 ^ 62 := by omega
    rw [window]
    exact .overflowed (readVec_front large.le) past large rfl
  | succ left ih =>
    intro turns sum
    have grown := @window_lt turns (by omega)
    have short := short_front (show min image.size (2 ^ 16 * 4 ^ turns) ≤ 2 ^ 62 by omega) large.le past
    exact (grows_next (by omega) short (by omega)).mpr (ih (turns + 1) (by omega))

theorem Grows.unique {source : ByteSource} {window : Nat} {first second : Code Header}
    (one : Grows build source container window first) (other : Grows build source container window second) :
    first = second := by
  induction one with
  | failed read => cases other <;> simp_all
  | aborted read => cases other <;> simp_all
  | parsed read last => cases other <;> simp_all
  | grown read short more product later ih =>
    cases other with
    | grown read' short' more' product' later' =>
      cases product.symm.trans product'
      exact ih later'
    | _ => simp_all
  | overflowed read short more product => cases other <;> simp_all

/-- Where the last window is not enough, an unchecked build does not end: its window wraps to nothing. -/
theorem not_grows_release (large : 2 ^ 62 < image.size)
    (past : Short (Header.parse .release (image.bytes.take (2 ^ 62)) container)) {window : Nat}
    (turn : window = 0 ∨ ∃ turns ≤ 23, window = 2 ^ 16 * 4 ^ turns) {outcome : Code Header} :
    ¬ Grows .release (fileSource image) container window outcome := by
  intro ended
  have bounded {turns : Nat} (bound : turns ≤ 23) : 2 ^ 16 * 4 ^ turns ≤ 2 ^ 62 := by
    have powers := Nat.pow_le_pow_right (show 0 < 4 by decide) bound
    omega
  have front {window : Nat} (turn : window = 0 ∨ ∃ turns ≤ 23, window = 2 ^ 16 * 4 ^ turns) : window ≤
    2 ^ 62 := by
    rcases turn with rfl | ⟨turns, bound, rfl⟩
    · exact Nat.zero_le _
    · exact bounded bound
  have stored {window : Nat} (turn : window = 0 ∨ ∃ turns ≤ 23, window = 2 ^ 16 * 4 ^ turns) :=
    @readVec_front window image ((front turn).trans large.le)
  induction ended with
  | failed read => cases read.symm.trans (stored turn)
  | aborted read => cases read.symm.trans (stored turn)
  | parsed read last =>
    cases read.symm.trans (stored turn)
    exact last ⟨short_front (front turn) large.le past, (front turn).trans_lt large⟩
  | @grown window wider buf outcome read short more product later ih =>
    refine ih ?_
    cases (Build.word_release (window * 4)).symm.trans product
    have sizes : (fileSource image).size = image.size := rfl
    rw [sizes]
    rcases turn with rfl | ⟨turns, bound, rfl⟩
    · left
      exact Nat.zero_min _
    · rcases Nat.lt_or_eq_of_le bound with before | rfl
      · right
        have grown := window_lt before
        refine ⟨turns + 1, before, ?_⟩
        have small : 2 ^ 16 * 4 ^ turns * 4 < wordSize := by
          unfold wordSize
          omega
        rw [Nat.mod_eq_of_lt small, Nat.min_eq_left (by omega), @Nat.pow_succ 4 turns, Nat.mul_assoc]
      · left
        exact Nat.zero_min _
  | overflowed read short more product =>
    cases (Build.word_release _).symm.trans product

/-- The windows that are left to a turn are enough of a budget: where the loop ends, the walk that counts them down
ends alike. -/
theorem parseWindow_of_grows {outcome : Code Header} : ∀ left turns : Nat, left + turns = 23 →
    Grows build (fileSource image) container (min image.size (2 ^ 16 * 4 ^ turns)) outcome →
      parseWindow build (fileSource image) container (left + 1) (min image.size (2 ^ 16 * 4 ^ turns)) = outcome := by
  intro left
  induction left with
  | zero =>
    intro turns sum ended
    obtain rfl : turns = 23 := by omega
    have stored := readVec_front (Nat.min_le_left image.size (2 ^ 16 * 4 ^ 23))
    by_cases growing : Short (Header.parse build (image.bytes.take (min image.size (2 ^ 16 * 4 ^ 23))) container) ∧
        min image.size (2 ^ 16 * 4 ^ 23) < image.size
    · obtain ⟨short, more⟩ := growing
      rw [parseWindow_of_short stored short more]
      have window : min image.size (2 ^ 16 * 4 ^ 23) = 2 ^ 62 := by omega
      rw [window] at short more ended ⊢
      -- The next window is no word, which only the checked build notices.
      cases build with
      | debug => exact (grows_panics more short 0 23 rfl).unique (by rwa [window])
      | release => exact absurd ended (not_grows_release more short (.inr ⟨23, le_rfl, rfl⟩))
    · rw [parseWindow_of_last stored growing]
      exact (Grows.parsed stored growing).unique ended
  | succ left ih =>
    intro turns sum ended
    have stored := readVec_front (Nat.min_le_left image.size (2 ^ 16 * 4 ^ turns))
    by_cases growing : Short (Header.parse build (image.bytes.take (min image.size (2 ^ 16 * 4 ^ turns))) container) ∧
        min image.size (2 ^ 16 * 4 ^ turns) < image.size
    · obtain ⟨short, more⟩ := growing
      rw [parseWindow_of_short stored short more]
      obtain ⟨product, next⟩ := @next_window build image turns (by omega) more
      have size : (fileSource image).size = image.size := rfl
      rw [product, Outcome.ok_bind, size, next]
      exact ih (turns + 1) (by omega) ((grows_next (by omega) short more).mp ended)
    · rw [parseWindow_of_last stored growing]
      exact (Grows.parsed stored growing).unique ended

/-- A classic file is opened with the header that the loop ends in. -/
theorem fromSource_of_grows {outcome : Code Header} (held : image.Holds 0 4)
    (magic : containerOf (image.part 0 4) = .ok container)
    (ended : Grows build (fileSource image) container (min image.size (2 ^ 16)) outcome) :
    ClassicFile.fromSource build (fileSource image) =
      outcome >>= fun header => .ok { header with source := fileSource image, container } := by
  have windows := parseWindow_of_grows 23 0 rfl ended
  unfold ClassicFile.fromSource
  rw [fileSource_readExactAt, if_pos held, Outcome.ok_bind, magic, Outcome.ok_bind]
  exact congrArg (· >>= _) windows

end Turns

section Opened

variable (build : Build) (container : Container) (image : FileImage)

/-- A prefix that is long enough is parsed like every longer one. The window that grows is therefore as good as
the whole file, unless it outgrows a word. -/
theorem growing_window_iff :
    (∀ smaller larger : Nat, smaller ≤ larger → larger ≤ image.size →
      ¬ Short (Header.parse build (image.bytes.take smaller) container) →
      Header.parse build (image.bytes.take larger) container =
        Header.parse build (image.bytes.take smaller) container) ∧
    (EndsWhole build container image ↔ ¬ OutgrowsWord build container image) := by
  refine ⟨fun smaller larger le within enough => parse_longer le within enough, ?_⟩
  have first : min image.size (2 ^ 16 * 4 ^ 0) = min image.size (2 ^ 16) := by rw [Nat.pow_zero, Nat.mul_one]
  by_cases past : 2 ^ 62 < image.size ∧ Short (Header.parse build (image.bytes.take (2 ^ 62)) container)
  · obtain ⟨large, short⟩ := past
    cases build with
    | debug =>
      have panics := grows_panics large short 23 0 rfl
      have whole : (Header.parse .debug image.bytes container).Panics ↔ SizesOverflow container image.bytes :=
        parse_panics_iff image.bounded
      rw [first] at panics
      constructor
      · rintro ⟨outcome, ended, same⟩ ⟨-, -, calm⟩
        cases ended.unique panics
        refine calm rfl (whole.mp ?_)
        rcases same with same | both
        · exact ⟨.overflow, same.symm⟩
        · exact both.2
      · intro fits
        refine ⟨_, panics, .inr ⟨Outcome.panics_panic _, whole.mpr ?_⟩⟩
        by_contra calm
        exact fits ⟨large, short, fun _ => calm⟩
    | release =>
      refine iff_of_false ?_ (not_not_intro ⟨large, short, nofun⟩)
      rintro ⟨outcome, ended, -⟩
      refine not_grows_release large short (.inr ⟨0, Nat.zero_le 23, ?_⟩) ended
      rw [Nat.pow_zero, Nat.mul_one]
      omega
  · have ended := grows_whole past 23 0 rfl
    rw [first] at ended
    exact iff_of_true ⟨_, ended, .inl rfl⟩ fun outgrown => past ⟨outgrown.1, outgrown.2.1⟩

end Opened

section Vast

open Format

/-- The front of a header whose first dimension has a name of 2 ^ 62 bytes. -/
def vastFront : Bytes :=
  [0x43, 0x44, 0x46, 5] ++ (bigEndian 4 0 ++
    (bigEndian 4 ncDimension ++ (bigEndian 8 1 ++ bigEndian 8 (2 ^ 62))))

theorem vastFront_length : vastFront.length = 28 := by
  simp [vastFront, bigEndian_length]

/-- A file that ends behind this name. -/
def vastName : FileImage where
  bytes := vastFront ++ List.replicate (2 ^ 62) 0
  bounded := by
    rw [List.length_append, vastFront_length, List.length_replicate]
    decide

theorem readName_short {build : Build} {before after : Bytes} {len : Nat} (fits : len < 256 ^ 8)
    (few : after.length < len) :
    ∃ e middle, readName build .cdf5 ⟨before ++ (bigEndian 8 len ++ after), before.length⟩ =
      (.error (.outOfBounds "metadata" e len (before ++ bigEndian 8 len ++ after).length), middle) := by
  unfold readName
  have sized : Reads (readSize .cdf5) (bigEndian 8 len) len := reads_beU64 fits
  rw [sized.step]
  have past : (before ++ bigEndian 8 len).length + len > (before ++ bigEndian 8 len ++ after).length := by
    rw [@List.length_append _ (before ++ bigEndian 8 len) after]
    omega
  exact ⟨_, _, Session.bind_error (if_pos past)⟩

theorem parse_vastFront {build : Build} {rest : Bytes} (few : rest.length < 2 ^ 62) :
    Short (Header.parse build (vastFront ++ rest) .cdf5) := by
  have magic := Cursor.reads_skip [0x43, 0x44, 0x46, 5]
  have counted : Reads beU32 (bigEndian 4 0) 0 := reads_beU32 (by decide)
  have tagged : Reads beU32 (bigEndian 4 ncDimension) ncDimension := reads_beU32 (by decide)
  have listed : Reads (readSize .cdf5) (bigEndian 8 1) 1 := reads_beU64 (by decide)
  have name {before : Bytes} := @readName_short build before rest (2 ^ 62) (by decide) few
  have front : vastFront ++ rest = [] ++ ([0x43, 0x44, 0x46, 5] ++ (bigEndian 4 0 ++
      (bigEndian 4 ncDimension ++ (bigEndian 8 1 ++ (bigEndian 8 (2 ^ 62) ++ rest))))) := by
    simp only [vastFront, List.append_assoc, List.nil_append]
  have dimension {before : Bytes} : ∃ at_ available middle,
      readDimension build .cdf5 ⟨before ++ (bigEndian 8 (2 ^ 62) ++ rest), before.length⟩ =
        (.error (.outOfBounds "metadata" at_ (2 ^ 62) available), middle) := by
    obtain ⟨at_, middle, failed⟩ := @name before
    exact ⟨at_, _, middle, Session.bind_error failed⟩
  have dimensions {before : Bytes} : ∃ at_ available middle,
      readDimensions build .cdf5 ⟨before ++ (bigEndian 4 ncDimension ++ (bigEndian 8 1 ++
        (bigEndian 8 (2 ^ 62) ++ rest))), before.length⟩ =
        (.error (.outOfBounds "metadata" at_ (2 ^ 62) available), middle) := by
    obtain ⟨at_, available, middle, failed⟩ := @dimension (before ++ bigEndian 4 ncDimension ++ bigEndian 8 1)
    unfold readDimensions
    rw [tagged.step, listed.step, if_pos rfl]
    exact ⟨at_, available, middle, Session.bind_error failed⟩
  obtain ⟨at_, available, middle, failed⟩ := @dimensions ([] ++ [0x43, 0x44, 0x46, 5] ++ bigEndian 4 0)
  refine ⟨"metadata", at_, 2 ^ 62, available, ?_⟩
  rw [front]
  unfold Header.parse Header.read
  refine congrArg Prod.fst (?_ : _ = (_, middle))
  refine (magic.step _ [] _).trans ?_
  rw [counted.step]
  exact Session.bind_error failed

/-- In an unchecked build this file is never opened. -/
theorem vastName_endless : ¬ EndsWhole .release .cdf5 vastName := by
  rintro ⟨outcome, ended, -⟩
  have size : vastName.size = 28 + 2 ^ 62 := by
    unfold FileImage.size vastName
    rw [List.length_append, vastFront_length, List.length_replicate]
  have window : vastName.bytes.take (2 ^ 62) = vastFront ++ List.replicate (2 ^ 62 - 28) 0 := by
    unfold vastName
    rw [List.take_append, vastFront_length, List.take_of_length_le (by rw [vastFront_length]; decide),
      List.take_replicate, Nat.min_eq_left (by decide)]
  refine not_grows_release (by omega) ?_ (.inr ⟨0, Nat.zero_le 23, ?_⟩) ended
  · rw [window]
    exact parse_vastFront (by rw [List.length_replicate]; decide)
  · rw [size]
    decide

end Vast

end Oxcdf.Classic
