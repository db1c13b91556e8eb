import Mathlib.Data.List.Basic
import Mathlib.Tactic.Linarith
import Oxcdf.Foundation.Outcome

/-! Flat buffers, slices of them and sequences of writes into them.

A write stores a run of entries at a position. A sequence of writes either
completes, and then it is `applyWrites`, or stops at the first write that is
not available or does not fit; where it stops depends on the buffer's length
only, never on what the buffer holds.
-/

set_option autoImplicit false

namespace Foundation.Buffer

variable {α ε : Type}

/-- The entries from `start` on, at most `len` of them. -/
def slice (entries : List α) (start len : Nat) : List α := (entries.drop start).take len

/-- Overwrite the entries from `start` on. -/
def splice (buffer : List α) (start : Nat) (entries : List α) : List α :=
  buffer.take start ++ entries ++ buffer.drop (start + entries.length)

/-- Indexing by a range, which panics unless the range lies in the buffer. -/
def range (entries : List α) (start stop : Nat) : Outcome ε (List α) :=
  if start ≤ stop ∧ stop ≤ entries.length then .ok (slice entries start (stop - start))
  else .panic .index

/-- Reverse every complete block of one size; what is left over stays. -/
def reverseBlocks (size : Nat) (entries : List α) : List α :=
  (List.range (entries.length / size)).flatMap (fun i => (slice entries (i * size) size).reverse) ++
    entries.drop (entries.length / size * size)

structure Write (α : Type) where
  start : Nat
  entries : List α
  deriving Repr

def Write.Fits (write : Write α) (length : Nat) : Prop := write.start + write.entries.length ≤ length

instance (write : Write α) (length : Nat) : Decidable (write.Fits length) :=
  inferInstanceAs (Decidable (_ ≤ _))

def Write.Covers (write : Write α) (i : Nat) : Prop :=
  write.start ≤ i ∧ i < write.start + write.entries.length

/-- Copy a run of entries into the buffer; out of range is a panic. -/
def store (buffer : List α) (write : Write α) : Outcome ε (List α) :=
  if write.Fits buffer.length then .ok (splice buffer write.start write.entries)
  else .panic .index

/-- Copy entries over the range from `start` to `stop`; a range outside the
buffer, or of another length than the entries, is a panic. -/
def copyInto (buffer : List α) (start stop : Nat) (entries : List α) : Outcome ε (List α) :=
  if start ≤ stop ∧ stop ≤ buffer.length ∧ entries.length = stop - start then
    .ok (splice buffer start entries)
  else .panic .index

/-- Perform writes as they become available. -/
def storeEach : List (Outcome ε (Write α)) → List α → Outcome ε (List α)
  | [], buffer => .ok buffer
  | next :: writes, buffer => do
    let write ← next
    let buffer ← store buffer write
    storeEach writes buffer

def applyWrites (buffer : List α) (writes : List (Write α)) : List α :=
  writes.foldl (fun current write => splice current write.start write.entries) buffer

theorem slice_length (entries : List α) {start len : Nat} (inside : start + len ≤ entries.length) :
    (slice entries start len).length = len := by
  simp only [slice, List.length_take, List.length_drop]
  omega

@[simp] theorem slice_zero (entries : List α) (start : Nat) : slice entries start 0 = [] := List.take_zero

theorem getElem?_slice (entries : List α) (start len i : Nat) :
    (slice entries start len)[i]? = if i < len then entries[start + i]? else none := by
  simp [slice, List.getElem?_take]

theorem range_of_le (entries : List α) {start len : Nat} (inside : start + len ≤ entries.length) :
    (range entries start (start + len) : Outcome ε (List α)) = .ok (slice entries start len) := by
  rw [range, if_pos ⟨Nat.le_add_right _ _, inside⟩, Nat.add_sub_cancel_left]

theorem range_eq_ok {entries result : List α} {start stop : Nat} :
    (range entries start stop : Outcome ε (List α)) = .ok result ↔
      start ≤ stop ∧ stop ≤ entries.length ∧ result = slice entries start (stop - start) := by
  unfold range
  split
  · next inside => simp [inside.1, inside.2, eq_comm]
  · next outside => simp only [reduceCtorEq, false_iff]; tauto

theorem splice_length (buffer : List α) {start : Nat} {entries : List α}
    (fits : start + entries.length ≤ buffer.length) :
    (splice buffer start entries).length = buffer.length := by
  simp only [splice, List.length_append, List.length_take, List.length_drop]
  omega

theorem getElem?_splice (buffer : List α) {start : Nat} {entries : List α}
    (fits : start + entries.length ≤ buffer.length) (i : Nat) :
    (splice buffer start entries)[i]? =
      if start ≤ i ∧ i < start + entries.length then entries[i - start]? else buffer[i]? := by
  have taken : (buffer.take start).length = start := by
    rw [List.length_take]
    omega
  unfold splice
  rw [List.append_assoc]
  rcases Nat.lt_or_ge i start with before | after
  · rw [List.getElem?_append_left (by omega), if_neg (by omega), List.getElem?_take, if_pos before]
  · rw [List.getElem?_append_right (by omega), taken]
    rcases Nat.lt_or_ge i (start + entries.length) with within | beyond
    · rw [List.getElem?_append_left (by omega), if_pos ⟨after, within⟩]
    · rw [List.getElem?_append_right (by omega), if_neg (by omega), List.getElem?_drop]
      congr 1
      omega

@[simp] theorem store_of_fits {buffer : List α} {write : Write α}
    (fits : write.Fits buffer.length) :
    (store buffer write : Outcome ε (List α)) = .ok (splice buffer write.start write.entries) :=
  if_pos fits

@[simp] theorem applyWrites_nil (buffer : List α) : applyWrites buffer [] = buffer := rfl

@[simp] theorem applyWrites_cons (buffer : List α) (write : Write α) (writes : List (Write α)) :
    applyWrites buffer (write :: writes) =
      applyWrites (splice buffer write.start write.entries) writes := rfl

theorem applyWrites_append (buffer : List α) (first second : List (Write α)) :
    applyWrites buffer (first ++ second) = applyWrites (applyWrites buffer first) second :=
  List.foldl_append

theorem applyWrites_length {writes : List (Write α)} : ∀ {buffer : List α},
    (∀ write ∈ writes, write.Fits buffer.length) → (applyWrites buffer writes).length = buffer.length := by
  induction writes with
  | nil => intros; rfl
  | cons write writes ih =>
    intro buffer fits
    have kept := splice_length buffer (fits write (by simp))
    rw [applyWrites_cons, ih, kept]
    intro later member
    rw [kept]
    exact fits later (by simp [member])

/-- Where every write that reaches a position stores the same entry there, the
position holds that entry afterwards; a position no write reaches is unchanged. -/
theorem getElem?_applyWrites {writes : List (Write α)} (i : Nat) (value : Option α) :
    ∀ {buffer : List α}, (∀ write ∈ writes, write.Fits buffer.length) →
    (∀ write ∈ writes, write.Covers i → write.entries[i - write.start]? = value) →
    ((∃ write ∈ writes, write.Covers i) → (applyWrites buffer writes)[i]? = value) ∧
      ((∀ write ∈ writes, ¬ write.Covers i) → (applyWrites buffer writes)[i]? = buffer[i]?) := by
  induction writes with
  | nil => simp
  | cons write writes ih =>
    intro buffer fits agree
    have kept := splice_length buffer (fits write (by simp))
    have here := getElem?_splice buffer (fits write (by simp)) i
    have fitsLater : ∀ later ∈ writes,
        later.Fits (splice buffer write.start write.entries).length := by
      intro later member
      rw [kept]
      exact fits later (by simp [member])
    obtain ⟨reached, missed⟩ := ih fitsLater (fun later member => agree later (by simp [member]))
    rw [applyWrites_cons]
    refine ⟨fun covered => ?_, fun untouched => ?_⟩
    · by_cases later : ∃ write ∈ writes, write.Covers i
      · exact reached later
      · have first : write.Covers i := by
          obtain ⟨found, member, covers⟩ := covered
          rcases List.mem_cons.mp member with rfl | member
          · exact covers
          · exact absurd ⟨found, member, covers⟩ later
        rw [missed (fun w member covers => later ⟨w, member, covers⟩), here,
          if_pos (show write.start ≤ i ∧ i < write.start + write.entries.length from first)]
        exact agree write (by simp) first
    · rw [missed (fun w member => untouched w (by simp [member])), here,
        if_neg (show ¬ (write.start ≤ i ∧ i < write.start + write.entries.length) from
          untouched write (by simp))]

/-- Two buffers of one length that agree wherever no write reaches agree
everywhere after the writes. -/
theorem applyWrites_congr {writes : List (Write α)} {first second : List α}
    (same : first.length = second.length) (fits : ∀ write ∈ writes, write.Fits first.length)
    (outside : ∀ i, (∀ write ∈ writes, ¬ write.Covers i) → first[i]? = second[i]?) :
    applyWrites first writes = applyWrites second writes := by
  induction writes generalizing first second with
  | nil => exact List.ext_getElem? fun i => outside i (by simp)
  | cons write writes ih =>
    have fitsFirst : write.start + write.entries.length ≤ first.length := fits write (by simp)
    have fitsSecond : write.start + write.entries.length ≤ second.length := by omega
    rw [applyWrites_cons, applyWrites_cons]
    apply ih
    · rw [splice_length _ fitsFirst, splice_length _ fitsSecond, same]
    · intro later member
      rw [splice_length _ fitsFirst]
      exact fits later (by simp [member])
    · intro i untouched
      rw [getElem?_splice _ fitsFirst, getElem?_splice _ fitsSecond]
      split
      · rfl
      · next missed =>
        refine outside i fun w member => ?_
        rcases List.mem_cons.mp member with rfl | member
        · exact missed
        · exact untouched w member

/-- Writes that are all available and all fit are simply applied. -/
theorem storeEach_of_fits {writes : List (Write α)} : ∀ {buffer : List α},
    (∀ write ∈ writes, write.Fits buffer.length) →
    (storeEach (writes.map .ok) buffer : Outcome ε (List α)) = .ok (applyWrites buffer writes) := by
  induction writes with
  | nil => intros; rfl
  | cons write writes ih =>
    intro buffer fits
    have kept := splice_length buffer (fits write (by simp))
    rw [List.map_cons, storeEach, Outcome.ok_bind, store_of_fits (fits write (by simp)),
      Outcome.ok_bind, ih, applyWrites_cons]
    intro later member
    rw [kept]
    exact fits later (by simp [member])

/-- Entry `j` of block `k` in a concatenation of equally long blocks. -/
theorem getElem?_flatMap_block {β : Type} {f : β → List α} {width : Nat} : ∀ {items : List β},
    (∀ item ∈ items, (f item).length = width) → ∀ {k j : Nat}, j < width →
    (items.flatMap f)[k * width + j]? = items[k]?.bind fun item => (f item)[j]?
  | [], _, _, _, _ => by simp
  | item :: items, uniform, 0, j, bound => by
    rw [List.flatMap_cons, Nat.zero_mul, Nat.zero_add,
      List.getElem?_append_left (by rw [uniform item (by simp)]; exact bound)]
    rfl
  | item :: items, uniform, k + 1, j, bound => by
    have first := uniform item (by simp)
    rw [List.flatMap_cons, List.getElem?_append_right (by rw [first, Nat.succ_mul]; omega), first,
      List.getElem?_cons_succ]
    have shift : (k + 1) * width + j - width = k * width + j := by rw [Nat.succ_mul]; omega
    rw [shift]
    exact getElem?_flatMap_block (fun later member => uniform later (by simp [member])) bound

theorem length_flatMap_block {β : Type} {f : β → List α} {width : Nat} : ∀ {items : List β},
    (∀ item ∈ items, (f item).length = width) → (items.flatMap f).length = items.length * width
  | [], _ => by simp
  | item :: items, uniform => by
    rw [List.flatMap_cons, List.length_append, uniform item (by simp), List.length_cons,
      Nat.succ_mul, length_flatMap_block fun later member => uniform later (by simp [member])]
    omega

theorem slice_flatMap_block {β : Type} {f : β → List α} {width k : Nat} {items : List β} {item : β}
    (uniform : ∀ item ∈ items, (f item).length = width) (found : items[k]? = some item) :
    slice (items.flatMap f) (k * width) width = f item := by
  apply List.ext_getElem?
  intro j
  rw [getElem?_slice]
  split
  · next bound =>
    rw [getElem?_flatMap_block uniform bound, found]
    rfl
  · next beyond =>
    rw [List.getElem?_eq_none]
    rw [uniform item (List.mem_of_getElem? found)]
    exact Nat.not_lt.mp beyond

/-- What stands between two pieces. -/
theorem slice_middle (before entries after : List α) :
    slice (before ++ (entries ++ after)) before.length entries.length = entries := by
  rw [slice, List.drop_left, List.take_left]

/-- The writes reach every position of a buffer of some length. -/
def Covering (length : Nat) (writes : List (Write α)) : Prop :=
  ∀ i < length, ∃ write ∈ writes, write.Covers i

section SideBySide

/-- Writes of one width, each behind the one before it. -/
def SideBySide (width : Nat) (writes : List (Write α)) : Prop :=
  ∀ k write, writes[k]? = some write → write.start = k * width ∧ write.entries.length = width

theorem SideBySide.covering {width : Nat} {writes : List (Write α)} (tiled : SideBySide width writes) :
    Covering (writes.length * width) writes := by
  intro i inside
  have positive : 0 < width := Nat.pos_of_mul_pos_left (Nat.zero_lt_of_lt inside)
  have bound : i / width < writes.length := (Nat.div_lt_iff_lt_mul positive).mpr inside
  have found := List.getElem?_eq_getElem bound
  obtain ⟨start, long⟩ := tiled _ _ found
  refine ⟨_, List.mem_of_getElem? found, ?_, ?_⟩
  · rw [start]
    exact Nat.div_mul_le_self i width
  · rw [start, long]
    exact Nat.lt_div_mul_add positive

end SideBySide

/-- The first complete block is reversed, then those after it. -/
theorem reverseBlocks_append {size : Nat} (positive : 0 < size) {block : List α} (long : block.length = size)
    (rest : List α) : reverseBlocks size (block ++ rest) = block.reverse ++ reverseBlocks size rest := by
  have count : (block ++ rest).length / size = rest.length / size + 1 := by
    rw [List.length_append, long, Nat.add_comm, Nat.add_div_right _ positive]
  have later : ∀ i, slice (block ++ rest) ((i + 1) * size) size = slice rest (i * size) size := by
    intro i
    rw [slice, slice, Nat.succ_mul, Nat.add_comm, ← long, List.drop_length_add_append]
  have left : (block ++ rest).length / size * size = block.length + rest.length / size * size := by
    rw [count, Nat.succ_mul, long, Nat.add_comm]
  unfold reverseBlocks
  rw [left, count, List.range_succ_eq_map, List.flatMap_cons, List.flatMap_map, List.drop_length_add_append,
    List.append_assoc]
  congr 2
  · rw [slice, Nat.zero_mul, List.drop_zero, ← long, List.take_left]
  · refine List.flatMap_congr fun i _ => ?_
    rw [Nat.succ_eq_add_one, later]

theorem reverseBlocks_flatMap {β : Type} {size : Nat} (positive : 0 < size) {block : β → List α}
    {items : List β} (long : ∀ item ∈ items, (block item).length = size) :
    reverseBlocks size (items.flatMap block) = items.flatMap fun item => (block item).reverse := by
  induction items with
  | nil =>
    unfold reverseBlocks
    simp
  | cons item items ih =>
    rw [List.flatMap_cons, List.flatMap_cons, reverseBlocks_append positive (long item (by simp)),
      ih fun later member => long later (by simp [member])]

theorem block_reverse_length {size : Nat} {entries : List α} {i : Nat}
    (member : i ∈ List.range (entries.length / size)) :
    (slice entries (i * size) size).reverse.length = size := by
  have last := Nat.mul_le_mul_right size (Nat.succ_le_of_lt (List.mem_range.mp member))
  have inside := last.trans (Nat.div_mul_le_self entries.length size)
  rw [Nat.succ_mul] at inside
  rw [List.length_reverse, slice_length entries inside]

theorem reverseBlocks_length (size : Nat) (entries : List α) :
    (reverseBlocks size entries).length = entries.length := by
  have whole := Nat.div_mul_le_self entries.length size
  rw [reverseBlocks, List.length_append, length_flatMap_block fun i member => block_reverse_length member,
    List.length_range, List.length_drop]
  omega

/-- Entry `j` of a reversed block, counted from its other end. -/
theorem getElem?_reverseBlocks {size k j : Nat} {entries : List α} (positive : 0 < size) (bound : j < size)
    (whole : (k + 1) * size ≤ entries.length) :
    (reverseBlocks size entries)[k * size + j]? = entries[k * size + (size - 1 - j)]? := by
  have blocks : k < entries.length / size := (Nat.le_div_iff_mul_le positive).mpr whole
  have long := fun i => @block_reverse_length α size entries i
  have first : k * size + j < entries.length / size * size := by
    have last := Nat.mul_le_mul_right size (Nat.succ_le_of_lt blocks)
    rw [Nat.succ_mul] at last
    omega
  rw [Nat.succ_mul] at whole
  rw [reverseBlocks, List.getElem?_append_left
    (by rw [length_flatMap_block long, List.length_range]; exact first),
    getElem?_flatMap_block long bound, List.getElem?_range blocks, Option.bind_some,
    List.getElem?_reverse (by rw [slice_length entries whole]; exact bound), slice_length entries whole,
    getElem?_slice, if_pos (by omega)]

end Foundation.Buffer
