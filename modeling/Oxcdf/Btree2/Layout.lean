import Mathlib.Order.Bounds.Basic
import Oxcdf.Btree2

/-! Which field widths are derived for the nodes of a tree, and which ones a writer uses
that fills its nodes.

Both go up level by level. A writer counts how many records fit into a node with all the
pointers between them; the derivation leaves out of the first pointer what is not the count
of its child.
-/

set_option autoImplicit false

namespace Oxcdf.BtreeV2

open Foundation Foundation.Buffer

section Widths

theorem encSize_le {value width : Nat} (positive : 0 < width) (fits : value < 256 ^ width) :
    encSize value ≤ width := by
  have bits : Nat.log2 value < 8 * width := by
    rcases Nat.eq_zero_or_pos value with rfl | some_
    · rw [Nat.log2_zero]
      omega
    · have power : value < 2 ^ (8 * width) := by rwa [Nat.pow_mul]
      exact (Nat.log2_lt (Nat.ne_of_gt some_)).mpr power
  unfold encSize
  omega

end Widths

section Levels

variable (capacity : Nat → Nat) (nodeSize recordSize offsetSize : Nat)

/-- Width of a pointer to nodes of some level. -/
def pointerTo (below : Level) : Nat := offsetSize + maxNrecSize nodeSize recordSize + below.cumMaxNrecSize

/-- The level above another one, of nodes that hold so many records. -/
def Level.above (below : Level) (maxNrec : Nat) : Level :=
  let cum := (maxNrec + 1) * below.cumMaxNrec + maxNrec
  ⟨maxNrec, cum, encSize cum⟩

/-- The levels of a tree whose nodes hold what a capacity says of the size of a pointer. -/
def levelBy : Nat → Level
  | 0 => leafLevel nodeSize recordSize
  | depth + 1 =>
    let below := levelBy depth
    below.above (capacity (pointerTo nodeSize recordSize offsetSize below))

/-- How many records fit into a node beside the pointers around them. -/
def fullCapacity (pointerSize : Nat) : Nat :=
  (nodeSize - (nodeOverhead + pointerSize)) / (recordSize + pointerSize)

/-- How many records a node is derived to hold. -/
def derivedCapacity (pointerSize : Nat) : Nat :=
  (nodeSize - (nodeOverhead + maxNrecSize nodeSize recordSize)) / (recordSize + pointerSize)

/-- The levels of a writer that fills its nodes. -/
def fullLevel : Nat → Level := levelBy (fullCapacity nodeSize recordSize) nodeSize recordSize offsetSize

/-- The levels that are derived, with counts of any size. -/
def derivedLevel : Nat → Level := levelBy (derivedCapacity nodeSize recordSize) nodeSize recordSize offsetSize

def fullLayout (depth : Nat) : NodeLayout where
  maxNrecSize := maxNrecSize nodeSize recordSize
  cumMaxNrecSize := (List.range (depth + 1)).map fun d =>
    (fullLevel nodeSize recordSize offsetSize d).cumMaxNrecSize

end Levels

variable {build : Build} {nodeSize recordSize offsetSize depth : Nat}

section Capacity

theorem internalLen_eq (recordSize pointerSize n : Nat) :
    internalLen recordSize pointerSize n = nodeOverhead + pointerSize + n * (recordSize + pointerSize) := by
  unfold internalLen
  ring

/-- A node that has room for a single pointer is filled by its capacity. -/
theorem fullCapacity_isGreatest {pointerSize : Nat} (positive : 0 < recordSize)
    (room : internalLen recordSize pointerSize 0 ≤ nodeSize) :
    IsGreatest {n | internalLen recordSize pointerSize n ≤ nodeSize}
      (fullCapacity nodeSize recordSize pointerSize) := by
  have fits (n : Nat) : internalLen recordSize pointerSize n ≤ nodeSize ↔
      n ≤ fullCapacity nodeSize recordSize pointerSize := by
    rw [internalLen_eq] at room ⊢
    rw [fullCapacity, Nat.le_div_iff_mul_le (by omega)]
    omega
  exact ⟨(fits _).mpr (Nat.le_refl _), fun n inside => (fits n).mp inside⟩

/-- The derived capacity is the full one where a full node leaves less room than a record
and the count of a pointer take. -/
theorem derivedCapacity_eq_iff {pointerSize : Nat} (positive : 0 < recordSize)
    (counts : maxNrecSize nodeSize recordSize ≤ pointerSize)
    (room : internalLen recordSize pointerSize 0 ≤ nodeSize) :
    derivedCapacity nodeSize recordSize pointerSize = fullCapacity nodeSize recordSize pointerSize ↔
      nodeSize < internalLen recordSize pointerSize (fullCapacity nodeSize recordSize pointerSize) +
        (recordSize + maxNrecSize nodeSize recordSize) := by
  have inside := (@fullCapacity_isGreatest nodeSize recordSize pointerSize positive room).1
  change internalLen recordSize pointerSize _ ≤ nodeSize at inside
  rw [internalLen_eq] at inside
  rw [internalLen_eq] at room ⊢
  rw [derivedCapacity, Nat.div_eq_iff (by omega)]
  generalize fullCapacity nodeSize recordSize pointerSize = n at inside ⊢
  rw [Nat.mul_comm] at inside ⊢
  omega

end Capacity

section Deriving

/-- The counts of a level are put into words; those of its pointers always fit. -/
theorem nextLevel_eq (positive : 0 < recordSize) (word : nodeSize < wordSize) {below : Level}
    (leaves : depth = 0 → below.cumMaxNrecSize = 0) :
    nextLevel build nodeSize recordSize offsetSize (depth + 1) below =
      build.word (below.above (derivedCapacity nodeSize recordSize
        (pointerTo nodeSize recordSize offsetSize below))).cumMaxNrec >>= fun cum =>
          .ok ⟨derivedCapacity nodeSize recordSize (pointerTo nodeSize recordSize offsetSize below), cum,
            encSize cum⟩ := by
  have pointer : offsetSize + maxNrecSize nodeSize recordSize +
      (if depth + 1 > 1 then below.cumMaxNrecSize else 0) = pointerTo nodeSize recordSize offsetSize below := by
    unfold pointerTo
    split
    · rfl
    · rw [leaves (by omega)]
  have capacity : (if recordSize + pointerTo nodeSize recordSize offsetSize below = 0 then 0
      else (nodeSize - (nodeOverhead + maxNrecSize nodeSize recordSize)) /
        (recordSize + pointerTo nodeSize recordSize offsetSize below)) =
      derivedCapacity nodeSize recordSize (pointerTo nodeSize recordSize offsetSize below) :=
    if_neg (by omega)
  have small : derivedCapacity nodeSize recordSize (pointerTo nodeSize recordSize offsetSize below) + 1 <
      wordSize := by
    have bound := Nat.div_le_self (nodeSize - (nodeOverhead + maxNrecSize nodeSize recordSize))
      (recordSize + pointerTo nodeSize recordSize offsetSize below)
    unfold nodeOverhead at bound
    unfold derivedCapacity nodeOverhead
    have large : 10 < wordSize := by decide
    omega
  unfold nextLevel
  dsimp only
  rw [pointer, capacity, Build.add, Build.word_of_lt _ small, Outcome.ok_bind]
  exact (bind_assoc _ _ _).symm.trans (congrArg (· >>= _) (Build.word_bind_add build _ _))

theorem deriveLevels_eq_ok {levels : List Level}
    (derived : deriveLevels build nodeSize recordSize offsetSize depth = .ok levels) :
    levels.length = depth + 1 ∧ levels[0]? = some (leafLevel nodeSize recordSize) ∧
      ∀ d < depth, ∃ below level, levels[d]? = some below ∧ levels[d + 1]? = some level ∧
        nextLevel build nodeSize recordSize offsetSize (d + 1) below = .ok level := by
  induction depth generalizing levels with
  | zero =>
    cases derived
    exact ⟨rfl, rfl, fun d none => absurd none (Nat.not_lt_zero d)⟩
  | succ depth ih =>
    obtain ⟨before, earlier, later⟩ := Outcome.bind_eq_ok.mp derived
    obtain ⟨next, step, done⟩ := Outcome.bind_eq_ok.mp later
    cases done
    obtain ⟨long, leaf, chain⟩ := ih earlier
    have last : before[depth]? = some (before.getD depth (leafLevel nodeSize recordSize)) := by
      rw [List.getD_eq_getElem?_getD, List.getElem?_eq_getElem (by omega)]
      rfl
    refine ⟨by rw [List.length_append, long]; rfl, ?_, fun d bound => ?_⟩
    · rw [List.getElem?_append_left (by omega), leaf]
    · rcases Nat.lt_succ_iff_lt_or_eq.mp bound with inner | rfl
      · obtain ⟨below, level, here, above, same⟩ := chain d inner
        refine ⟨below, level, ?_, ?_, same⟩
        · rw [List.getElem?_append_left (by omega), here]
        · rw [List.getElem?_append_left (by omega), above]
      · refine ⟨_, next, ?_, ?_, step⟩
        · rw [List.getElem?_append_left (by omega), last]
        · rw [List.getElem?_append_right (by omega), long, Nat.sub_self]
          rfl

/-- A level has no fewer records below it than the one under it. -/
theorem cumMaxNrec_mono (capacity : Nat → Nat) {d : Nat} (le : d ≤ depth) :
    (levelBy capacity nodeSize recordSize offsetSize d).cumMaxNrec ≤
      (levelBy capacity nodeSize recordSize offsetSize depth).cumMaxNrec := by
  induction depth with
  | zero =>
    rw [Nat.le_zero.mp le]
  | succ depth ih =>
    rcases Nat.le_succ_iff.mp le with before | rfl
    · apply (ih before).trans
      change _ ≤ (_ + 1) * _ + _
      rw [Nat.succ_mul]
      omega
    · exact Nat.le_refl _

theorem levelBy_leaves (capacity : Nat → Nat) :
    depth = 0 → (levelBy capacity nodeSize recordSize offsetSize depth).cumMaxNrecSize = 0 := by
  rintro rfl
  rfl

theorem fullLevel_leaves : depth = 0 → (fullLevel nodeSize recordSize offsetSize depth).cumMaxNrecSize = 0 :=
  levelBy_leaves _

theorem derivedLevel_leaves :
    depth = 0 → (derivedLevel nodeSize recordSize offsetSize depth).cumMaxNrecSize = 0 :=
  levelBy_leaves _

theorem derivedLevel_succ : derivedLevel nodeSize recordSize offsetSize (depth + 1) =
    (derivedLevel nodeSize recordSize offsetSize depth).above (derivedCapacity nodeSize recordSize
      (pointerTo nodeSize recordSize offsetSize (derivedLevel nodeSize recordSize offsetSize depth))) := rfl

theorem derivedLevels_getD (other : Level) :
    ((List.range (depth + 1)).map (derivedLevel nodeSize recordSize offsetSize)).getD depth other =
      derivedLevel nodeSize recordSize offsetSize depth := by
  simp [List.getD_eq_getElem?_getD]

/-- Where no count leaves a word, the derived levels are those with counts of any size. -/
theorem deriveLevels_of_lt (positive : 0 < recordSize) (word : nodeSize < wordSize)
    (counts : depth = 0 ∨ (derivedLevel nodeSize recordSize offsetSize depth).cumMaxNrec < wordSize) :
    deriveLevels build nodeSize recordSize offsetSize depth =
      .ok ((List.range (depth + 1)).map (derivedLevel nodeSize recordSize offsetSize)) := by
  induction depth with
  | zero => rfl
  | succ depth ih =>
    have small := counts.resolve_left (Nat.succ_ne_zero depth)
    have below := @cumMaxNrec_mono nodeSize recordSize offsetSize _ (derivedCapacity nodeSize recordSize) _
      (Nat.le_succ depth)
    rw [deriveLevels, ih (.inr (lt_of_le_of_lt below small)), Outcome.ok_bind]
    dsimp only
    rw [derivedLevels_getD, nextLevel_eq positive word derivedLevel_leaves, ← derivedLevel_succ,
      Build.word_of_lt build small]
    rw [List.range_succ (n := depth + 1), List.map_append]
    rfl

/-- A checked build refuses a count that is no word. -/
theorem deriveLevels_debug (positive : 0 < recordSize) (word : nodeSize < wordSize) :
    (deriveLevels .debug nodeSize recordSize offsetSize depth).Panics ↔
      wordSize ≤ (derivedLevel nodeSize recordSize offsetSize depth).cumMaxNrec := by
  induction depth with
  | zero =>
    have leaf : leafMax nodeSize recordSize ≤ nodeSize := (Nat.div_le_self _ _).trans (Nat.sub_le _ _)
    have small : ¬ wordSize ≤ (derivedLevel nodeSize recordSize offsetSize 0).cumMaxNrec :=
      Nat.not_le.mpr (lt_of_le_of_lt leaf word)
    simp [deriveLevels, small]
  | succ depth ih =>
    have below := @cumMaxNrec_mono nodeSize recordSize offsetSize _ (derivedCapacity nodeSize recordSize) _
      (Nat.le_succ depth)
    rw [deriveLevels, Outcome.panics_bind, ih]
    by_cases small : (derivedLevel nodeSize recordSize offsetSize depth).cumMaxNrec < wordSize
    · rw [deriveLevels_of_lt positive word (.inr small)]
      simp only [Nat.not_le.mpr small, false_or, Outcome.ok.injEq, exists_eq_left', derivedLevels_getD]
      rw [nextLevel_eq positive word derivedLevel_leaves, ← derivedLevel_succ, Outcome.panics_bind,
        Outcome.panics_bind, Build.word_panics]
      simp
    · have large := Nat.not_lt.mp small
      exact ⟨fun _ => large.trans below, fun _ => .inl large⟩

end Deriving

section Largest

/-- At each depth the derived count is the largest with which a node can be framed, and the
width of the count below it is the one that this gives. -/
def Largest (build : Build) (nodeSize recordSize depth offsetSize : Nat) : Prop :=
  ∃ levels layout, deriveLevels build nodeSize recordSize offsetSize depth = .ok levels ∧
    NodeLayout.derive build nodeSize recordSize depth offsetSize = .ok layout ∧
    ∀ d < depth, ∃ below level, levels[d]? = some below ∧ levels[d + 1]? = some level ∧
      IsGreatest {n | internalLen recordSize (layout.pointerSize offsetSize (d + 1)) n ≤ nodeSize}
        level.maxNrec ∧
      level.cumMaxNrec = (level.maxNrec + 1) * below.cumMaxNrec + level.maxNrec ∧
      layout.cumMaxNrecSize[d + 1]? = some (encSize level.cumMaxNrec)

/-- A full node above a level has a pointer, leaves less room than a record and the count of
a pointer take, and the count of all below it is a word. -/
structure Tight (nodeSize recordSize offsetSize : Nat) (below : Level) : Prop where
  pointer : internalLen recordSize (pointerTo nodeSize recordSize offsetSize below) 0 ≤ nodeSize
  leaves : nodeSize < internalLen recordSize (pointerTo nodeSize recordSize offsetSize below)
      (fullCapacity nodeSize recordSize (pointerTo nodeSize recordSize offsetSize below)) +
    (recordSize + maxNrecSize nodeSize recordSize)
  count : (below.above (fullCapacity nodeSize recordSize
    (pointerTo nodeSize recordSize offsetSize below))).cumMaxNrec < wordSize

theorem derive_eq_ok {layout : NodeLayout} :
    NodeLayout.derive build nodeSize recordSize depth offsetSize = .ok layout ↔
      ∃ levels, deriveLevels build nodeSize recordSize offsetSize depth = .ok levels ∧
        layout = ⟨maxNrecSize nodeSize recordSize, levels.map Level.cumMaxNrecSize⟩ := by
  unfold NodeLayout.derive
  rw [Outcome.bind_eq_ok]
  simp [eq_comm]

theorem pointerSize_eq {levels : List Level} {d : Nat} {below : Level} (here : levels[d]? = some below)
    (leaves : d = 0 → below.cumMaxNrecSize = 0) :
    NodeLayout.pointerSize ⟨maxNrecSize nodeSize recordSize, levels.map Level.cumMaxNrecSize⟩
      offsetSize (d + 1) =
      pointerTo nodeSize recordSize offsetSize below := by
  unfold NodeLayout.pointerSize NodeLayout.childTotalSize pointerTo
  dsimp only
  congr 1
  split
  · rw [Nat.add_sub_cancel, List.getD_eq_getElem?_getD, List.getElem?_map, here]
    rfl
  · rw [leaves (by omega)]

theorem fullLayout_pointerSize {d : Nat} (bound : d ≤ depth) :
    (fullLayout nodeSize recordSize offsetSize depth).pointerSize offsetSize (d + 1) =
      pointerTo nodeSize recordSize offsetSize (fullLevel nodeSize recordSize offsetSize d) := by
  have here : ((List.range (depth + 1)).map (fullLevel nodeSize recordSize offsetSize))[d]? =
      some (fullLevel nodeSize recordSize offsetSize d) := by
    rw [List.getElem?_map, List.getElem?_range (Nat.lt_succ_of_le bound)]
    rfl
  have pointer := @pointerSize_eq nodeSize recordSize offsetSize _ d _ here fullLevel_leaves
  rw [List.map_map] at pointer
  exact pointer

theorem maxNrecSize_le_pointerTo (below : Level) :
    maxNrecSize nodeSize recordSize ≤ pointerTo nodeSize recordSize offsetSize below := by
  unfold pointerTo
  omega

/-- What was derived is the writer's, as far as it is the largest. -/
theorem tight_of_largest (positive : 0 < recordSize) (word : nodeSize < wordSize)
    (largest : Largest build nodeSize recordSize depth offsetSize) :
    ∀ d < depth, Tight nodeSize recordSize offsetSize (fullLevel nodeSize recordSize offsetSize d) := by
  obtain ⟨levels, layout, derived, laid, each⟩ := largest
  obtain ⟨same, sameLevels, rfl⟩ := derive_eq_ok.mp laid
  rw [derived] at sameLevels
  cases sameLevels
  obtain ⟨-, leaf, chain⟩ := deriveLevels_eq_ok derived
  -- A level that is the writer's has a tight node above it, and the next one is the writer's too.
  have step (d : Nat) (bound : d < depth)
      (here : levels[d]? = some (fullLevel nodeSize recordSize offsetSize d)) :
      Tight nodeSize recordSize offsetSize (fullLevel nodeSize recordSize offsetSize d) ∧
        levels[d + 1]? = some (fullLevel nodeSize recordSize offsetSize (d + 1)) := by
    obtain ⟨below, level, found, above, greatest, cum, width⟩ := each d bound
    obtain ⟨below', level', found', above', next⟩ := chain d bound
    rw [here] at found found'
    cases found
    cases found'
    rw [above] at above'
    cases above'
    rw [pointerSize_eq here fullLevel_leaves] at greatest
    rw [nextLevel_eq positive word fullLevel_leaves] at next
    obtain ⟨count, isWord, same⟩ := Outcome.bind_eq_ok.mp next
    cases same
    have room : internalLen recordSize (pointerTo nodeSize recordSize offsetSize
        (fullLevel nodeSize recordSize offsetSize d)) 0 ≤ nodeSize := by
      have inside := greatest.1
      change internalLen recordSize _ _ ≤ nodeSize at inside
      rw [internalLen_eq] at inside ⊢
      omega
    have capacity := greatest.unique (fullCapacity_isGreatest positive room)
    dsimp only at capacity cum
    refine ⟨⟨room, (derivedCapacity_eq_iff positive (maxNrecSize_le_pointerTo _) room).mp capacity, ?_⟩, ?_⟩
    · have small := Build.lt_of_word_eq_ok isWord
      rw [cum, capacity] at small
      exact small
    · rw [above, cum, capacity]
      rfl
  have all (d : Nat) (bound : d ≤ depth) : levels[d]? = some (fullLevel nodeSize recordSize offsetSize d) := by
    induction d with
    | zero => exact leaf
    | succ d ih => exact (step d bound (ih (Nat.le_of_lt bound))).2
  exact fun d bound => (step d bound (all d (Nat.le_of_lt bound))).1

/-- Above tight nodes only, the levels that are derived are the writer's. -/
theorem fullLevel_eq (positive : 0 < recordSize)
    (tight : ∀ d < depth, Tight nodeSize recordSize offsetSize (fullLevel nodeSize recordSize offsetSize d)) :
    ∀ d ≤ depth, derivedLevel nodeSize recordSize offsetSize d =
      fullLevel nodeSize recordSize offsetSize d := by
  intro d bound
  induction d with
  | zero => rfl
  | succ d ih =>
    have held := tight d bound
    have same := (derivedCapacity_eq_iff positive (maxNrecSize_le_pointerTo _) held.pointer).mpr held.leaves
    rw [derivedLevel_succ, ih (Nat.le_of_lt bound), same]
    rfl

/-- The derived counts are the largest exactly if every full node below is tight, and then
the widths are the writer's. -/
theorem derive_largest_iff (positive : 0 < recordSize) (word : nodeSize < wordSize) :
    (Largest build nodeSize recordSize depth offsetSize ↔
      ∀ d < depth, Tight nodeSize recordSize offsetSize (fullLevel nodeSize recordSize offsetSize d)) ∧
    ((∀ d < depth, Tight nodeSize recordSize offsetSize (fullLevel nodeSize recordSize offsetSize d)) →
      NodeLayout.derive build nodeSize recordSize depth offsetSize =
        .ok (fullLayout nodeSize recordSize offsetSize depth)) := by
  have levels (tight : ∀ d < depth,
      Tight nodeSize recordSize offsetSize (fullLevel nodeSize recordSize offsetSize d)) :
      deriveLevels build nodeSize recordSize offsetSize depth =
        .ok ((List.range (depth + 1)).map (fullLevel nodeSize recordSize offsetSize)) := by
    have same := fullLevel_eq positive tight
    have small : depth = 0 ∨ (derivedLevel nodeSize recordSize offsetSize depth).cumMaxNrec < wordSize := by
      rcases Nat.eq_zero_or_pos depth with none | some_
      · exact .inl none
      · right
        have last := (tight (depth - 1) (by omega)).count
        obtain ⟨d, rfl⟩ : ∃ d, depth = d + 1 := ⟨depth - 1, by omega⟩
        rw [same _ (Nat.le_refl _)]
        exact last
    rw [deriveLevels_of_lt positive word small]
    congr 1
    apply List.map_congr_left
    intro d member
    exact same d (Nat.lt_succ_iff.mp (List.mem_range.mp member))
  have widths (tight : ∀ d < depth,
      Tight nodeSize recordSize offsetSize (fullLevel nodeSize recordSize offsetSize d)) :
      NodeLayout.derive build nodeSize recordSize depth offsetSize =
        .ok (fullLayout nodeSize recordSize offsetSize depth) := by
    apply derive_eq_ok.mpr
    refine ⟨_, levels tight, ?_⟩
    rw [List.map_map]
    rfl
  refine ⟨⟨tight_of_largest positive word, fun tight => ?_⟩, widths⟩
  refine ⟨_, _, levels tight, widths tight, fun d bound => ?_⟩
  have at_ (i : Nat) (inside : i ≤ depth) :
      ((List.range (depth + 1)).map (fullLevel nodeSize recordSize offsetSize))[i]? =
        some (fullLevel nodeSize recordSize offsetSize i) := by
    rw [List.getElem?_map, List.getElem?_range (Nat.lt_succ_of_le inside)]
    rfl
  refine ⟨_, _, at_ d (Nat.le_of_lt bound), at_ (d + 1) bound, ?_, rfl, ?_⟩
  · rw [fullLayout_pointerSize (Nat.le_of_lt bound)]
    exact fullCapacity_isGreatest positive (tight d bound).pointer
  · change ((List.range (depth + 1)).map _)[d + 1]? = _
    rw [List.getElem?_map, List.getElem?_range (Nat.succ_lt_succ bound)]
    rfl

theorem derive_largest_chunks : Largest .debug 2048 24 1 8 := by
  apply (derive_largest_iff (by decide) (by decide)).1.mpr
  intro d first
  obtain rfl : d = 0 := by omega
  exact ⟨by decide, by decide, by decide⟩

/-- Seven pointers and six records of 74 bytes are five bytes too many for a node of 512. One
level up, the count of all records is then taken to be wider than it is. -/
theorem derive_largest_six :
    deriveLevels .debug 512 74 8 2 = .ok [⟨6, 6, 0⟩, ⟨6, 48, 1⟩, ⟨5, 293, 2⟩] ∧
      NodeLayout.derive .debug 512 74 2 8 = .ok ⟨1, [0, 1, 2]⟩ ∧ fullLayout 512 74 8 2 = ⟨1, [0, 1, 1]⟩ ∧
      ¬ Largest .debug 512 74 2 8 := by
  have derived : deriveLevels .debug 512 74 8 2 = .ok [⟨6, 6, 0⟩, ⟨6, 48, 1⟩, ⟨5, 293, 2⟩] := by decide
  have laid : NodeLayout.derive .debug 512 74 2 8 = .ok ⟨1, [0, 1, 2]⟩ := by decide
  refine ⟨derived, laid, by decide, ?_⟩
  rintro ⟨levels, layout, same, alike, each⟩
  rw [derived] at same
  rw [laid] at alike
  cases same
  cases alike
  obtain ⟨below, level, -, above, greatest, -, -⟩ := each 0 (by decide)
  cases above
  have fits : internalLen 74 9 6 ≤ 512 := greatest.1
  exact absurd fits (by decide)

end Largest

end Oxcdf.BtreeV2
