import Mathlib.Data.Nat.ModEq
import Mathlib.Algebra.BigOperators.Group.List.Basic
import Oxcdf.Filters

/-! The Fletcher-32 checksum as two sums modulo 65535.

A fold of a sum keeps it modulo 65535, as `2 ^ 16` is one more. How far the sums grow between two
folds is what a block of all-ones words adds to the largest sums that a fold leaves.
-/

set_option autoImplicit false

namespace Oxcdf.Filters

section Sums

/-- The 16-bit words of a byte string, high byte first; an odd last byte is left out. -/
def pairs : Bytes → List Nat
  | high :: low :: rest => (high.toNat * 2 ^ 8 + low.toNat) :: pairs rest
  | _ => []

/-- An odd last byte, as the high byte of a word. -/
def oddWord (data : Bytes) : List Nat :=
  match data.drop (data.length / 2 * 2) with
  | odd :: _ => [odd.toNat * 2 ^ 8]
  | [] => []

def words (data : Bytes) : List Nat := pairs data ++ oddWord data

def prefixSum (words : List Nat) : Nat := ((List.range words.length).map fun i => (words.take (i + 1)).sum).sum

/-- Both sums grown by one word. -/
def addWord (sums : Nat × Nat) (word : Nat) : Nat × Nat := (sums.1 + word, sums.2 + (sums.1 + word))

/-- Both sums grown by words, with numbers of any size and without a fold. -/
def accumulate (sums : Nat × Nat) (words : List Nat) : Nat × Nat := words.foldl addWord sums

def foldBoth (sums : Nat × Nat) : Nat × Nat := (fold16 sums.1, fold16 sums.2)

/-- The sums that the checksum is put together from. -/
def sums (data : Bytes) : Nat × Nat :=
  let even := data.take (data.length / 2 * 2)
  let (sum1, sum2) := sumBlocks (even.length / 2) even (0, 0)
  let (sum1, sum2) :=
    match data.drop (data.length / 2 * 2) with
    | odd :: _ =>
      let sum1 := (sum1 + odd.toNat * 2 ^ 8) % word32
      let sum2 := (sum2 + sum1) % word32
      (fold16 sum1, fold16 sum2)
    | [] => (sum1, sum2)
  (fold16 sum1, fold16 sum2)

theorem fletcher32_eq (data : Bytes) : fletcher32 data = (sums data).2 * 2 ^ 16 ||| (sums data).1 := rfl

end Sums

section Checked

/-- A sum of two words of 32 bits, if it is one. -/
def add32 (x y : Nat) : Option Nat := if x + y < word32 then some (x + y) else none

def addWordChecked (sums : Nat × Nat) (word : Nat) : Option (Nat × Nat) := do
  let sum1 ← add32 sums.1 word
  let sum2 ← add32 sums.2 sum1
  pure (sum1, sum2)

def fold16Checked (sum : Nat) : Option Nat := add32 (sum % 2 ^ 16) (sum / 2 ^ 16)

def foldBothChecked (sums : Nat × Nat) : Option (Nat × Nat) := do
  let sum1 ← fold16Checked sums.1
  let sum2 ← fold16Checked sums.2
  pure (sum1, sum2)

/-- `sumBlock` with no addition that wraps. -/
def sumBlockChecked : Bytes → Nat × Nat → Option (Nat × Nat)
  | high :: low :: rest, sums => do
    let sums ← addWordChecked sums (high.toNat * 2 ^ 8 + low.toNat)
    sumBlockChecked rest sums
  | _, sums => some sums

def sumBlocksChecked : Nat → Bytes → Nat × Nat → Option (Nat × Nat)
  | 0, _, sums => some sums
  | budget + 1, data, sums =>
    if data.length < 2 then some sums
    else do
      let sums ← sumBlockChecked (data.take 720) sums
      let sums ← foldBothChecked sums
      sumBlocksChecked budget (data.drop 720) sums

/-- `sums` with no addition that wraps. -/
def sumsChecked (data : Bytes) : Option (Nat × Nat) := do
  let even := data.take (data.length / 2 * 2)
  let sums ← sumBlocksChecked (even.length / 2) even (0, 0)
  let sums ←
    match data.drop (data.length / 2 * 2) with
    | odd :: _ => do
      let sums ← addWordChecked sums (odd.toNat * 2 ^ 8)
      foldBothChecked sums
    | [] => some sums
  foldBothChecked sums

end Checked

section Growth

variable {s t : Nat × Nat} {ws : List Nat}

/-- No sum has passed another. -/
def Below (s t : Nat × Nat) : Prop := s.1 ≤ t.1 ∧ s.2 ≤ t.2

theorem Below.trans {r : Nat × Nat} (first : Below r s) (second : Below s t) : Below r t :=
  ⟨first.1.trans second.1, first.2.trans second.2⟩

theorem below_addWord (s : Nat × Nat) (word : Nat) : Below s (addWord s word) := by
  simp [Below, addWord]

theorem below_accumulate (s : Nat × Nat) (ws : List Nat) : Below s (accumulate s ws) := by
  induction ws generalizing s with
  | nil => exact ⟨le_rfl, le_rfl⟩
  | cons word ws ih => exact (below_addWord s word).trans (ih (addWord s word))

/-- Fewer and smaller words let the sums grow less. -/
theorem Below.accumulate {n largest : Nat} (starts : Below s t) (few : ws.length ≤ n)
    (small : ∀ word ∈ ws, word ≤ largest) :
    Below (accumulate s ws) (accumulate t (List.replicate n largest)) := by
  induction ws generalizing s t n with
  | nil => exact starts.trans (below_accumulate t _)
  | cons word ws ih =>
    obtain ⟨le, others⟩ := List.forall_mem_cons.mp small
    cases n with
    | zero => simp at few
    | succ n =>
      have first := Nat.add_le_add starts.1 le
      have next : Below (addWord s word) (addWord t largest) := ⟨first, Nat.add_le_add starts.2 first⟩
      rw [List.length_cons] at few
      have later := ih next (Nat.le_of_succ_le_succ few) others
      exact later

/-- What a fold leaves of words in the sums, at most. -/
def folded : Nat × Nat := (65895, 131070)

/-- A full block of words. -/
def onesBlock : List Nat := List.replicate 360 65535

theorem accumulate_replicate (s : Nat × Nat) (word n : Nat) :
    accumulate s (List.replicate n word) = (s.1 + n * word, s.2 + n * s.1 + n * (n + 1) / 2 * word) := by
  induction n generalizing s with
  | zero => simp [accumulate]
  | succ n ih =>
    have next := ih (addWord s word)
    have triangle : (n + 1) * (n + 1 + 1) / 2 = n * (n + 1) / 2 + (n + 1) := by
      have twice : (n + 1) * (n + 1 + 1) = n * (n + 1) + (n + 1) * 2 := by ring
      rw [twice, Nat.add_mul_div_right _ _ (by decide)]
    change accumulate (addWord s word) (List.replicate n word) = _
    rw [next, triangle]
    simp only [addWord]
    ext <;> dsimp only <;> ring

theorem accumulate_onesBlock : accumulate folded onesBlock = (23658495, 4282317570) := by
  rw [onesBlock, accumulate_replicate]
  rfl

theorem pairs_lt (data : Bytes) : ∀ word ∈ pairs data, word ≤ 65535 := by
  fun_induction pairs data with
  | case1 high low rest ih =>
    intro word member
    rcases List.mem_cons.mp member with rfl | member
    · have := high.toNat_lt
      have := low.toNat_lt
      omega
    · exact ih word member
  | case2 => simp

theorem pairs_length (data : Bytes) : (pairs data).length = data.length / 2 := by
  fun_induction pairs data with
  | case1 high low rest ih =>
    simp only [List.length_cons, ih]
    omega
  | case2 rest short =>
    match rest with
    | [] => rfl
    | [_] => simp
    | high :: low :: rest => exact absurd rfl (short high low rest)

theorem pairs_append {front : Bytes} (whole : front.length % 2 = 0) (rest : Bytes) :
    pairs (front ++ rest) = pairs front ++ pairs rest := by
  fun_induction pairs front with
  | case1 high low front ih =>
    have shorter : front.length % 2 = 0 := by
      rw [List.length_cons, List.length_cons] at whole
      omega
    simp [pairs, ih shorter]
  | case2 front short =>
    match front with
    | [] => rfl
    | [_] => simp at whole
    | high :: low :: front => exact absurd rfl (short high low front)

/-- A block of words whose sums stay in 32 bits does not wrap anywhere. -/
theorem sumBlockChecked_eq {data : Bytes} {s : Nat × Nat}
    (room : (accumulate s (pairs data)).2 < word32) :
    sumBlockChecked data s = some (accumulate s (pairs data)) ∧ sumBlock data s =
      accumulate s (pairs data) := by
  fun_induction pairs data generalizing s with
  | case1 high low rest ih =>
    have later := below_accumulate (addWord s (high.toNat * 2 ^ 8 + low.toNat)) (pairs rest)
    have second : s.2 + (s.1 + (high.toNat * 2 ^ 8 + low.toNat)) < word32 := lt_of_le_of_lt later.2 room
    have first : s.1 + (high.toNat * 2 ^ 8 + low.toNat) < word32 := lt_of_le_of_lt (Nat.le_add_left _ _) second
    obtain ⟨checked, plain⟩ := ih room
    constructor
    · simp only [sumBlockChecked, addWordChecked, add32, if_pos first, if_pos second, Option.bind_eq_bind,
        Option.bind_some]
      exact checked
    · rw [sumBlock, Nat.mod_eq_of_lt first, Nat.mod_eq_of_lt second]
      exact plain
  | case2 rest short =>
    match rest with
    | [] => exact ⟨rfl, rfl⟩
    | [_] => simp [sumBlockChecked, sumBlock, accumulate]
    | high :: low :: rest => exact absurd rfl (short high low rest)

end Growth

section Folds

variable {sum : Nat} {s t : Nat × Nat}

theorem fold16Checked_eq (small : sum < word32) : fold16Checked sum = some (fold16 sum) := by
  have room : sum % 2 ^ 16 + sum / 2 ^ 16 < word32 := by
    unfold word32 at *
    omega
  rw [fold16Checked, add32, if_pos room, fold16]

theorem foldBothChecked_eq (first : s.1 < word32) (second : s.2 < word32) :
    foldBothChecked s = some (foldBoth s) := by
  simp [foldBothChecked, fold16Checked_eq first, fold16Checked_eq second, foldBoth]

/-- A fold takes multiples of 65535 away. -/
theorem fold16_modEq (sum : Nat) : fold16 sum ≡ sum [MOD 65535] := by
  have parts := Nat.mod_add_div sum (2 ^ 16)
  unfold fold16 Nat.ModEq
  omega

/-- Two pairs of sums that are the same modulo 65535. -/
def Congruent (s t : Nat × Nat) : Prop := s.1 ≡ t.1 [MOD 65535] ∧ s.2 ≡ t.2 [MOD 65535]

theorem Congruent.trans {r : Nat × Nat} (first : Congruent r s) (second : Congruent s t) : Congruent r t :=
  ⟨first.1.trans second.1, first.2.trans second.2⟩

theorem foldBoth_congruent (s : Nat × Nat) : Congruent (foldBoth s) s :=
  ⟨fold16_modEq s.1, fold16_modEq s.2⟩

theorem Congruent.accumulate (same : Congruent s t) (ws : List Nat) :
    Congruent (accumulate s ws) (accumulate t ws) := by
  induction ws generalizing s t with
  | nil => exact same
  | cons word ws ih =>
    apply ih
    have first := same.1.add_right word
    exact ⟨first, same.2.add first⟩

theorem below_folded (first : s.1 ≤ 23658495) (second : s.2 < word32) : Below (foldBoth s) folded := by
  unfold word32 at second
  constructor
  · change s.1 % 2 ^ 16 + s.1 / 2 ^ 16 ≤ 65895
    omega
  · change s.2 % 2 ^ 16 + s.2 / 2 ^ 16 ≤ 131070
    omega

/-- What a fold has left is folded to 16 bits by the next. -/
theorem fold16_lt (small : sum ≤ 131070) : fold16 sum < 2 ^ 16 := by
  unfold fold16
  omega

end Folds

section Blocks

variable {data : Bytes} {s : Nat × Nat}

/-- One block, from sums that a fold has left: nothing wraps, and a fold leaves no more again. -/
theorem block_spec (block : data.length ≤ 720) (start : Below s folded) :
    let sums := accumulate s (pairs data)
    sumBlockChecked data s = some sums ∧ sumBlock data s = sums ∧ foldBothChecked sums = some (foldBoth sums) ∧
      Below (foldBoth sums) folded := by
  intro sums
  have few : (pairs data).length ≤ 360 := by
    rw [pairs_length]
    omega
  have most := start.accumulate few (pairs_lt data)
  rw [← onesBlock, accumulate_onesBlock] at most
  have second : sums.2 < word32 := lt_of_le_of_lt most.2 (by decide)
  have first : sums.1 < word32 := lt_of_le_of_lt most.1 (by decide)
  obtain ⟨checked, plain⟩ := sumBlockChecked_eq second
  exact ⟨checked, plain, foldBothChecked_eq first second, below_folded most.1 second⟩

/-- Any number of blocks: the folded sums are those of all words modulo 65535. -/
theorem sumBlocks_spec (budget : Nat) (whole : data.length % 2 = 0) (enough : data.length ≤ 2 * budget)
    (start : Below s folded) :
    ∃ sums, sumBlocksChecked budget data s = some sums ∧ sumBlocks budget data s = sums ∧ Below sums folded ∧
      Congruent sums (accumulate s (pairs data)) := by
  -- The budget counts words, and a block takes at least one.
  induction budget generalizing data s with
  | zero =>
    obtain rfl : data = [] := List.eq_nil_of_length_eq_zero (by omega)
    exact ⟨s, rfl, rfl, start, rfl, rfl⟩
  | succ budget ih =>
    by_cases short : data.length < 2
    · obtain rfl : data = [] := List.eq_nil_of_length_eq_zero (by omega)
      exact ⟨s, rfl, rfl, start, rfl, rfl⟩
    · have block : (data.take 720).length ≤ 720 := by simp
      have even : (data.take 720).length % 2 = 0 := by
        rw [List.length_take]
        omega
      obtain ⟨checked, plain, folds, kept⟩ := block_spec block start
      have rest : (data.drop 720).length % 2 = 0 ∧ (data.drop 720).length ≤ 2 * budget := by
        rw [List.length_drop]
        omega
      obtain ⟨sums, checkedLater, plainLater, below, congruent⟩ := ih rest.1 rest.2 kept
      refine ⟨sums, ?_, ?_, below, congruent.trans ?_⟩
      · rw [sumBlocksChecked, if_neg short]
        simp only [checked, folds, Option.bind_eq_bind, Option.bind_some]
        exact checkedLater
      · rw [sumBlocks, if_neg short]
        simp only [plain]
        exact plainLater
      · have split := pairs_append even (data.drop 720)
        rw [List.take_append_drop] at split
        have all : accumulate s (pairs data) =
            accumulate (accumulate s (pairs (data.take 720))) (pairs (data.drop 720)) := by
          rw [split, accumulate, List.foldl_append]
          rfl
        rw [all]
        exact (foldBoth_congruent _).accumulate _

end Blocks

section Whole

/-- The second sum grows by the first one after each word. -/
theorem accumulate_eq (s : Nat × Nat) (ws : List Nat) :
    accumulate s ws = (s.1 + ws.sum, s.2 + ws.length * s.1 + prefixSum ws) := by
  induction ws generalizing s with
  | nil => simp [accumulate, prefixSum]
  | cons word ws ih =>
    have next := ih (addWord s word)
    have fronts : prefixSum (word :: ws) = (ws.length + 1) * word + prefixSum ws := by
      unfold prefixSum
      rw [List.length_cons, List.range_succ_eq_map, List.map_cons, List.map_map, List.sum_cons]
      have each : ((fun i => ((word :: ws).take (i + 1)).sum) ∘ Nat.succ) = fun i =>
        word + (ws.take (i + 1)).sum := by
        funext i
        simp
      rw [each, List.sum_map_add]
      simp
      ring
    change accumulate (addWord s word) ws = _
    rw [next, fronts]
    simp only [addWord, List.sum_cons, List.length_cons]
    ext <;> dsimp only <;> ring

/-- The odd byte is one more word, and is folded away as a block is. -/
theorem oddWord_spec {s : Nat × Nat} {word : Nat} (start : Below s folded) (small : word ≤ 65280) :
    addWordChecked s word = some (addWord s word) ∧
      (s.1 + word) % word32 = (addWord s word).1 ∧ (s.2 + (addWord s word).1) % word32 = (addWord s word).2 ∧
      foldBothChecked (addWord s word) = some (foldBoth (addWord s word)) ∧
      Below (foldBoth (addWord s word)) (65536, 65538) := by
  have first : s.1 + word ≤ 131175 := Nat.add_le_add start.1 small
  have second : s.2 + (s.1 + word) ≤ 262245 := Nat.add_le_add start.2 first
  have one : s.1 + word < word32 := lt_of_le_of_lt first (by decide)
  have two : s.2 + (s.1 + word) < word32 := lt_of_le_of_lt second (by decide)
  refine ⟨?_, Nat.mod_eq_of_lt one, Nat.mod_eq_of_lt two, foldBothChecked_eq one two, ?_, ?_⟩
  · simp [addWordChecked, add32, if_pos one, if_pos two, addWord]
  · change (s.1 + word) % 2 ^ 16 + (s.1 + word) / 2 ^ 16 ≤ 65536
    omega
  · change (s.2 + (s.1 + word)) % 2 ^ 16 + (s.2 + (s.1 + word)) / 2 ^ 16 ≤ 65538
    omega

/-- The last fold leaves 16 bits of either sum. -/
theorem lastFold_spec {s t : Nat × Nat} (start : Below s (131070, 131070)) (same : Congruent s t) :
    foldBothChecked s = some (foldBoth s) ∧ (foldBoth s).1 < 2 ^ 16 ∧ (foldBoth s).2 < 2 ^ 16 ∧
      Congruent (foldBoth s) t := by
  have one : s.1 < word32 := lt_of_le_of_lt start.1 (by decide)
  have two : s.2 < word32 := lt_of_le_of_lt start.2 (by decide)
  exact ⟨foldBothChecked_eq one two, fold16_lt start.1, fold16_lt start.2, (foldBoth_congruent s).trans same⟩

theorem sums_spec (data : Bytes) :
    sumsChecked data = some (sums data) ∧ (sums data).1 < 2 ^ 16 ∧ (sums data).2 < 2 ^ 16 ∧
      Congruent (sums data) (accumulate (0, 0) (words data)) := by
  have even : (data.take (data.length / 2 * 2)).length = data.length / 2 * 2 := by
    rw [List.length_take]
    omega
  have blocks := @sumBlocks_spec (data.take (data.length / 2 * 2)) (0, 0)
    ((data.take (data.length / 2 * 2)).length / 2) (by omega) (by omega) ⟨Nat.zero_le _, Nat.zero_le _⟩
  have fronts : pairs (data.take (data.length / 2 * 2)) = pairs data := by
    have split := @pairs_append (data.take (data.length / 2 * 2)) (by omega) (data.drop (data.length / 2 * 2))
    rw [List.take_append_drop] at split
    have rest : pairs (data.drop (data.length / 2 * 2)) = [] := by
      apply List.eq_nil_of_length_eq_zero
      rw [pairs_length, List.length_drop]
      omega
    rw [split, rest, List.append_nil]
  obtain ⟨s, checked, plain, below, congruent⟩ := blocks
  rw [fronts] at congruent
  unfold sumsChecked sums words oddWord
  simp only [checked, plain, Option.bind_eq_bind, Option.bind_some]
  cases tail : data.drop (data.length / 2 * 2) with
  | nil =>
    have start : Below s (131070, 131070) := below.trans ⟨by decide, by decide⟩
    rw [List.append_nil]
    exact lastFold_spec start congruent
  | cons odd rest =>
    have byte := odd.toNat_lt
    have small : odd.toNat * 2 ^ 8 ≤ 65280 := by omega
    obtain ⟨checkedOdd, first, second, folds, left⟩ := oddWord_spec below small
    have start := left.trans (⟨by decide, by decide⟩ : Below (65536, 65538) (131070, 131070))
    have grown : Congruent (addWord s (odd.toNat * 2 ^ 8))
        (accumulate (0, 0) (pairs data ++ [odd.toNat * 2 ^ 8])) := by
      rw [accumulate, List.foldl_append]
      exact congruent.accumulate [odd.toNat * 2 ^ 8]
    simp only [checkedOdd, folds, first, second, Option.bind_some]
    exact lastFold_spec start ((foldBoth_congruent _).trans grown)

/-- No addition of the checksum wraps. Its halves do not overlap: they are the sum of the words and the
sum of the sums of their fronts, modulo 65535. -/
theorem fletcher32_modular (data : Bytes) :
    sumsChecked data = some (sums data) ∧
      (sums data).1 < 2 ^ 16 ∧ (sums data).2 < 2 ^ 16 ∧
      fletcher32 data / 2 ^ 16 = (sums data).2 ∧ fletcher32 data % 2 ^ 16 = (sums data).1 ∧
      (sums data).1 ≡ (words data).sum [MOD 65535] ∧ (sums data).2 ≡ prefixSum (words data) [MOD 65535] := by
  obtain ⟨checked, low, high, congruent⟩ := sums_spec data
  rw [accumulate_eq] at congruent
  simp only [Congruent, Nat.zero_add, Nat.mul_zero] at congruent
  have joined : fletcher32 data = 2 ^ 16 * (sums data).2 + (sums data).1 := by
    rw [fletcher32_eq, Nat.mul_comm, ← Nat.two_pow_add_eq_or_of_lt low]
  refine ⟨checked, low, high, ?_, ?_, congruent.1, congruent.2⟩
  · rw [joined]
    omega
  · rw [joined]
    omega

end Whole

end Oxcdf.Filters
