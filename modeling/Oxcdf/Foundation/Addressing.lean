import Oxcdf.Foundation.Machine
import Oxcdf.Foundation.RowMajor

/-! Addresses of cells, computed in words.

A loop over a box adds up products of coordinates and strides in words. What it
computes is the exact sum put into one word: a checked build panics exactly when
that sum does not fit, an unchecked one keeps it modulo the word size, however
the sum is associated and whether or not the strides were wrapped before.
-/

set_option autoImplicit false

namespace Foundation

open RowMajor

variable {ε : Type}

namespace Build

/-- Put each of some exact values into a word. -/
def words (build : Build) (values : List Nat) : Outcome ε (List Nat) := values.mapM build.word

theorem words_cons (build : Build) (n : Nat) (values : List Nat) :
    (build.words (n :: values) : Outcome ε (List Nat)) =
      build.word n >>= fun word => (word :: ·) <$> build.words values := by
  unfold words
  rw [List.mapM_cons]
  apply congrArg
  funext word
  cases values.mapM build.word <;> rfl

theorem words_of_lt (build : Build) {values : List Nat} (small : ∀ n ∈ values, n < wordSize) :
    (build.words values : Outcome ε (List Nat)) = .ok values := by
  induction values with
  | nil => rfl
  | cons n values ih =>
    rw [words_cons, word_of_lt build (small n (by simp)), Outcome.ok_bind,
      ih fun later member => small later (by simp [member])]
    rfl

theorem words_release (values : List Nat) :
    (Build.release.words values : Outcome ε (List Nat)) = .ok (values.map (· % wordSize)) := by
  induction values with
  | nil => rfl
  | cons n values ih =>
    rw [words_cons, word_release, ih]
    rfl

theorem words_debug_eq_ok {values found : List Nat}
    (done : (Build.debug.words values : Outcome ε (List Nat)) = .ok found) :
    found = values ∧ ∀ n ∈ values, n < wordSize := by
  induction values generalizing found with
  | nil =>
    cases done
    simp
  | cons n values ih =>
    rw [words_cons] at done
    obtain ⟨first, fits, done⟩ := Outcome.bind_eq_ok.mp done
    obtain ⟨rest, later, rfl⟩ := Outcome.map_eq_ok.mp done
    obtain ⟨rfl, small⟩ := ih later
    rcases Nat.lt_or_ge n wordSize with below | above
    · rw [word_of_lt _ below] at fits
      cases fits
      exact ⟨rfl, by simpa [below] using small⟩
    · rw [word_debug_of_le above] at fits
      cases fits

theorem words_eq_ok {build : Build} {values found : List Nat} :
    (build.words values : Outcome ε (List Nat)) = .ok found ↔
      (build = .debug → ∀ n ∈ values, n < wordSize) ∧ found = values.map (· % wordSize) := by
  cases build with
  | release =>
    rw [words_release]
    simp [eq_comm]
  | debug =>
    have same (small : ∀ n ∈ values, n < wordSize) : values.map (· % wordSize) = values :=
      (List.map_congr_left fun n member => Nat.mod_eq_of_lt (small n member)).trans (List.map_id _)
    constructor
    · intro done
      obtain ⟨rfl, small⟩ := words_debug_eq_ok done
      exact ⟨fun _ => small, (same small).symm⟩
    · rintro ⟨small, rfl⟩
      rw [words_of_lt _ (small rfl), same (small rfl)]

theorem words_length {build : Build} {values found : List Nat}
    (done : (build.words values : Outcome ε (List Nat)) = .ok found) : found.length = values.length := by
  cases build with
  | debug => rw [(words_debug_eq_ok done).1]
  | release =>
    rw [words_release] at done
    cases done
    exact List.length_map _

theorem words_ne_error (build : Build) (values : List Nat) (e : ε) : build.words values ≠ .error e := by
  induction values with
  | nil => simp [words]
  | cons n values ih =>
    intro failed
    rw [words_cons] at failed
    cases fits : (build.word n : Outcome ε Nat) with
    | error reason => exact word_ne_error build n reason fits
    | panic why => simp [fits] at failed
    | ok word =>
      rw [fits] at failed
      exact ih (Outcome.map_eq_error.mp failed)

theorem words_eq_panic {build : Build} {values : List Nat} {why : Panic}
    (failed : (build.words values : Outcome ε (List Nat)) = .panic why) :
    build = .debug ∧ why = .overflow := by
  induction values with
  | nil => simp [words] at failed
  | cons n values ih =>
    rw [words_cons] at failed
    rcases Outcome.bind_eq_panic.mp failed with first | ⟨word, _, later⟩
    · obtain ⟨checked, _, same⟩ := word_eq_panic.mp first
      exact ⟨checked, same⟩
    · cases rest : (build.words values : Outcome ε (List Nat)) with
      | ok others => simp [rest] at later
      | error e => exact absurd rest (words_ne_error build values e)
      | panic other =>
        rw [rest] at later
        cases later
        exact ih rest

/-- Two word operations may change places: a panic of either is the same one. -/
theorem word_bind_comm {α : Type} (build : Build) (n m : Nat) (next : Nat → Nat → Outcome ε α) :
    (build.word n >>= fun x => build.word m >>= fun y => next x y) =
      build.word m >>= fun y => build.word n >>= fun x => next x y := by
  cases left : (build.word n : Outcome ε Nat) with
  | error e => exact absurd left (word_ne_error build n e)
  | ok x => rfl
  | panic why =>
    obtain ⟨_, _, rfl⟩ := word_eq_panic.mp left
    cases right : (build.word m : Outcome ε Nat) with
    | error e => exact absurd right (word_ne_error build m e)
    | ok y => rfl
    | panic other =>
      obtain ⟨_, _, rfl⟩ := word_eq_panic.mp right
      rfl

theorem word_bind_word_add (build : Build) (n m : Nat) :
    ((build.word n : Outcome ε Nat) >>= fun x => build.word m >>= fun y => build.word (x + y)) =
      build.word (n + m) := by
  cases build with
  | debug =>
    rcases Nat.lt_or_ge m wordSize with small | large
    · simp only [word_of_lt _ small, Outcome.ok_bind]
      exact word_bind_add _ n m
    · rw [word_debug_of_le large, word_debug_of_le (show wordSize ≤ n + m by omega)]
      cases fits : (Build.debug.word n : Outcome ε Nat) with
      | ok x => rfl
      | error e => exact absurd fits (word_ne_error _ _ _)
      | panic why =>
        obtain ⟨_, _, rfl⟩ := word_eq_panic.mp fits
        rfl
  | release => simp [word_release]

theorem word_bind_add_word (build : Build) {n : Nat} (word : n < wordSize) (m : Nat) :
    ((build.word m : Outcome ε Nat) >>= fun x => build.word (n + x)) = build.word (n + m) := by
  have both := word_bind_word_add build n m (ε := ε)
  rwa [word_of_lt _ word] at both

/-- One axis of a loop that adds up two weighted sums side by side: where the other
axes add up to exact sums put into words, so do all of them. -/
theorem addAxis_eq (build : Build) {rest : Nat × Nat → Outcome ε (Nat × Nat)} {srcRest dstRest : Nat}
    (later : ∀ src dst, src < wordSize → dst < wordSize → rest (src, dst) =
      build.word (src + srcRest) >>= fun src => build.word (dst + dstRest) >>= fun dst => .ok (src, dst))
    {src dst : Nat} (srcWord : src < wordSize) (dstWord : dst < wordSize) (x weight y dstWeight : Nat) :
    (do
      let step ← build.mul x weight
      let src ← build.add src step
      let dstStep ← build.mul y dstWeight
      let dst ← build.add dst dstStep
      rest (src, dst)) =
      build.word (src + (x * weight + srcRest)) >>= fun src =>
        build.word (dst + (y * dstWeight + dstRest)) >>= fun dst => .ok (src, dst) := by
  rw [← Nat.add_assoc, ← Nat.add_assoc, ← word_bind_add, bind_assoc]
  unfold add mul
  rw [← bind_assoc, word_bind_add_word build srcWord]
  apply Outcome.bind_congr
  intro nextSrc srcFits
  rw [← bind_assoc, word_bind_add_word build dstWord, word_bind_comm,
    ← word_bind_add build (dst + y * dstWeight), bind_assoc]
  apply Outcome.bind_congr
  intro nextDst dstFits
  rw [later _ _ (lt_of_word_eq_ok srcFits) (lt_of_word_eq_ok dstFits), word_bind_comm]

/-- A sum weighted by strides that were put into words is the sum weighted by the
strides themselves. -/
theorem word_dot_words {build : Build} {weights found : List Nat}
    (done : (build.words weights : Outcome ε (List Nat)) = .ok found) (n : Nat) (coord : List Nat) :
    (build.word (n + dot coord found) : Outcome ε Nat) = build.word (n + dot coord weights) := by
  cases build with
  | debug => rw [(words_debug_eq_ok done).1]
  | release =>
    rw [words_release] at done
    cases done
    rw [word_release, word_release]
    congr 1
    induction weights generalizing n coord with
    | nil => rfl
    | cons w weights ih =>
      cases coord with
      | nil => rfl
      | cons i coord =>
        rw [List.map_cons, dot_cons, dot_cons, ← Nat.add_assoc, ← Nat.add_assoc,
          ih (n + i * (w % wordSize)) coord]
        simp [Nat.add_mod, Nat.mul_mod]

end Build

end Foundation
