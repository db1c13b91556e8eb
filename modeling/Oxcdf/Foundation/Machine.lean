import Mathlib.Data.Nat.Basic
import Mathlib.Tactic.Ring
import Oxcdf.Foundation.Outcome

/-! Unsigned 64-bit arithmetic of a checked and of an unchecked build.

A word is a natural number below `2 ^ 64`. A checked (debug) build panics when
a sum, a product or a difference leaves that range; an unchecked (release)
build keeps it modulo `2 ^ 64`.
-/

set_option autoImplicit false

namespace Foundation

inductive Build where
  | debug
  | release
  deriving DecidableEq, Repr

/-- One past the largest word. -/
def wordSize : Nat := 2 ^ 64

theorem wordSize_pos : 0 < wordSize := by decide

variable {ε : Type}

namespace Build

/-- Put an exact value into one word. -/
def word (build : Build) (n : Nat) : Outcome ε Nat :=
  if n < wordSize then .ok n
  else match build with
    | .debug => .panic .overflow
    | .release => .ok (n % wordSize)

def add (build : Build) (x y : Nat) : Outcome ε Nat := build.word (x + y)

def mul (build : Build) (x y : Nat) : Outcome ε Nat := build.word (x * y)

def sub (build : Build) (x y : Nat) : Outcome ε Nat :=
  if y ≤ x then .ok (x - y)
  else match build with
    | .debug => .panic .overflow
    | .release => .ok (x + wordSize - y)

@[simp] theorem word_of_lt (build : Build) {n : Nat} (small : n < wordSize) :
    (build.word n : Outcome ε Nat) = .ok n := by
  simp only [word, if_pos small]

theorem word_release (n : Nat) : (Build.release.word n : Outcome ε Nat) = .ok (n % wordSize) := by
  by_cases small : n < wordSize
  · rw [word_of_lt _ small, Nat.mod_eq_of_lt small]
  · simp only [word, if_neg small]

theorem word_debug_of_le {n : Nat} (large : wordSize ≤ n) :
    (Build.debug.word n : Outcome ε Nat) = .panic .overflow := by
  simp only [word, if_neg (Nat.not_lt.mpr large)]

theorem word_ne_error (build : Build) (n : Nat) (e : ε) : build.word n ≠ .error e := by
  unfold word
  split
  · simp
  · cases build <;> simp

theorem word_unfailing (build : Build) (n : Nat) : (build.word n : Outcome ε Nat).Unfailing :=
  word_ne_error build n

theorem word_eq_ok {build : Build} {n m : Nat} (found : (build.word n : Outcome ε Nat) = .ok m) :
    m = n % wordSize := by
  by_cases small : n < wordSize
  · rw [word_of_lt _ small] at found
    rw [Nat.mod_eq_of_lt small]
    exact (Outcome.ok.inj found).symm
  · cases build with
    | debug => simp [word, small] at found
    | release =>
      rw [word_release] at found
      exact (Outcome.ok.inj found).symm

theorem lt_of_word_eq_ok {build : Build} {n m : Nat}
    (found : (build.word n : Outcome ε Nat) = .ok m) : m < wordSize := by
  rw [word_eq_ok found]
  exact Nat.mod_lt _ wordSize_pos

/-- A range whose end was put into a word and did not pass below its start is the
exact one. -/
theorem stop_eq_of_le {build : Build} {start len stop : Nat}
    (found : (build.word (start + len) : Outcome ε Nat) = .ok stop) (startWord : start < wordSize)
    (lenWord : len < wordSize) (le : start ≤ stop) : stop = start + len := by
  have wrapped := word_eq_ok found
  rcases Nat.lt_or_ge (start + len) wordSize with small | large
  · rwa [Nat.mod_eq_of_lt small] at wrapped
  · rw [Nat.mod_eq_sub_mod large, Nat.mod_eq_of_lt (by omega)] at wrapped
    omega

theorem word_eq_panic {build : Build} {n : Nat} {why : Panic} :
    (build.word n : Outcome ε Nat) = .panic why ↔
      build = .debug ∧ wordSize ≤ n ∧ why = .overflow := by
  by_cases small : n < wordSize
  · simp only [word, if_pos small]
    refine ⟨fun impossible => (nomatch impossible), fun ⟨_, large, _⟩ => ?_⟩
    exact absurd small (Nat.not_lt.mpr large)
  · have large := Nat.not_lt.mp small
    cases build <;> simp [word, small, large, eq_comm]

theorem word_panics {build : Build} {n : Nat} :
    (build.word n : Outcome ε Nat).Panics ↔ build = .debug ∧ wordSize ≤ n := by
  simp [Outcome.Panics, word_eq_panic]

/-- What is put into a word, unless that panics, is the exact value modulo the size of one. -/
theorem word_bind_panics {α : Type} {build : Build} {n : Nat} {rest : Nat → Outcome ε α} :
    (build.word n >>= rest).Panics ↔ build = .debug ∧ wordSize ≤ n ∨ (rest (n % wordSize)).Panics := by
  by_cases overflows : build = .debug ∧ wordSize ≤ n
  · obtain ⟨rfl, large⟩ := overflows
    simp [word_debug_of_le large, large]
  · rw [or_iff_right overflows]
    cases build with
    | debug =>
      have small : n < wordSize := by simpa using overflows
      rw [word_of_lt _ small, Nat.mod_eq_of_lt small, Outcome.ok_bind]
    | release => rw [word_release, Outcome.ok_bind]

theorem sub_panics {build : Build} {x y : Nat} :
    (build.sub x y : Outcome ε Nat).Panics ↔ build = .debug ∧ x < y := by
  unfold sub
  split
  · next le => simp [Nat.not_lt.mpr le]
  · next gt => cases build <;> simp [Nat.lt_of_not_le gt]

theorem sub_of_le (build : Build) {x y : Nat} (le : y ≤ x) :
    (build.sub x y : Outcome ε Nat) = .ok (x - y) := by
  simp only [sub, if_pos le]

theorem word_bind_add (build : Build) (n y : Nat) :
    ((build.word n : Outcome ε Nat) >>= fun x => build.word (x + y)) = build.word (n + y) := by
  cases build with
  | debug =>
    by_cases small : n < wordSize
    · simp [small]
    · rw [word_debug_of_le (Nat.not_lt.mp small), word_debug_of_le (by omega)]
      rfl
  | release => simp [word_release]

theorem word_then_add {α : Type} (build : Build) (n y : Nat) (rest : Nat → Outcome ε α) :
    (build.word n >>= fun x => build.add x y >>= rest) = build.word (n + y) >>= rest :=
  (bind_assoc _ _ _).symm.trans (congrArg (· >>= rest) (word_bind_add build n y))

theorem word_then_add_left {α : Type} (build : Build) (n y : Nat) (rest : Nat → Outcome ε α) :
    (build.word n >>= fun x => build.add y x >>= rest) = build.word (y + n) >>= rest := by
  simp only [add, Nat.add_comm y]
  exact word_then_add build n y rest

/-- Multiplying a word by a nonzero factor is putting the exact product into a
word. A zero factor would hide an overflow of the checked build. -/
theorem word_bind_mul (build : Build) (n y : Nat) (positive : 0 < y) :
    ((build.word n : Outcome ε Nat) >>= fun x => build.word (x * y)) = build.word (n * y) := by
  cases build with
  | debug =>
    by_cases small : n < wordSize
    · simp [small]
    · have large : wordSize ≤ n * y := (Nat.not_lt.mp small).trans (Nat.le_mul_of_pos_right n positive)
      rw [word_debug_of_le (Nat.not_lt.mp small), word_debug_of_le large]
      rfl
  | release => simp [word_release, Nat.mul_mod]

end Build

def saturatingAdd (x y : Nat) : Nat := min (x + y) (wordSize - 1)

def saturatingMul (x y : Nat) : Nat := min (x * y) (wordSize - 1)

def checkedAdd (x y : Nat) : Option Nat := if x + y < wordSize then some (x + y) else none

def checkedMul (x y : Nat) : Option Nat := if x * y < wordSize then some (x * y) else none

def wrappingAdd (x y : Nat) : Nat := (x + y) % wordSize

theorem saturatingMul_lt (x y : Nat) : saturatingMul x y < wordSize :=
  lt_of_le_of_lt (Nat.min_le_right _ _) (Nat.sub_lt wordSize_pos Nat.one_pos)

theorem saturatingAdd_of_lt {x y : Nat} (small : x + y < wordSize) : saturatingAdd x y = x + y := by
  unfold saturatingAdd
  omega

theorem wrappingAdd_of_lt {x y : Nat} (small : x + y < wordSize) : wrappingAdd x y = x + y :=
  Nat.mod_eq_of_lt small

theorem wrappingAdd_lt (x y : Nat) : wrappingAdd x y < wordSize := Nat.mod_lt _ wordSize_pos

theorem checkedMul_eq_some {x y n : Nat} (found : checkedMul x y = some n) :
    n = x * y ∧ x * y < wordSize := by
  unfold checkedMul at found
  split at found
  · next small => exact ⟨(Option.some.inj found).symm, small⟩
  · cases found

end Foundation
