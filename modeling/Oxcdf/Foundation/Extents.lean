import Mathlib.Data.List.Basic
import Mathlib.Data.List.Sort

/-! Pieces of a linear space, each with the place it starts at.

Pieces that are laid out one after the other do not overlap, so that a position
inside one of them belongs to no other.
-/

set_option autoImplicit false

namespace Foundation.Extents

variable {α : Type}

/-- The pieces lie one after the other, from a place on and up to another. -/
def Laid : Nat → Nat → List (Nat × List α) → Prop
  | base, stop, [] => base ≤ stop
  | base, stop, piece :: pieces => base ≤ piece.1 ∧ Laid (piece.1 + piece.2.length) stop pieces

theorem Laid.le {base stop : Nat} {pieces : List (Nat × List α)} (laid : Laid base stop pieces) :
    base ≤ stop := by
  induction pieces generalizing base with
  | nil => exact laid
  | cons piece pieces ih => exact laid.1.trans ((Nat.le_add_right _ _).trans (ih laid.2))

theorem Laid.from_le {base lower stop : Nat} {pieces : List (Nat × List α)} (laid : Laid base stop pieces)
    (le : lower ≤ base) : Laid lower stop pieces := by
  cases pieces with
  | nil => exact le.trans laid
  | cons piece pieces => exact ⟨le.trans laid.1, laid.2⟩

theorem Laid.append {base middle stop : Nat} {first second : List (Nat × List α)}
    (laid : Laid base middle first)
    (later : Laid middle stop second) : Laid base stop (first ++ second) := by
  induction first generalizing base with
  | nil => exact later.from_le laid
  | cons piece first ih => exact ⟨laid.1, ih laid.2⟩

theorem Laid.bounds {base stop : Nat} {pieces : List (Nat × List α)} (laid : Laid base stop pieces) :
    ∀ piece ∈ pieces, base ≤ piece.1 ∧ piece.1 + piece.2.length ≤ stop := by
  induction pieces generalizing base with
  | nil => simp
  | cons piece pieces ih =>
    intro found member
    rcases List.mem_cons.mp member with rfl | member
    · exact ⟨laid.1, laid.2.le⟩
    · obtain ⟨after, before⟩ := ih laid.2 found member
      exact ⟨laid.1.trans ((Nat.le_add_right _ _).trans after), before⟩

/-- Pieces one after the other are sorted by where they start. -/
theorem Laid.pairwise {base stop : Nat} {pieces : List (Nat × List α)} (laid : Laid base stop pieces) :
    pieces.Pairwise fun first second => first.1 ≤ second.1 := by
  induction pieces generalizing base with
  | nil => exact List.Pairwise.nil
  | cons piece pieces ih =>
    apply List.Pairwise.cons
    · intro later member
      exact (Nat.le_add_right _ _).trans (laid.2.bounds later member).1
    · exact ih laid.2

/-- The first piece that a position lies in. -/
def find (position : Nat) (pieces : List (Nat × List α)) : Option (Nat × List α) :=
  pieces.find? fun piece => piece.1 ≤ position ∧ position < piece.1 + piece.2.length

/-- A position inside a piece belongs to that piece. -/
theorem Laid.find_eq {base stop : Nat} {pieces : List (Nat × List α)} (laid : Laid base stop pieces)
    {piece : Nat × List α} (member : piece ∈ pieces) {position : Nat} (after : piece.1 ≤ position)
    (before : position < piece.1 + piece.2.length) : find position pieces = some piece := by
  induction pieces generalizing base with
  | nil => exact absurd member List.not_mem_nil
  | cons first pieces ih =>
    rcases List.mem_cons.mp member with rfl | member
    · exact List.find?_cons_of_pos (by simp [after, before])
    · have beyond := (laid.2.bounds piece member).1
      rw [find, List.find?_cons_of_neg (by simp; omega)]
      exact ih laid.2 member

end Foundation.Extents
