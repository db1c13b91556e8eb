import Mathlib.Data.List.Nodup
import Mathlib.Order.Lattice

/-! Finite sets kept as strictly increasing lists.

The order makes the elements' list canonical, so that two sets with the same
members are equal, and iteration goes from the least element up.
-/

set_option autoImplicit false

namespace Foundation

variable {κ : Type} [LinearOrder κ]

/-- Put a key into an increasing list, once. -/
def place (x : κ) : List κ → List κ
  | [] => [x]
  | y :: ys => if x < y then x :: y :: ys else if x = y then y :: ys else y :: place x ys

theorem mem_place {x z : κ} {ys : List κ} : z ∈ place x ys ↔ z = x ∨ z ∈ ys := by
  induction ys with
  | nil => simp [place]
  | cons y ys ih =>
    rw [place]
    split
    · simp
    · split
      · next same => simp [same]
      · rw [List.mem_cons, ih, List.mem_cons]
        tauto

theorem place_sorted (x : κ) {ys : List κ} (sorted : ys.Pairwise (· < ·)) :
    (place x ys).Pairwise (· < ·) := by
  induction ys with
  | nil => simp [place]
  | cons y ys ih =>
    obtain ⟨above, tail⟩ := List.pairwise_cons.mp sorted
    rw [place]
    split
    · next before =>
      refine List.pairwise_cons.mpr ⟨fun z member => ?_, sorted⟩
      rcases List.mem_cons.mp member with rfl | member
      · exact before
      · exact before.trans (above z member)
    · split
      · exact sorted
      · next notBefore different =>
        refine List.pairwise_cons.mpr ⟨fun z member => ?_, ih tail⟩
        rcases mem_place.mp member with rfl | member
        · exact lt_of_le_of_ne (not_lt.mp notBefore) (Ne.symm different)
        · exact above z member

structure SortedSet (κ : Type) [LinearOrder κ] where
  elements : List κ
  sorted : elements.Pairwise (· < ·)
  deriving DecidableEq, Repr

namespace SortedSet

def empty : SortedSet κ := ⟨[], List.Pairwise.nil⟩

def insert (set : SortedSet κ) (x : κ) : SortedSet κ :=
  ⟨place x set.elements, place_sorted x set.sorted⟩

instance : Membership κ (SortedSet κ) := ⟨fun set x => x ∈ set.elements⟩

@[simp] theorem mem_empty {x : κ} : ¬ x ∈ (empty : SortedSet κ) := List.not_mem_nil

@[simp] theorem mem_insert {set : SortedSet κ} {x z : κ} :
    z ∈ set.insert x ↔ z = x ∨ z ∈ set := mem_place

@[simp] theorem mem_elements {set : SortedSet κ} {x : κ} : x ∈ set.elements ↔ x ∈ set := Iff.rfl

/-- Sets with the same members are equal. -/
theorem ext_mem {first second : SortedSet κ} (same : ∀ x, x ∈ first ↔ x ∈ second) :
    first = second := by
  obtain ⟨left, leftSorted⟩ := first
  obtain ⟨right, rightSorted⟩ := second
  have distinctLeft : left.Nodup := leftSorted.imp ne_of_lt
  have distinctRight : right.Nodup := rightSorted.imp ne_of_lt
  have permuted : left.Perm right := (List.perm_ext_iff_of_nodup distinctLeft distinctRight).mpr same
  have equal : left = right :=
    permuted.eq_of_pairwise (fun x y _ _ before after => absurd after before.asymm) leftSorted rightSorted
  subst equal
  rfl

theorem eq_empty_of_forall {set : SortedSet κ} (none : ∀ x, ¬ x ∈ set) : set = empty :=
  ext_mem fun x => ⟨fun member => absurd member (none x), fun member => absurd member mem_empty⟩

/-- Put every key of a list into a set. -/
def insertAll (set : SortedSet κ) (keys : List κ) : SortedSet κ := keys.foldl insert set

@[simp] theorem insertAll_nil (set : SortedSet κ) : set.insertAll [] = set := rfl

theorem insertAll_append (set : SortedSet κ) (first second : List κ) :
    (set.insertAll first).insertAll second = set.insertAll (first ++ second) :=
  List.foldl_append.symm

theorem mem_insertAll {keys : List κ} {z : κ} : ∀ {set : SortedSet κ},
    z ∈ set.insertAll keys ↔ z ∈ keys ∨ z ∈ set := by
  induction keys with
  | nil => simp [insertAll]
  | cons key keys ih =>
    intro set
    have step := @ih (set.insert key)
    simp only [insertAll, List.foldl_cons, List.mem_cons, mem_insert] at step ⊢
    rw [step]
    tauto

end SortedSet

end Foundation
