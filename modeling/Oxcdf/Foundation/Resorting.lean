import Mathlib.Data.List.Perm.Basic
import Mathlib.Data.List.ReduceOption
import Mathlib.Data.List.Sort

/-! Working items off in another order, and putting the results back in their own.

Each item goes with its position. An item may have no result; those of the others are
sorted by the positions in the end.
-/

set_option autoImplicit false

namespace Foundation

variable {α β : Type} {result : α → β → Prop} {keeps : α → Bool}

/-- What an item comes to: a result with its position, or none if it has none. -/
def Comes (keeps : α → Bool) (result : α → β → Prop) (entry : α × Nat) (out : Option (Nat × β)) : Prop :=
  if keeps entry.1 then ∃ b, out = some (entry.2, b) ∧ result entry.1 b else out = none

/-- Worked off in order, the results stand in the order of their items, and the positions rise. -/
theorem comes_in_order : ∀ {items : List α} {start : Nat} {outs : List (Option (Nat × β))},
    List.Forall₂ (Comes keeps result) (items.zipIdx start) outs →
    List.Forall₂ result (items.filter keeps) (outs.reduceOption.map Prod.snd) ∧
      outs.reduceOption.Pairwise (fun a b => a.1 < b.1) ∧ ∀ entry ∈ outs.reduceOption, start ≤ entry.1
  | [], _, _, .nil => by simp
  | item :: items, start, _, .cons here rest => by
    obtain ⟨matched, rising, above⟩ := comes_in_order rest
    unfold Comes at here
    cases kept : keeps item with
    | false =>
      obtain rfl : _ = none := by simpa [kept] using here
      rw [List.filter_cons_of_neg (by simp [kept]), List.reduceOption_cons_of_none]
      exact ⟨matched, rising, fun entry member => Nat.le_of_succ_le (above entry member)⟩
    | true =>
      obtain ⟨b, rfl, own⟩ : ∃ b, _ = some (start, b) ∧ result item b := by simpa [kept] using here
      rw [List.filter_cons_of_pos (by simp [kept]), List.reduceOption_cons_of_some, List.map_cons]
      refine ⟨.cons own matched, List.pairwise_cons.mpr ⟨above, rising⟩, ?_⟩
      intro entry member
      rcases List.mem_cons.mp member with rfl | later
      · exact Nat.le_refl start
      · exact Nat.le_of_succ_le (above entry later)

/-- Whatever order the items are worked off in, sorting by position gives their results in their own order. -/
theorem comes_resorted {items : List α} {order : List (α × Nat)} (perm : order.Perm items.zipIdx)
    {outs : List (Option (Nat × β))} (each : List.Forall₂ (Comes keeps result) order outs) :
    List.Forall₂ result (items.filter keeps)
      ((outs.reduceOption.mergeSort fun a b => a.1 ≤ b.1).map Prod.snd) := by
  obtain ⟨ordered, inOrder, same⟩ := List.perm_comp_forall₂ perm.symm each
  obtain ⟨matched, rising, -⟩ := comes_in_order inOrder
  have sorted : (outs.reduceOption.mergeSort fun a b => a.1 ≤ b.1).Pairwise fun a b => a.1 ≤ b.1 := by
    have sorts := @List.pairwise_mergeSort (Nat × β) (fun a b => decide (a.1 ≤ b.1))
      (fun a b c => by simpa using Nat.le_trans) (fun a b => by simpa using Nat.le_total a.1 b.1) outs.reduceOption
    simpa using sorts
  have perm' := (List.mergeSort_perm outs.reduceOption fun a b => a.1 ≤ b.1).trans (same.symm.filterMap id)
  -- Two results of one position are one, as the positions rise.
  have apart : (ordered.reduceOption.map Prod.fst).Nodup := (List.pairwise_map.mpr rising).imp Nat.ne_of_lt
  have restored : (outs.reduceOption.mergeSort fun a b => a.1 ≤ b.1) = ordered.reduceOption :=
    List.Perm.eq_of_pairwise (fun a b left right upper lower =>
      List.inj_on_of_nodup_map apart (perm'.mem_iff.mp left) right (Nat.le_antisymm upper lower))
      sorted (rising.imp Nat.le_of_lt) perm'
  rwa [restored]

theorem map_eq_of_forall₂ {Name : Type} {name : α → Name} {other : β → Name} {items : List α} {matched : List β}
    (each : List.Forall₂ result items matched) (same : ∀ a b, result a b → other b = name a) :
    matched.map other = items.map name := by
  induction each with
  | nil => rfl
  | cons here _ ih => exact congrArg₂ List.cons (same _ _ here) ih

theorem forall₂_filterMap {γ : Type} {items : List α} {matched : List β} {value : β → Option γ} {held : α → γ → Prop}
    (each : List.Forall₂ result items matched)
    (maps : ∀ a ∈ items, ∀ b, result a b → ∃ c, value b = some c ∧ held a c) :
    List.Forall₂ held items (matched.filterMap value) := by
  induction each with
  | nil => exact .nil
  | cons here _ ih =>
    obtain ⟨c, found, holds⟩ := maps _ List.mem_cons_self _ here
    rw [List.filterMap_cons_some found]
    exact .cons holds (ih fun a member => maps a (List.mem_cons_of_mem _ member))

end Foundation
