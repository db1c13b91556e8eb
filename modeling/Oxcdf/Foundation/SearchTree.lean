import Mathlib.Algebra.GroupWithZero.Nat
import Mathlib.Tactic.Common

/-! Trees that keep entries between their children, with all leaves at one depth.

The depth is part of the type, so that a tree out of balance cannot be built. Read in
order, a tree whose entries divide what stands beside them is ascending.
-/

set_option autoImplicit false

namespace Foundation.SearchTree

variable {α β γ : Type}

/-- What an inner node holds: a child, and each further child behind an entry. -/
structure Branch (α β : Type) where
  first : β
  rest : List (α × β)

namespace Branch

def entries (branch : Branch α β) : List α := branch.rest.map Prod.fst

def children (branch : Branch α β) : List β := branch.first :: branch.rest.map Prod.snd

def map (f : β → γ) (branch : Branch α β) : Branch α γ where
  first := f branch.first
  rest := branch.rest.map fun (entry, child) => (entry, f child)

/-- Child, entry, child, and so on to the last child. -/
def inOrder (below : β → List α) (branch : Branch α β) : List α :=
  below branch.first ++ branch.rest.flatMap fun (entry, child) => entry :: below child

/-- The sum of a weight of the children. -/
def total (weight : β → Nat) (branch : Branch α β) : Nat := (branch.children.map weight).sum

theorem inOrder_map (f : β → γ) (below : γ → List α) (branch : Branch α β) :
    (branch.map f).inOrder below = branch.inOrder fun child => below (f child) := by
  simp [inOrder, map, List.flatMap_map]

theorem total_map (f : β → γ) (weight : γ → Nat) (branch : Branch α β) :
    (branch.map f).total weight = branch.total fun child => weight (f child) := by
  simp [total, children, map, Function.comp_def]

end Branch

/-- A tree of some depth. A leaf is a run of entries. -/
def Tree (α : Type) : Nat → Type
  | 0 => List α
  | depth + 1 => Branch α (Tree α depth)

namespace Tree

def inOrder : (depth : Nat) → Tree α depth → List α
  | 0, entries => entries
  | depth + 1, branch => Branch.inOrder (inOrder depth) branch

def nodes : (depth : Nat) → Tree α depth → Nat
  | 0, _ => 1
  | depth + 1, branch => 1 + Branch.total (nodes depth) branch

end Tree

section Ordered

variable (lt : α → α → Prop)

/-- An entry after a lower bound, if there is one. -/
def Above : Option α → α → Prop
  | none, _ => True
  | some low, entry => lt low entry

/-- Every child has its place between the entries beside it. -/
def Divided (below : β → List α) : Option α → β → List (α × β) → Prop
  | low, child, [] => ∀ entry ∈ below child, Above lt low entry
  | low, child, (next, other) :: rest =>
    (∀ entry ∈ below child, Above lt low entry ∧ lt entry next) ∧ Above lt low next ∧
      Divided below (some next) other rest

def Tree.Ordered : (depth : Nat) → Tree α depth → Prop
  | 0, entries => List.Pairwise lt entries
  | depth + 1, branch =>
    (∀ child ∈ Branch.children branch, Ordered depth child) ∧
      Divided lt (Tree.inOrder depth) none (Branch.first branch) (Branch.rest branch)

variable {lt}

theorem Above.trans (trans : ∀ a b c, lt a b → lt b c → lt a c) {low : Option α} {a b : α}
    (above : Above lt low a) (after : lt a b) : Above lt low b := by
  cases low with
  | none => exact True.intro
  | some low => exact trans low a b above after

theorem Divided.ascends (trans : ∀ a b c, lt a b → lt b c → lt a c) {below : β → List α} {rest : List (α × β)}
    {low : Option α} {child : β} (divided : Divided lt below low child rest)
    (each : ∀ other ∈ child :: rest.map Prod.snd, (below other).Pairwise lt) :
    (∀ entry ∈ Branch.inOrder below ⟨child, rest⟩, Above lt low entry) ∧
      (Branch.inOrder below ⟨child, rest⟩).Pairwise lt := by
  induction rest generalizing low child with
  | nil =>
    have here := each child List.mem_cons_self
    simpa [Branch.inOrder, Divided] using And.intro divided here
  | cons pair rest ih =>
    obtain ⟨next, other⟩ := pair
    obtain ⟨before, above, later⟩ := divided
    have ascends := each child List.mem_cons_self
    obtain ⟨after, ordered⟩ := ih later fun c member => each c (List.mem_cons_of_mem _ member)
    have split : Branch.inOrder below ⟨child, (next, other) :: rest⟩ =
        below child ++ next :: Branch.inOrder below ⟨other, rest⟩ := by
      simp [Branch.inOrder]
    rw [split]
    constructor
    · intro entry member
      rcases List.mem_append.mp member with left | right
      · exact (before entry left).1
      · rcases List.mem_cons.mp right with rfl | behind
        · exact above
        · exact above.trans trans (after entry behind)
    · rw [List.pairwise_append, List.pairwise_cons]
      refine ⟨ascends, ⟨after, ordered⟩, fun entry left later right => ?_⟩
      rcases List.mem_cons.mp right with rfl | behind
      · exact (before entry left).2
      · exact trans _ _ _ (before entry left).2 (after later behind)

theorem Tree.Ordered.ascends (trans : ∀ a b c, lt a b → lt b c → lt a c) :
    ∀ {depth : Nat} {tree : Tree α depth}, tree.Ordered lt depth → (tree.inOrder depth).Pairwise lt
  | 0, _, ordered => ordered
  | depth + 1, branch, ordered => by
    obtain ⟨children, divided⟩ := ordered
    exact (divided.ascends trans fun child member => (children child member).ascends trans).2

end Ordered

end Foundation.SearchTree
