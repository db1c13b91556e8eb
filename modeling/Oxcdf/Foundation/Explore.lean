import Mathlib.Data.List.Nodup
import Oxcdf.Foundation.Outcome

/-! A walk over a graph that is not known in advance.

Visiting a node says what it holds and which nodes it names. The nodes that wait are on
a stack, those that were visited are in a set, and both the set and what was found are
kept below a limit, so that the walk ends on every graph. Where no node is named twice
the set makes no difference.
-/

set_option autoImplicit false

namespace Foundation.Explore

variable {ι α ε : Type}

/-- Without a set of visited nodes: the nodes in the order they are visited, and what they
hold. Of the nodes that one names, the last comes first. -/
inductive Explores (visit : ι → Outcome ε (List α × List ι)) : List ι → List ι → List α → Prop where
  | done : Explores visit [] [] []
  | node {a : ι} {stack order named : List ι} {found out : List α} (visited : visit a = .ok (found, named))
      (rest : Explores visit (named.reverse ++ stack) order out) :
      Explores visit (a :: stack) (a :: order) (found ++ out)

variable {visit : ι → Outcome ε (List α × List ι)}

/-- What waits further down the stack is visited later. -/
theorem Explores.append {first second order later : List ι} {out more : List α}
    (one : Explores visit first order out) (other : Explores visit second later more) :
    Explores visit (first ++ second) (order ++ later) (out ++ more) := by
  induction one with
  | done => exact other
  | node visited rest ih =>
    rw [List.append_assoc] at ih
    have here := Explores.node visited ih
    rwa [← List.append_assoc] at here

theorem Explores.flatMap {β : Type} {address : β → ι} {order : β → List ι} {out : β → List α} {nodes : List β}
    (each : ∀ node ∈ nodes, Explores visit [address node] (order node) (out node)) :
    Explores visit (nodes.map address) (nodes.flatMap order) (nodes.flatMap out) := by
  induction nodes with
  | nil => exact .done
  | cons node nodes ih =>
    have first := each node List.mem_cons_self
    exact first.append (ih fun other member => each other (List.mem_cons_of_mem node member))

/-- What is still to be visited stays fresh when the first of it is visited. -/
theorem fresh_of_cons {a : ι} {order visited : List ι} (outside : a ∉ order)
    (fresh : ∀ b ∈ a :: order, b ∉ visited) : ∀ b ∈ order, b ∉ a :: visited := by
  intro b member again
  rcases List.mem_cons.mp again with rfl | seen
  · exact outside member
  · exact fresh b (List.mem_cons_of_mem a member) seen

section Walk

variable [DecidableEq ι] (visit : ι → Outcome ε (List α × List ι)) (limit : Nat) (counted : Bool) (tooLarge : ε)

/-- Whether the walk has come to its limit; some walks count what they found as well. -/
def AtLimit (visited : List ι) (out : List α) : Prop := visited.length > limit ∨ counted ∧ out.length > limit

instance (visited : List ι) (out : List α) : Decidable (AtLimit limit counted visited out) :=
  inferInstanceAs (Decidable (_ ∨ _))

/-- What was found, and the nodes that were visited, the last one first. -/
def walk (stack visited : List ι) (out : List α) : Outcome ε (List α) × List ι :=
  match stack with
  | [] => (.ok out, visited)
  | a :: stack =>
    if AtLimit limit counted visited out then (.error tooLarge, visited)
    else if a ∈ visited then walk stack visited out
    else
      match visit a with
      | .ok (found, named) => walk (named.reverse ++ stack) (a :: visited) (out ++ found)
      | .error e => (.error e, a :: visited)
      | .panic why => (.panic why, a :: visited)
termination_by (limit + 1 - visited.length, stack.length)
decreasing_by
  · exact Prod.Lex.right _ (Nat.lt_succ_self _)
  · next below _ =>
    have room : visited.length ≤ limit := Nat.not_lt.mp fun past => below (.inl past)
    apply Prod.Lex.left
    simp only [List.length_cons]
    omega

variable {visit limit counted tooLarge}

/-- What a walk finds has a property if what it finds at each node has it. -/
theorem walk_all {property : α → Prop} (each : ∀ a found named, visit a = .ok (found, named) →
      ∀ item ∈ found, property item) {stack visited : List ι} {out last : List α}
    (before : ∀ item ∈ out, property item)
    (walked : (walk visit limit counted tooLarge stack visited out).1 = .ok last) :
    ∀ item ∈ last, property item := by
  fun_induction walk visit limit counted tooLarge stack visited out with
  | case1 =>
    cases walked
    exact before
  | case2 => cases walked
  | case3 _ _ _ _ _ _ ih => exact ih before walked
  | case4 _ _ a _ _ _ found named here ih =>
    exact ih (List.forall_mem_append.mpr ⟨before, each a found named here⟩) walked
  | case5 => cases walked
  | case6 => cases walked

/-- Where no node is named twice and the limit is not reached, the walk finds what exploring finds. -/
theorem walk_of_explores {stack order visited : List ι} {out found : List α}
    (explores : Explores visit stack order found) (distinct : order.Nodup) (fresh : ∀ a ∈ order, a ∉ visited)
    (few : visited.length + order.length ≤ limit + 1) (short : counted → out.length + found.length ≤ limit) :
    walk visit limit counted tooLarge stack visited out = (.ok (out ++ found), order.reverse ++ visited) := by
  induction explores generalizing visited out with
  | done =>
    rw [walk]
    simp
  | @node a stack order named found more here rest ih =>
    simp only [List.length_cons, List.length_append] at few short
    obtain ⟨outside, apart⟩ := List.nodup_cons.mp distinct
    have below : ¬ AtLimit limit counted visited out := by
      rintro (past | ⟨counts, past⟩)
      · omega
      · have bound := short counts
        omega
    rw [walk, if_neg below, if_neg (fresh a List.mem_cons_self), here]
    dsimp only
    rw [ih apart]
    · simp
    · exact fresh_of_cons outside fresh
    · simp only [List.length_cons]
      omega
    · intro counts
      have bound := short counts
      simp only [List.length_append]
      omega

/-- A walk that only counts nodes fails where there are more than its limit. -/
theorem walk_of_many {stack order visited : List ι} {out found : List α}
    (explores : Explores visit stack order found) (distinct : order.Nodup) (fresh : ∀ a ∈ order, a ∉ visited)
    (few : visited.length ≤ limit + 1) (many : limit + 1 < visited.length + order.length) :
    (walk visit limit false tooLarge stack visited out).1 = .error tooLarge := by
  induction explores generalizing visited out with
  | done =>
    simp at many
    omega
  | @node a stack order named found more here rest ih =>
    obtain ⟨outside, apart⟩ := List.nodup_cons.mp distinct
    rw [walk]
    by_cases past : visited.length > limit
    · rw [if_pos (.inl past)]
    · have below : ¬ AtLimit limit false visited out :=
        fun reached => past (reached.resolve_right fun ⟨no, _⟩ => nomatch no)
      rw [if_neg below, if_neg (fresh a List.mem_cons_self), here]
      apply ih apart
      · exact fresh_of_cons outside fresh
      · simp only [List.length_cons]
        omega
      · simp only [List.length_cons] at many ⊢
        omega

end Walk

section Turned

/-- A block with something in it. -/
def Filled (block : List α) : Bool := !block.isEmpty

theorem flatten_filled (blocks : List (List α)) : (blocks.filter Filled).flatten = blocks.flatten :=
  List.flatten_filter_not_isEmpty

/-- Blocks without repetition read the same the other way round, exactly if one at most has something in it. -/
theorem flatten_reverse_eq_iff {blocks : List (List α)} (distinct : blocks.flatten.Nodup) :
    blocks.reverse.flatten = blocks.flatten ↔ (blocks.filter Filled).length ≤ 1 := by
  rw [← flatten_filled blocks, ← flatten_filled blocks.reverse, List.filter_reverse]
  rw [← flatten_filled blocks] at distinct
  have filled : ∀ block ∈ blocks.filter Filled, block ≠ [] := by
    intro block member
    simpa [Filled] using (List.mem_filter.mp member).2
  generalize blocks.filter Filled = blocks at distinct filled
  match blocks with
  | [] => simp
  | [block] => simp
  | first :: second :: rest =>
    -- The last block would have to start with what the first one starts with.
    simp only [List.length_cons]
    refine iff_of_false (fun same => ?_) (by omega)
    have behind : (second :: rest).reverse ≠ [] := by simp
    obtain ⟨last, others, turned⟩ := List.exists_cons_of_ne_nil behind
    have lastMember : last ∈ second :: rest := by
      rw [← List.mem_reverse, turned]
      exact List.mem_cons_self
    obtain ⟨a, front, rfl⟩ := List.exists_cons_of_ne_nil (filled first List.mem_cons_self)
    obtain ⟨b, tail, rfl⟩ := List.exists_cons_of_ne_nil (filled last (List.mem_cons_of_mem _ lastMember))
    rw [List.reverse_cons, turned] at same
    simp only [List.cons_append, List.flatten_cons, List.cons.injEq] at same
    obtain ⟨rfl, -⟩ := same
    rw [List.flatten_cons, List.nodup_append] at distinct
    have below : b ∈ (second :: rest).flatten := List.mem_flatten.mpr ⟨_, lastMember, List.mem_cons_self⟩
    exact distinct.2.2 b List.mem_cons_self b below rfl

end Turned

end Foundation.Explore
