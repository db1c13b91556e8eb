import Mathlib.Data.List.Nodup
import Mathlib.Data.List.Pairwise
import Mathlib.Order.Basic

/-! The unfolding of a graph from one of its nodes.

A graph is given by the list of what each node links to. A path is the list of
the positions of the links it follows, so two links of a node to the same target
are two paths. The unfolding to some levels lists one occurrence of a node for
each path of fewer steps; where the paths stay that short, an unfolding without
repetition is the same as a node reached by one path at most.
-/

set_option autoImplicit false

namespace Foundation.Unfolding

variable {α : Type} {links : α → List α}

section Paths

variable (links)

/-- A path from one node to another, by the positions of its links. -/
inductive Path : α → List Nat → α → Prop where
  | here (a : α) : Path a [] a
  | step {a b c : α} {turn : Nat} {turns : List Nat} (link : (links a)[turn]? = some b)
    (rest : Path b turns c) : Path a (turn :: turns) c

/-- Every path from the node has fewer steps than this. -/
def Bounded (levels : Nat) (a : α) : Prop :=
  ∀ turns b, Path links a turns b → turns.length < levels

/-- Some node on a path from here has a path back to itself. -/
def Cyclic (a : α) : Prop :=
  ∃ turns b loop, Path links a turns b ∧ loop ≠ [] ∧ Path links b loop b

/-- Two paths from the node to one other are the same path. -/
def Unique (a : α) : Prop :=
  ∀ first second b, Path links a first b → Path links a second b → first = second

/-- One occurrence of a node for each path of fewer steps than the levels. -/
def unfold : Nat → α → List α
  | 0, _ => []
  | levels + 1, a => a :: (links a).flatMap (unfold levels)

end Paths

theorem Path.append {a b c : α} {first second : List Nat} (front : Path links a first b)
    (back : Path links b second c) : Path links a (first ++ second) c := by
  induction front with
  | here a => exact back
  | step link rest ih => exact .step link (ih back)

/-- A node on a path is its start, or linked to by a node on a path. -/
theorem Path.last {a c : α} {turns : List Nat} (path : Path links a turns c) :
    a = c ∨ ∃ front b, Path links a front b ∧ c ∈ links b := by
  induction path with
  | here a => exact .inl rfl
  | @step a b c turn turns link rest ih =>
    rcases ih with rfl | ⟨front, d, path, member⟩
    · exact .inr ⟨[], a, .here a, List.mem_of_getElem? link⟩
    · exact .inr ⟨turn :: front, d, .step link path, member⟩

/-- A loop can be followed any number of times. -/
theorem Path.repeats {b : α} {loop : List Nat} (around : Path links b loop b) :
    ∀ times, Path links b (List.replicate times loop).flatten b
  | 0 => .here b
  | times + 1 => around.append (around.repeats times)

theorem bounded_zero (a : α) : ¬ Bounded links 0 a := fun bounded =>
  absurd (bounded [] a (.here a)) (Nat.lt_irrefl 0)

/-- A node's paths are short when those of all it links to are shorter. -/
theorem bounded_succ {levels : Nat} {a : α} :
    Bounded links (levels + 1) a ↔ ∀ b ∈ links a, Bounded links levels b := by
  constructor
  · intro bounded b member turns c path
    obtain ⟨turn, small, found⟩ := List.mem_iff_getElem.mp member
    have link : (links a)[turn]? = some b := found ▸ List.getElem?_eq_getElem small
    exact Nat.lt_of_succ_lt_succ (bounded (turn :: turns) c (.step link path))
  · intro bounded turns c path
    cases path with
    | here => exact Nat.succ_pos levels
    | step link rest => exact Nat.succ_lt_succ (bounded _ (List.mem_of_getElem? link) _ c rest)

/-- Where every link lowers a rank, the rank bounds the paths. -/
theorem bounded_of_rank {rank : α → Nat} (lower : ∀ a, ∀ b ∈ links a, rank b < rank a) (a : α) :
    Bounded links (rank a + 1) a := by
  intro turns b path
  induction path with
  | here a => exact Nat.succ_pos _
  | step link rest ih =>
    have smaller := lower _ _ (List.mem_of_getElem? link)
    rw [List.length_cons]
    omega

theorem Bounded.mono {levels more : Nat} {a : α} (bounded : Bounded links levels a) (le : levels ≤ more) :
    Bounded links more a := fun turns b path => Nat.lt_of_lt_of_le (bounded turns b path) le

theorem Bounded.link {levels : Nat} {a b : α} (bounded : Bounded links levels a) (member : b ∈ links a) :
    Bounded links levels b := by
  cases levels with
  | zero => exact absurd bounded (bounded_zero a)
  | succ levels => exact (bounded_succ.mp bounded b member).mono (Nat.le_succ levels)

/-- A node's unfolding does not depend on the levels where its paths are short. -/
theorem unfold_eq {levels : Nat} {a : α} (bounded : Bounded links levels a) :
    unfold links levels a = a :: (links a).flatMap (unfold links levels) := by
  induction levels generalizing a with
  | zero => exact absurd bounded (bounded_zero a)
  | succ levels ih =>
    have shorter := bounded_succ.mp bounded
    have deeper : (links a).flatMap (unfold links levels) = (links a).flatMap (unfold links (levels + 1)) := by
      refine List.flatMap_congr fun b member => ?_
      rw [ih (shorter b member)]
      rfl
    rw [← deeper]
    rfl

/-- A reachable cycle has paths of any length. -/
theorem Bounded.not_cyclic {levels : Nat} {a : α} (bounded : Bounded links levels a) :
    ¬ Cyclic links a := by
  rintro ⟨turns, b, loop, reached, moves, around⟩
  have longest := bounded _ b (reached.append (around.repeats levels))
  have long : levels ≤ (List.replicate levels loop).flatten.length := by
    rw [List.length_flatten, List.map_replicate, List.sum_replicate_nat]
    exact Nat.le_mul_of_pos_right levels (List.length_pos_iff.mpr moves)
  rw [List.length_append] at longest
  omega

theorem mem_unfold {levels : Nat} {a b : α} :
    b ∈ unfold links levels a ↔ ∃ turns, Path links a turns b ∧ turns.length < levels := by
  induction levels generalizing a with
  | zero => simp [unfold]
  | succ levels ih =>
    rw [unfold, List.mem_cons, List.mem_flatMap]
    constructor
    · rintro (rfl | ⟨c, member, inside⟩)
      · exact ⟨[], .here b, Nat.succ_pos levels⟩
      · obtain ⟨turns, path, short⟩ := ih.mp inside
        obtain ⟨turn, small, found⟩ := List.mem_iff_getElem.mp member
        exact ⟨turn :: turns, .step (found ▸ List.getElem?_eq_getElem small) path, Nat.succ_lt_succ short⟩
    · rintro ⟨turns, path, short⟩
      cases path with
      | here => exact .inl rfl
      | step link rest =>
        exact .inr ⟨_, List.mem_of_getElem? link, ih.mpr ⟨_, rest, Nat.lt_of_succ_lt_succ short⟩⟩

theorem Unique.link {a b : α} {turn : Nat} (unique : Unique links a) (link : (links a)[turn]? = some b) :
    Unique links b := fun first second c one other =>
  (List.cons.inj (unique (turn :: first) (turn :: second) c (.step link one) (.step link other))).2

/-- Where paths are short, nothing repeats in the unfolding exactly when no node
is reached by two paths. -/
theorem nodup_unfold {levels : Nat} {a : α} (bounded : Bounded links levels a) :
    (unfold links levels a).Nodup ↔ Unique links a := by
  induction levels generalizing a with
  | zero => exact absurd bounded (bounded_zero a)
  | succ levels ih =>
    have shorter := bounded_succ.mp bounded
    rw [unfold, List.nodup_cons, List.nodup_flatMap]
    constructor
    · rintro ⟨fresh, each, apart⟩ first second b one other
      -- A path back to the node would repeat it below itself.
      have outside : ∀ {turn turns}, ¬ Path links a (turn :: turns) a := by
        intro turn turns path
        cases path with
        | step link rest =>
          have member := List.mem_of_getElem? link
          refine fresh (List.mem_flatMap.mpr ⟨_, member, mem_unfold.mpr ⟨turns, rest, ?_⟩⟩)
          exact shorter _ member turns a rest
      cases one with
      | here =>
        cases other with
        | here => rfl
        | step link rest => exact absurd (Path.step link rest) outside
      | @step _ middle _ turn turns link rest =>
        cases other with
        | here => exact absurd (Path.step link rest) outside
        | @step _ also _ turn' turns' link' rest' =>
          have inside := mem_unfold.mpr ⟨_, rest, shorter _ (List.mem_of_getElem? link) _ _ rest⟩
          have inside' := mem_unfold.mpr ⟨_, rest', shorter _ (List.mem_of_getElem? link') _ _ rest'⟩
          obtain ⟨small, rfl⟩ := List.getElem?_eq_some_iff.mp link
          obtain ⟨small', rfl⟩ := List.getElem?_eq_some_iff.mp link'
          -- Paths that part at once would put their end below two of the children.
          rcases Nat.lt_trichotomy turn turn' with before | rfl | after
          · exact absurd inside' (List.pairwise_iff_getElem.mp apart _ _ small small' before inside)
          · have member := List.getElem_mem small
            rw [(ih (shorter _ member)).mp (each _ member) turns turns' b rest rest']
          · exact absurd inside (List.pairwise_iff_getElem.mp apart _ _ small' small after inside')
    · intro unique
      refine ⟨?_, ?_, List.pairwise_iff_getElem.mpr ?_⟩
      · intro again
        obtain ⟨c, member, inside⟩ := List.mem_flatMap.mp again
        obtain ⟨turns, path, -⟩ := mem_unfold.mp inside
        obtain ⟨turn, small, found⟩ := List.mem_iff_getElem.mp member
        have link : (links a)[turn]? = some c := found ▸ List.getElem?_eq_getElem small
        exact nomatch unique [] (turn :: turns) a (.here a) (.step link path)
      · intro c member
        obtain ⟨turn, small, found⟩ := List.mem_iff_getElem.mp member
        exact (ih (shorter c member)).mpr (unique.link (found ▸ List.getElem?_eq_getElem small))
      · intro turn turn' small small' before b inside inside'
        obtain ⟨turns, path, -⟩ := mem_unfold.mp inside
        obtain ⟨turns', path', -⟩ := mem_unfold.mp inside'
        have same := unique (turn :: turns) (turn' :: turns') b
          (.step (List.getElem?_eq_getElem small) path) (.step (List.getElem?_eq_getElem small') path')
        exact absurd (List.cons.inj same).1 (Nat.ne_of_lt before)

end Foundation.Unfolding
