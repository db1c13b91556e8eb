import Mathlib.Data.List.Lex
import Mathlib.Data.List.Perm.Basic
import Mathlib.Data.List.Shortlex
import Oxcdf.Foundation.Unfolding

/-! Orders of visiting what a node links to.

A walk that takes the node named last visits the unfolding of the graph with the
links of each node turned round. One that takes the node named first visits level
by level. In an unfolding without repetition both visit the same nodes. Their orders
are those of the paths to the nodes: which comes first of two that part, depends on
the links where they part, and level by level on the lengths before.
-/

set_option autoImplicit false

namespace Foundation.Worklist

open Foundation.Unfolding

variable {α : Type} (links : α → List α)

/-- Level by level; each level is what the one before it names, in that order. -/
def firstNamedFirst : Nat → List α → List α
  | 0, _ => []
  | levels + 1, layer => layer ++ firstNamedFirst levels (layer.flatMap links)

/-- The links of a node, the last one first. -/
def turned (a : α) : List α := (links a).reverse

/-- Depth first; of the nodes named, the last one first. -/
def lastNamedFirst (levels : Nat) (a : α) : List α := unfold (turned links) levels a

variable {links}

/-- Paths stay short when the links are turned round. -/
theorem bounded_turned {levels : Nat} {a : α} :
    Bounded (turned links) levels a ↔ Bounded links levels a := by
  induction levels generalizing a with
  | zero => exact iff_of_false (bounded_zero a) (bounded_zero a)
  | succ levels ih =>
    rw [bounded_succ, bounded_succ]
    simp only [turned, List.mem_reverse, ih]

theorem lastNamedFirst_perm (levels : Nat) (a : α) :
    (lastNamedFirst links levels a).Perm (unfold links levels a) := by
  induction levels generalizing a with
  | zero => exact List.Perm.nil
  | succ levels ih =>
    apply List.Perm.cons a
    exact (links a).reverse_perm.flatMap fun b _ => ih b

/-- A level and what lies below it are the unfoldings of its nodes. -/
theorem firstNamedFirst_perm (levels : Nat) (layer : List α) :
    (firstNamedFirst links levels layer).Perm (layer.flatMap (unfold links levels)) := by
  induction levels generalizing layer with
  | zero =>
    have none : layer.flatMap (unfold links 0) = [] := List.flatMap_eq_nil_iff.mpr fun _ _ => rfl
    rw [none]
    exact List.Perm.nil
  | succ levels ih =>
    have below := (ih (layer.flatMap links)).append_left layer
    have split := List.map_append_flatMap_perm layer id fun a => (links a).flatMap (unfold links levels)
    rw [List.map_id, ← List.flatMap_assoc] at split
    exact below.trans split

/-- Where nothing links to two nodes there is one order. -/
theorem lastNamedFirst_eq {levels : Nat} {a : α}
    (single : ∀ b ∈ unfold links levels a, (links b).length ≤ 1) :
    lastNamedFirst links levels a = firstNamedFirst links levels [a] := by
  have empty : ∀ levels, firstNamedFirst links levels [] = [] := by
    intro levels
    induction levels with
    | zero => rfl
    | succ levels ih => exact ih
  induction levels generalizing a with
  | zero => rfl
  | succ levels ih =>
    have few := single a (List.mem_cons_self ..)
    have below : ∀ b ∈ links a, ∀ c ∈ unfold links levels b, (links c).length ≤ 1 := fun b member c inside =>
      single c (List.mem_cons_of_mem _ (List.mem_flatMap.mpr ⟨b, member, inside⟩))
    change a :: (links a).reverse.flatMap (lastNamedFirst links levels) =
      a :: firstNamedFirst links levels ([a].flatMap links)
    rw [List.flatMap_singleton]
    cases named : links a with
    | nil => rw [empty]; rfl
    | cons b others =>
      rw [named] at few
      obtain rfl : others = [] := List.length_eq_zero_iff.mp (by rw [List.length_cons] at few; omega)
      rw [← ih (below b (named ▸ List.mem_cons_self ..))]
      exact congrArg (a :: ·) (List.append_nil _)

section Orders

variable (links)

/-- Two nodes are reached by paths that stand in an order. -/
def Along (order : List Nat → List Nat → Prop) (a b c : α) : Prop :=
  ∃ first second, Path links a first b ∧ Path links a second c ∧ order first second

/-- Where two links of a node both lead to nodes that are counted, those behind the later link are nearer. -/
def InTurn (counted : α → Prop) (a : α) : Prop :=
  ∀ front i j first second b c, i < j → counted b → counted c → Path links a (front ++ i :: first) b →
    Path links a (front ++ j :: second) c → second.length < first.length

end Orders

/-- Paths of one length stay in order when they go on. -/
theorem lex_append_of_length {order : Nat → Nat → Prop} {first second : List Nat} (same : first.length = second.length)
    (less : List.Lex order first second) (more others : List Nat) :
    List.Lex order (first ++ more) (second ++ others) := by
  induction less with
  | nil => cases same
  | rel h => exact .rel h
  | cons _ ih => exact .cons (ih (Nat.succ.inj same))

/-- A path goes on along another, or the two part somewhere. -/
theorem parts (first second : List Nat) :
    (∃ more, second = first ++ more) ∨ (∃ more, first = second ++ more) ∨
      ∃ front i j rest others, i ≠ j ∧ first = front ++ i :: rest ∧ second = front ++ j :: others := by
  induction first generalizing second with
  | nil => exact .inl ⟨second, rfl⟩
  | cons i first ih =>
    cases second with
    | nil => exact .inr (.inl ⟨i :: first, rfl⟩)
    | cons j second =>
      by_cases same : i = j
      · subst same
        rcases ih second with ⟨more, rfl⟩ | ⟨more, rfl⟩ | ⟨front, k, l, rest, others, apart, rfl, rfl⟩
        · exact .inl ⟨more, rfl⟩
        · exact .inr (.inl ⟨more, rfl⟩)
        · exact .inr (.inr ⟨i :: front, k, l, rest, others, apart, rfl, rfl⟩)
      · exact .inr (.inr ⟨[], i, j, first, second, same, rfl, rfl⟩)

theorem lex_parted {order : Nat → Nat → Prop} (loop : ∀ k, ¬ order k k) {i j : Nat} (apart : i ≠ j)
    (front rest others : List Nat) :
    List.Lex order (front ++ i :: rest) (front ++ j :: others) ↔ order i j := by
  induction front with
  | nil =>
    constructor
    · rintro (_ | h | h)
      · exact h
      · exact absurd rfl apart
    · exact .rel
  | cons k front ih =>
    rw [List.cons_append, List.cons_append, ← ih]
    constructor
    · rintro (_ | h | h)
      · exact absurd h (loop k)
      · exact h
    · exact .cons

theorem reached_of_mem {levels : Nat} {a b : α} (member : b ∈ lastNamedFirst links levels a) :
    ∃ turns, Path links a turns b := by
  obtain ⟨turns, path, -⟩ := mem_unfold.mp ((lastNamedFirst_perm levels a).mem_iff.mp member)
  exact ⟨turns, path⟩

/-- Depth first, a path comes before those that go on along it, and after those that part from it at a later
link. -/
theorem lastNamedFirst_pairwise (levels : Nat) (a : α) :
    (lastNamedFirst links levels a).Pairwise (Along links (List.Lex (· > ·)) a) := by
  induction levels generalizing a with
  | zero => exact .nil
  | succ levels ih =>
    have below {i : Nat} (small : i < (links a).length) {b : α}
        (member : b ∈ lastNamedFirst links levels (links a)[i]) :
        ∃ turns, Path links (links a)[i] turns b ∧ Path links a (i :: turns) b := by
      obtain ⟨turns, path⟩ := reached_of_mem member
      exact ⟨turns, path, .step (List.getElem?_eq_getElem small) path⟩
    refine List.pairwise_cons.mpr ⟨fun b member => ?_, List.pairwise_flatMap.mpr ⟨fun b member => ?_, ?_⟩⟩
    · obtain ⟨c, named, inside⟩ := List.mem_flatMap.mp member
      obtain ⟨i, small, rfl⟩ := List.mem_iff_getElem.mp (List.mem_reverse.mp named)
      obtain ⟨turns, -, path⟩ := below small inside
      exact ⟨[], i :: turns, .here a, path, .nil⟩
    · obtain ⟨i, small, rfl⟩ := List.mem_iff_getElem.mp (List.mem_reverse.mp member)
      refine (ih (links a)[i]).imp fun ⟨first, second, one, other, less⟩ => ?_
      exact ⟨i :: first, i :: second, .step (List.getElem?_eq_getElem small) one,
        .step (List.getElem?_eq_getElem small) other, .cons less⟩
    · rw [turned, List.pairwise_reverse]
      refine List.pairwise_iff_getElem.mpr fun i j left right before b inside c among => ?_
      obtain ⟨first, -, one⟩ := below right inside
      obtain ⟨second, -, other⟩ := below left among
      exact ⟨j :: first, i :: second, one, other, .rel before⟩

/-- Level by level, shorter paths come first, and those of one length in the order of their links. -/
theorem firstNamedFirst_pairwise {a : α} (levels : Nat) {steps : Nat} {layer : List α}
    (reached : ∀ b ∈ layer, ∃ turns, Path links a turns b ∧ turns.length = steps)
    (ordered : layer.Pairwise (Along links (fun first second => first.length = steps ∧ second.length = steps ∧
      List.Lex (· < ·) first second) a)) :
    (∀ b ∈ firstNamedFirst links levels layer, ∃ turns, Path links a turns b ∧ steps ≤ turns.length) ∧
      (firstNamedFirst links levels layer).Pairwise (Along links (List.Shortlex (· < ·)) a) := by
  induction levels generalizing steps layer with
  | zero => exact ⟨fun b member => absurd member List.not_mem_nil, .nil⟩
  | succ levels ih =>
    have next {turns : List Nat} {b c : α} {i : Nat} (path : Path links a turns b) (link : (links b)[i]? = some c) :
        Path links a (turns ++ [i]) c := path.append (.step link (.here c))
    have deeper : ∀ c ∈ layer.flatMap links, ∃ turns, Path links a turns c ∧ turns.length = steps + 1 := by
      intro c member
      obtain ⟨b, here, named⟩ := List.mem_flatMap.mp member
      obtain ⟨turns, path, rfl⟩ := reached b here
      obtain ⟨i, link⟩ := List.mem_iff_getElem?.mp named
      exact ⟨turns ++ [i], next path link, List.length_append⟩
    have sorted : (layer.flatMap links).Pairwise (Along links (fun first second => first.length = steps + 1 ∧
        second.length = steps + 1 ∧ List.Lex (· < ·) first second) a) := by
      refine List.pairwise_flatMap.mpr ⟨fun b member => ?_, ordered.imp ?_⟩
      · obtain ⟨turns, path, rfl⟩ := reached b member
        refine List.pairwise_iff_getElem.mpr fun i j left right before => ?_
        exact ⟨turns ++ [i], turns ++ [j], next path (List.getElem?_eq_getElem left),
          next path (List.getElem?_eq_getElem right), List.length_append, List.length_append,
          List.Lex.append_left _ (.rel before) turns⟩
      · rintro b c ⟨first, second, one, other, same, alike, less⟩ d inside e among
        obtain ⟨i, link⟩ := List.mem_iff_getElem?.mp inside
        obtain ⟨j, found⟩ := List.mem_iff_getElem?.mp among
        exact ⟨first ++ [i], second ++ [j], next one link, next other found, by rw [List.length_append, same]; rfl,
          by rw [List.length_append, alike]; rfl, lex_append_of_length (same.trans alike.symm) less _ _⟩
    obtain ⟨far, later⟩ := ih deeper sorted
    constructor
    · intro b member
      rcases List.mem_append.mp member with here | below
      · obtain ⟨turns, path, same⟩ := reached b here
        exact ⟨turns, path, same.ge⟩
      · obtain ⟨turns, path, long⟩ := far b below
        exact ⟨turns, path, Nat.le_of_succ_le long⟩
    · refine List.pairwise_append.mpr ⟨ordered.imp ?_, later, fun b here c below => ?_⟩
      · rintro b c ⟨first, second, one, other, same, alike, less⟩
        exact ⟨first, second, one, other, .of_lex (same.trans alike.symm) less⟩
      · obtain ⟨first, one, same⟩ := reached b here
        obtain ⟨second, other, long⟩ := far c below
        exact ⟨first, second, one, other, .of_length_lt (by omega)⟩

theorem firstNamedFirst_perm_lastNamedFirst (levels : Nat) (a : α) :
    (firstNamedFirst links levels [a]).Perm (lastNamedFirst links levels a) := by
  have first := @firstNamedFirst_perm _ links levels [a]
  rw [List.flatMap_singleton] at first
  exact first.trans (lastNamedFirst_perm levels a).symm

theorem along_iff {order : List Nat → List Nat → Prop} {a b c : α} {first second : List Nat} (unique : Unique links a)
    (one : Path links a first b) (other : Path links a second c) : Along links order a b c ↔ order first second := by
  constructor
  · rintro ⟨also, too, path, way, less⟩
    rwa [unique _ _ _ one path, unique _ _ _ other way]
  · exact fun less => ⟨first, second, one, other, less⟩

/-- Where the nodes counted lie in turn, one that is nearer, or as near and behind an earlier link, comes first
depth first as well. -/
theorem InTurn.lex_of_shortlex {counted : α → Prop} {a b c : α} {first second : List Nat}
    (turn : InTurn links counted a) (one : Path links a first b) (other : Path links a second c) (counts : counted b)
    (too : counted c) (less : List.Shortlex (· < ·) first second) : List.Lex (· > ·) first second := by
  have short : first.length ≤ second.length := by
    rcases List.shortlex_def.mp less with shorter | ⟨same, -⟩
    · exact shorter.le
    · exact same.le
  rcases parts first second with ⟨more, rfl⟩ | ⟨more, rfl⟩ | ⟨front, i, j, rest, others, apart, rfl, rfl⟩
  · cases more with
    | nil => exact absurd less (by simp [List.shortlex_def])
    | cons k more => simpa using List.Lex.append_left (· > ·) (.nil (a := k) (l := more)) first
  · rw [List.length_append] at short
    obtain rfl : more = [] := List.length_eq_zero_iff.mp (by omega)
    exact absurd less (by simp [List.shortlex_def])
  · refine (@lex_parted (· > ·) (fun k => Nat.lt_irrefl k) i j apart front rest others).mpr ?_
    by_contra later
    have nearer := turn front i j rest others b c (by omega) counts too one other
    simp only [List.length_append, List.length_cons] at short
    omega

/-- Of two entries of an ordered list one comes first. -/
theorem either_of_pairwise {order : α → α → Prop} {entries : List α} (ordered : entries.Pairwise order) {b c : α}
    (left : b ∈ entries) (right : c ∈ entries) (apart : b ≠ c) : order b c ∨ order c b := by
  have symmetric : Std.Symm fun b c => order b c ∨ order c b := ⟨fun _ _ => Or.symm⟩
  have both : entries.Pairwise fun b c => order b c ∨ order c b := ordered.imp Or.inl
  exact both.forall left right apart

/-- In an unfolding without repetition the two orders agree on the nodes that are counted, exactly if these lie
in turn. -/
theorem filter_lastNamedFirst_eq_iff {levels : Nat} {a : α} (bounded : Bounded links levels a)
    (unique : Unique links a) (counted : α → Prop) [DecidablePred counted] :
    (lastNamedFirst links levels a).filter counted = (firstNamedFirst links levels [a]).filter counted ↔
      InTurn links counted a := by
  have perm := @firstNamedFirst_perm_lastNamedFirst α links levels a
  have deep := (@lastNamedFirst_pairwise α links levels a).filter counted
  have start : ∀ b ∈ [a], ∃ turns, Path links a turns b ∧ turns.length = 0 := by
    intro b member
    rw [List.mem_singleton.mp member]
    exact ⟨[], .here a, rfl⟩
  have wide := (firstNamedFirst_pairwise levels start (List.pairwise_singleton ..)).2.filter counted
  have reached {b : α} (member : b ∈ (firstNamedFirst links levels [a]).filter counted) :
      (∃ turns, Path links a turns b) ∧ counted b := by
    obtain ⟨inside, counts⟩ := List.mem_filter.mp member
    exact ⟨reached_of_mem (perm.mem_iff.mp inside), by simpa using counts⟩
  constructor
  · intro same front i j first second b c before counts too one other
    have listed {d : α} {turns : List Nat} (path : Path links a turns d) (counts : counted d) :
        d ∈ (firstNamedFirst links levels [a]).filter counted := by
      refine List.mem_filter.mpr ⟨perm.mem_iff.mpr ?_, by simpa using counts⟩
      exact (lastNamedFirst_perm levels a).mem_iff.mpr (mem_unfold.mpr ⟨turns, path, bounded turns d path⟩)
    have apart : b ≠ c := by
      rintro rfl
      have equal := List.append_cancel_left (unique _ _ b one other)
      exact absurd (List.cons.inj equal).1 (Nat.ne_of_lt before)
    rw [same] at deep
    have both := either_of_pairwise (deep.and wide) (listed one counts) (listed other too) apart
    rcases both with ⟨wrong, -⟩ | ⟨-, less⟩
    · have later := (along_iff unique one other).mp wrong
      exact absurd ((@lex_parted (· > ·) Nat.lt_irrefl i j before.ne front first second).mp later) before.asymm
    · rcases List.shortlex_def.mp ((along_iff unique other one).mp less) with shorter | ⟨-, wrong⟩
      · simpa using shorter
      · exact absurd ((@lex_parted (· < ·) Nat.lt_irrefl j i before.ne' front second first).mp wrong) before.asymm
  · intro turn
    have also : ((firstNamedFirst links levels [a]).filter counted).Pairwise (Along links (List.Lex (· > ·)) a) := by
      refine wide.imp_of_mem fun {b c} here there ⟨first, second, one, other, less⟩ => ?_
      exact ⟨first, second, one, other, turn.lex_of_shortlex one other (reached here).2 (reached there).2 less⟩
    refine (perm.symm.filter counted).eq_of_pairwise (fun b c left right less more => ?_) deep also
    obtain ⟨first, second, one, other, less⟩ := less
    rw [along_iff unique other one] at more
    exact absurd more (asymm less)

theorem flatMap_filled {β : Type} (content : α → List β) (blocks : List α) :
    (blocks.filter fun a => content a ≠ []).flatMap content = blocks.flatMap content := by
  induction blocks with
  | nil => rfl
  | cons a blocks ih => by_cases empty : content a = [] <;> simp [empty, ← ih]

/-- Where nothing comes twice, filled blocks that read the same in two orders are in one order. -/
theorem eq_of_flatMap_eq {β : Type} {content : α → List β} {first second : List α} (perm : first.Perm second)
    (filled : ∀ a ∈ second, content a ≠ []) (distinct : (second.flatMap content).Nodup)
    (same : first.flatMap content = second.flatMap content) : first = second := by
  induction first generalizing second with
  | nil => exact perm.nil_eq
  | cons a first ih =>
    cases second with
    | nil => exact absurd perm.symm.nil_eq (by simp)
    | cons b second =>
      rw [List.flatMap_cons, List.nodup_append] at distinct
      rw [List.flatMap_cons, List.flatMap_cons] at same
      -- What both begin with stands in both first blocks, and in one block only.
      have equal : a = b := by
        by_contra apart
        have behind : a ∈ second := (List.mem_cons.mp (perm.mem_iff.mp List.mem_cons_self)).resolve_left apart
        obtain ⟨entry, rest, here⟩ := List.exists_cons_of_ne_nil (filled a (List.mem_cons_of_mem b behind))
        obtain ⟨other, others, there⟩ := List.exists_cons_of_ne_nil (filled b List.mem_cons_self)
        rw [here, there, List.cons_append, List.cons_append] at same
        have head := (List.cons.inj same).1
        have below : entry ∈ second.flatMap content := List.mem_flatMap.mpr ⟨a, behind, by rw [here]; simp⟩
        exact distinct.2.2 other (by rw [there]; simp) entry below head.symm
      subst equal
      exact congrArg (a :: ·) (ih ((List.perm_cons a).mp perm)
        (fun c member => filled c (List.mem_cons_of_mem a member)) distinct.2.1 (List.append_cancel_left same))

section Contents

variable {β : Type} {content : α → List β} {levels : Nat} {a : α}

/-- The contents of the nodes read the same in both orders where the nodes that have any lie in turn. -/
theorem flatMap_lastNamedFirst_eq (bounded : Bounded links levels a) (unique : Unique links a)
    (turn : InTurn links (fun b => content b ≠ []) a) :
    (lastNamedFirst links levels a).flatMap content = (firstNamedFirst links levels [a]).flatMap content := by
  rw [← flatMap_filled content, (filter_lastNamedFirst_eq_iff bounded unique _).mpr turn, flatMap_filled]

/-- Only there, if nothing comes twice. -/
theorem inTurn_of_flatMap_eq (bounded : Bounded links levels a) (unique : Unique links a)
    (distinct : ((firstNamedFirst links levels [a]).flatMap content).Nodup)
    (same : (lastNamedFirst links levels a).flatMap content = (firstNamedFirst links levels [a]).flatMap content) :
    InTurn links (fun b => content b ≠ []) a := by
  refine (filter_lastNamedFirst_eq_iff bounded unique _).mp (@eq_of_flatMap_eq α β content _ _ ?_ ?_ ?_ ?_)
  · exact (firstNamedFirst_perm_lastNamedFirst levels a).symm.filter _
  · exact fun b member => by simpa using (List.mem_filter.mp member).2
  · rwa [flatMap_filled]
  · rwa [flatMap_filled, flatMap_filled]

end Contents

end Foundation.Worklist
