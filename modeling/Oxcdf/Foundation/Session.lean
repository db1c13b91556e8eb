import Mathlib.Data.List.Forall2
import Oxcdf.Foundation.Outcome

/-! Fallible computations over a state that outlives their failures.

A step returns an outcome and the state it leaves behind, whatever the outcome.
A property of the state that every step keeps is kept by a whole session, also
by one that ends in an error.
-/

set_option autoImplicit false

namespace Foundation

def Session (σ ε α : Type) := σ → Outcome ε α × σ

namespace Session

variable {σ ε α β γ : Type}

protected def bind (step : Session σ ε α) (next : α → Session σ ε β) : Session σ ε β := fun state =>
  match step state with
  | (.ok a, state) => next a state
  | (.error e, state) => (.error e, state)
  | (.panic p, state) => (.panic p, state)

instance : Monad (Session σ ε) where
  pure a := fun state => (.ok a, state)
  bind := Session.bind

/-- A step that neither reads nor changes the state. -/
def lift (outcome : Outcome ε α) : Session σ ε α := fun state => (outcome, state)

def throw (e : ε) : Session σ ε α := lift (.error e)

/-- A step that cannot fail. -/
def run (step : σ → α × σ) : Session σ ε α := fun state => (.ok (step state).1, (step state).2)

def modify (update : σ → σ) : Session σ ε Unit := fun state => (.ok (), update state)

@[simp] theorem pure_apply (a : α) (state : σ) : (pure a : Session σ ε α) state = (.ok a, state) := rfl

@[simp] theorem lift_apply (outcome : Outcome ε α) (state : σ) :
    (lift outcome : Session σ ε α) state = (outcome, state) := rfl

@[simp] theorem throw_apply (e : ε) (state : σ) :
    (throw e : Session σ ε α) state = (.error e, state) := rfl

@[simp] theorem run_apply (step : σ → α × σ) (state : σ) :
    (run step : Session σ ε α) state = (.ok (step state).1, (step state).2) := rfl

@[simp] theorem modify_apply (update : σ → σ) (state : σ) :
    (modify update : Session σ ε Unit) state = (.ok (), update state) := rfl

theorem bind_apply (step : Session σ ε α) (next : α → Session σ ε β) (state : σ) :
    (step >>= next) state =
      match step state with
      | (.ok a, state) => next a state
      | (.error e, state) => (.error e, state)
      | (.panic p, state) => (.panic p, state) := rfl

theorem bind_ok {step : Session σ ε α} {next : α → Session σ ε β} {state middle : σ} {a : α}
    (found : step state = (.ok a, middle)) : (step >>= next) state = next a middle := by
  rw [bind_apply, found]

theorem bind_of_fst {step : Session σ ε α} {next : α → Session σ ε β} {state : σ} {a : α}
    (found : (step state).1 = .ok a) : (step >>= next) state = next a (step state).2 :=
  bind_ok (Prod.ext found rfl)

theorem bind_error {step : Session σ ε α} {next : α → Session σ ε β} {state middle : σ} {e : ε}
    (failed : step state = (.error e, middle)) : (step >>= next) state = (.error e, middle) := by
  rw [bind_apply, failed]

theorem bind_panic {step : Session σ ε α} {next : α → Session σ ε β} {state middle : σ} {p : Panic}
    (failed : step state = (.panic p, middle)) : (step >>= next) state = (.panic p, middle) := by
  rw [bind_apply, failed]

/-- A sequence returns a value exactly when both parts do. -/
theorem bind_eq_ok {step : Session σ ε α} {next : α → Session σ ε β} {state last : σ} {b : β} :
    (step >>= next) state = (.ok b, last) ↔
      ∃ a middle, step state = (.ok a, middle) ∧ next a middle = (.ok b, last) := by
  rw [bind_apply]
  rcases step state with ⟨a | e | p, after⟩
  · constructor
    · exact fun found => ⟨a, after, rfl, found⟩
    · rintro ⟨b, middle, same, found⟩
      cases same
      exact found
  · simp
  · simp

theorem lift_eq_ok {outcome : Outcome ε α} {state last : σ} {a : α} :
    (lift outcome : Session σ ε α) state = (.ok a, last) ↔ outcome = .ok a ∧ state = last := by
  rw [lift_apply, Prod.mk.injEq]

theorem bind_lift_ok (a : α) (next : α → Session σ ε β) :
    ((lift (.ok a) : Session σ ε α) >>= next) = next a := rfl

theorem lift_bind (outcome : Outcome ε α) (next : α → Outcome ε β) :
    (lift (outcome >>= next) : Session σ ε β) = lift outcome >>= fun a => lift (next a) := by
  cases outcome <;> rfl

/-- What a sequence returns after a step that does not touch the state. -/
theorem fst_lift_bind (outcome : Outcome ε α) (next : α → Session σ ε β) (state : σ) :
    ((lift outcome >>= next) state).1 = outcome >>= fun a => (next a state).1 := by
  cases outcome <;> rfl

theorem fst_bind_pure (step : Session σ ε α) (f : α → β) (state : σ) :
    ((step >>= fun a => pure (f a)) state).1 = f <$> (step state).1 := by
  rw [bind_apply]
  rcases step state with ⟨a | e | p, after⟩ <;> rfl

theorem fst_bind_lift (step : Session σ ε α) (f : α → Outcome ε β) (state : σ) :
    ((step >>= fun a => lift (f a)) state).1 = (step state).1 >>= f := by
  rw [bind_apply]
  rcases step state with ⟨a | e | p, after⟩ <;> rfl

/-- What follows a lifted outcome matters only for the value it holds. -/
theorem lift_bind_congr {outcome : Outcome ε α} {first second : α → Session σ ε β}
    (same : ∀ a, outcome = .ok a → first a = second a) :
    lift outcome >>= first = lift outcome >>= second := by
  cases outcome with
  | ok a => exact same a rfl
  | error e => rfl
  | panic p => rfl

instance : LawfulMonad (Session σ ε) := by
  refine LawfulMonad.mk' (Session σ ε) (fun step => ?_) (fun _ _ => rfl) (fun step first second => ?_)
  · funext state
    change (match step state with
      | (.ok a, state) => (Outcome.ok a, state)
      | (.error e, state) => (.error e, state)
      | (.panic p, state) => (.panic p, state)) = step state
    rcases step state with ⟨a | e | p, state⟩ <;> rfl
  · funext state
    simp only [bind_apply]
    rcases step state with ⟨a | e | p, state⟩ <;> rfl

/-- A session keeps a property of the state when it holds afterwards wherever it
held before, whatever the outcome. -/
def Keeps (invariant : σ → Prop) (step : Session σ ε α) : Prop :=
  ∀ state, invariant state → invariant (step state).2

theorem Keeps.bind {invariant : σ → Prop} {step : Session σ ε α} {next : α → Session σ ε β}
    (first : step.Keeps invariant) (rest : ∀ a, (next a).Keeps invariant) :
    (step >>= next).Keeps invariant := by
  intro state before
  have middle := first state before
  rw [bind_apply]
  rcases found : step state with ⟨a | e | p, after⟩
  · rw [found] at middle
    exact rest a after middle
  · rwa [found] at middle
  · rwa [found] at middle

theorem Keeps.lift {invariant : σ → Prop} (outcome : Outcome ε α) :
    (lift outcome : Session σ ε α).Keeps invariant := fun _ before => before

theorem Keeps.pure {invariant : σ → Prop} (a : α) : (Pure.pure a : Session σ ε α).Keeps invariant :=
  fun _ before => before

theorem Keeps.mapM {invariant : σ → Prop} {step : α → Session σ ε β}
    (each : ∀ a, (step a).Keeps invariant) (items : List α) : (items.mapM step).Keeps invariant := by
  induction items with
  | nil => exact Keeps.pure []
  | cons item items ih =>
    rw [List.mapM_cons]
    exact (each item).bind fun _ => ih.bind fun _ => Keeps.pure _

/-- From every state with a property a session ends in one outcome, and it keeps the property. -/
def Returns (invariant : σ → Prop) (outcome : Outcome ε α) (step : Session σ ε α) : Prop :=
  ∀ state, invariant state → (step state).1 = outcome ∧ invariant (step state).2

theorem Returns.lift {invariant : σ → Prop} (outcome : Outcome ε α) :
    (lift outcome : Session σ ε α).Returns invariant outcome := fun _ before => ⟨rfl, before⟩

theorem Returns.bind {invariant : σ → Prop} {outcome : Outcome ε α} {step : Session σ ε α}
    {next : α → Session σ ε β} {rest : α → Outcome ε β} (first : step.Returns invariant outcome)
    (later : ∀ a, outcome = .ok a → (next a).Returns invariant (rest a)) :
    (step >>= next).Returns invariant (outcome >>= rest) := by
  intro state before
  obtain ⟨same, kept⟩ := first state before
  rw [bind_apply]
  rcases found : step state with ⟨a | e | p, after⟩
  · rw [found] at same kept
    subst same
    exact later a rfl after kept
  · rw [found] at same kept
    subst same
    exact ⟨rfl, kept⟩
  · rw [found] at same kept
    subst same
    exact ⟨rfl, kept⟩

theorem Returns.mapM {invariant : σ → Prop} {outcome : α → Outcome ε β} {step : α → Session σ ε β}
    (each : ∀ a, (step a).Returns invariant (outcome a)) (items : List α) :
    (items.mapM step).Returns invariant (items.mapM outcome) := by
  induction items with
  | nil => exact Returns.lift (.ok [])
  | cons item items ih =>
    rw [List.mapM_cons, List.mapM_cons]
    exact (each item).bind fun _ _ => ih.bind fun _ _ => Returns.lift (.ok _)

theorem Returns.keeps {invariant : σ → Prop} {outcome : Outcome ε α} {step : Session σ ε α}
    (returns : step.Returns invariant outcome) : step.Keeps invariant :=
  fun state before => (returns state before).2

theorem Returns.ok_iff {invariant : σ → Prop} {outcome : Outcome ε α} {step : Session σ ε α}
    (returns : step.Returns invariant outcome) {state : σ} (before : invariant state) {a : α} :
    (∃ after, step state = (.ok a, after)) ↔ outcome = .ok a := by
  rw [← (returns state before).1]
  constructor
  · rintro ⟨after, done⟩
    rw [done]
  · exact fun same => ⟨(step state).2, Prod.ext same rfl⟩

/-- Every value a session returns has a property. -/
def Yields (property : α → Prop) (step : Session σ ε α) : Prop :=
  ∀ state value after, step state = (.ok value, after) → property value

theorem Yields.pure {property : α → Prop} {a : α} (holds : property a) :
    (Pure.pure a : Session σ ε α).Yields property := by
  intro state value after returned
  cases returned
  exact holds

theorem Yields.lift {property : α → Prop} {outcome : Outcome ε α}
    (holds : ∀ a, outcome = .ok a → property a) : (lift outcome : Session σ ε α).Yields property := by
  intro state value after returned
  exact holds value (congrArg Prod.fst returned)

theorem Yields.throw {property : α → Prop} (e : ε) : (throw e : Session σ ε α).Yields property := by
  intro state value after returned
  cases returned

/-- What the first step yields may be assumed of its value in the second. -/
theorem Yields.bind {property : α → Prop} {result : β → Prop} {step : Session σ ε α}
    {next : α → Session σ ε β} (first : step.Yields property)
    (rest : ∀ a, property a → (next a).Yields result) : (step >>= next).Yields result := by
  intro state value after returned
  rw [bind_apply] at returned
  rcases found : step state with ⟨a | e | p, middle⟩
  · rw [found] at returned
    exact rest a (first state a middle found) middle value after returned
  · rw [found] at returned
    cases returned
  · rw [found] at returned
    cases returned

theorem Yields.trivial (step : Session σ ε α) : step.Yields fun _ => True :=
  fun _ _ _ _ => True.intro

theorem Yields.last {result : β → Prop} {step : Session σ ε α} {next : α → Session σ ε β}
    (rest : ∀ a, (next a).Yields result) : (step >>= next).Yields result :=
  (Yields.trivial step).bind fun a _ => rest a

/-- What each step yields for its item holds of all items and their values. -/
theorem Yields.mapM_forall₂ {property : α → β → Prop} {step : α → Session σ ε β}
    (each : ∀ a, (step a).Yields (property a)) (items : List α) :
    (items.mapM step).Yields (List.Forall₂ property items) := by
  induction items with
  | nil => exact Yields.pure .nil
  | cons item items ih =>
    rw [List.mapM_cons]
    exact (each item).bind fun value holds => ih.bind fun values all => Yields.pure (.cons holds all)

/-- A property that each step yields holds of all values. -/
theorem Yields.mapM {property : β → Prop} {step : α → Session σ ε β} (each : ∀ a, (step a).Yields property)
    (items : List α) : (items.mapM step).Yields fun values => ∀ value ∈ values, property value := by
  intro state values after done
  have matched := Yields.mapM_forall₂ each items state values after done
  have both : List.Forall₂ (fun value _ => property value ∧ True) values items :=
    (matched.imp fun _ _ holds => ⟨holds, True.intro⟩).flip
  exact ((List.forall₂_and_left _ _).mp both).1

/-- What a session leaves behind is related to where it started. -/
def Moves (relation : σ → σ → Prop) (step : Session σ ε α) : Prop := ∀ state, relation state (step state).2

theorem Moves.bind {relation : σ → σ → Prop} (trans : ∀ a b c, relation a b → relation b c → relation a c)
    {step : Session σ ε α} {next : α → Session σ ε β} (first : step.Moves relation)
    (rest : ∀ a, (next a).Moves relation) : (step >>= next).Moves relation := by
  intro state
  have middle := first state
  rw [bind_apply]
  rcases found : step state with ⟨a | e | p, after⟩
  · rw [found] at middle
    exact trans _ _ _ middle (rest a after)
  · rwa [found] at middle
  · rwa [found] at middle

/-- Two sessions do the same wherever a property of the state holds. -/
def Agrees (property : σ → Prop) (first second : Session σ ε α) : Prop :=
  ∀ state, property state → first state = second state

theorem Agrees.refl (property : σ → Prop) (step : Session σ ε α) : Agrees property step step :=
  fun _ _ => rfl

theorem Agrees.bind {property : σ → Prop} {first second : Session σ ε α}
    {next later : α → Session σ ε β} (same : Agrees property first second) (keeps : first.Keeps property)
    (rest : ∀ a, Agrees property (next a) (later a)) :
    Agrees property (first >>= next) (second >>= later) := by
  intro state here
  have middle := keeps state here
  rw [bind_apply, bind_apply, ← same state here]
  rcases found : first state with ⟨a | e | p, after⟩
  · rw [found] at middle
    exact rest a after middle
  · rfl
  · rfl

/-- What a guard watches: how a session may move the state, and a property of the state that was there before
the move if it is there after. -/
structure Guard (σ : Type) where
  moves : σ → σ → Prop
  holds : σ → Prop
  refl : ∀ state, moves state state
  trans : ∀ {a b c}, moves a b → moves b c → moves a c
  back : ∀ {a b}, moves a b → holds b → holds a

/-- A session and its guarded form. Where the property holds, the guarded form returns what the plain one does,
if the property holds after it. -/
structure Guarded (guard : Guard σ) (plain guarded : Session σ ε α) : Prop where
  moves : ∀ {state a after}, plain state = (.ok a, after) → guard.moves state after
  same : ∀ {state a after}, guard.holds state →
    (guarded state = (.ok a, after) ↔ plain state = (.ok a, after) ∧ guard.holds after)

namespace Guarded

variable {guard : Guard σ}

/-- A step that the property does not depend on guards itself. -/
theorem refl {step : Session σ ε α}
    (moves : ∀ {state a after}, step state = (.ok a, after) → guard.moves state after)
    (keeps : ∀ {state a after}, step state = (.ok a, after) → guard.holds state → guard.holds after) :
    Guarded guard step step :=
  ⟨moves, fun before => ⟨fun done => ⟨done, keeps done before⟩, And.left⟩⟩

theorem pure (a : α) : Guarded guard (Pure.pure a : Session σ ε α) (Pure.pure a) := by
  refine refl (fun done => ?_) (fun done before => ?_)
  · cases done
    exact guard.refl _
  · cases done
    exact before

theorem bind {plain guarded : Session σ ε α} {next later : α → Session σ ε β}
    (first : Guarded guard plain guarded) (rest : ∀ a, Guarded guard (next a) (later a)) :
    Guarded guard (plain >>= next) (guarded >>= later) := by
  constructor
  · intro state b after done
    obtain ⟨a, middle, begun, ended⟩ := bind_eq_ok.mp done
    exact guard.trans (first.moves begun) ((rest a).moves ended)
  · intro state b after before
    rw [bind_eq_ok, bind_eq_ok]
    constructor
    · rintro ⟨a, middle, begun, ended⟩
      obtain ⟨begun, between⟩ := (first.same before).mp begun
      obtain ⟨ended, holds⟩ := ((rest a).same between).mp ended
      exact ⟨⟨a, middle, begun, ended⟩, holds⟩
    · rintro ⟨⟨a, middle, begun, ended⟩, holds⟩
      -- What holds at the end held between the two parts.
      have between := guard.back ((rest a).moves ended) holds
      exact ⟨a, middle, (first.same before).mpr ⟨begun, between⟩,
        ((rest a).same between).mpr ⟨ended, holds⟩⟩

theorem mapM {plain guarded : α → Session σ ε β} (each : ∀ a, Guarded guard (plain a) (guarded a))
    (items : List α) : Guarded guard (items.mapM plain) (items.mapM guarded) := by
  induction items with
  | nil => exact pure []
  | cons item items ih =>
    rw [List.mapM_cons, List.mapM_cons]
    exact (each item).bind fun _ => ih.bind fun _ => pure _

end Guarded

/-- The session ends in a panic from here. -/
def Panics (step : Session σ ε α) (state : σ) : Prop := ∃ why, (step state).1 = .panic why

/-- A sequence panics in its first step, or in the second after a value. -/
theorem panics_bind {step : Session σ ε α} {next : α → Session σ ε β} {state : σ} :
    (step >>= next).Panics state ↔
      step.Panics state ∨ ∃ a after, step state = (.ok a, after) ∧ (next a).Panics after := by
  unfold Panics
  rw [bind_apply]
  rcases found : step state with ⟨a | e | p, after⟩
  · simp
  · simp
  · simp

theorem not_panics_pure (a : α) (state : σ) : ¬ (Pure.pure a : Session σ ε α).Panics state := nofun

theorem panics_bind_pure {step : Session σ ε α} {f : α → β} {state : σ} :
    (step >>= fun a => Pure.pure (f a)).Panics state ↔ step.Panics state := by
  rw [panics_bind]
  exact ⟨fun panics => panics.elim id fun ⟨_, _, _, impossible⟩ => absurd impossible (not_panics_pure _ _),
    .inl⟩

theorem not_panics_throw (e : ε) (state : σ) : ¬ (throw e : Session σ ε α).Panics state := nofun

end Session

end Foundation
