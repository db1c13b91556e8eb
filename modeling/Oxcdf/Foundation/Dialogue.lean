import Oxcdf.Foundation.Outcome

/-! Computations that see their environment through queries only.

A dialogue is a finite tree: it either ends with an outcome or asks a query and
continues with the answer, a value or an error. A panic of the environment
stops it. It runs against an environment that answers as a function of the
query, or against one that also changes a state while answering; a run against
the second kind agrees with a run against the first as long as the answers do.
-/

set_option autoImplicit false

namespace Foundation

/-- The queries of an environment and the type of value each is answered with. -/
structure Signature where
  Query : Type
  Value : Query → Type

inductive Dialogue (ε : Type) (I : Signature) (α : Type) where
  | finish (outcome : Outcome ε α)
  | ask (query : I.Query) (next : Except ε (I.Value query) → Dialogue ε I α)

/-- An environment whose answers depend on the query only. -/
abbrev Environment (ε : Type) (I : Signature) := (query : I.Query) → Outcome ε (I.Value query)

/-- An environment that may change a state while it answers. -/
abbrev Handler (ε : Type) (I : Signature) (σ : Type) :=
  (query : I.Query) → σ → Outcome ε (I.Value query) × σ

namespace Dialogue

variable {ε : Type} {I : Signature} {σ α β γ : Type}

protected def bind (dialogue : Dialogue ε I α) (k : α → Dialogue ε I β) : Dialogue ε I β :=
  match dialogue with
  | .finish (.ok a) => k a
  | .finish (.error e) => .finish (.error e)
  | .finish (.panic p) => .finish (.panic p)
  | .ask query next => .ask query fun answer => (next answer).bind k

instance : Monad (Dialogue ε I) where
  pure a := .finish (.ok a)
  bind := Dialogue.bind

/-- Ask one query and pass its answer on. -/
def query (q : I.Query) : Dialogue ε I (I.Value q) :=
  .ask q fun answer => .finish (.ofExcept answer)

/-- A step that asks nothing. -/
def lift (outcome : Outcome ε α) : Dialogue ε I α := .finish outcome

def run (environment : Environment ε I) : Dialogue ε I α → Outcome ε α
  | .finish outcome => outcome
  | .ask query next =>
    match environment query with
    | .ok value => (next (.ok value)).run environment
    | .error e => (next (.error e)).run environment
    | .panic p => .panic p

def runWith (handler : Handler ε I σ) : Dialogue ε I α → σ → Outcome ε α × σ
  | .finish outcome, state => (outcome, state)
  | .ask query next, state =>
    match handler query state with
    | (.ok value, state) => (next (.ok value)).runWith handler state
    | (.error e, state) => (next (.error e)).runWith handler state
    | (.panic p, state) => (.panic p, state)

/-- The queries of a run, in order. -/
def asked (environment : Environment ε I) : Dialogue ε I α → List I.Query
  | .finish _ => []
  | .ask query next =>
    query :: match environment query with
      | .ok value => (next (.ok value)).asked environment
      | .error e => (next (.error e)).asked environment
      | .panic _ => []

theorem bind_assoc' (dialogue : Dialogue ε I α) (first : α → Dialogue ε I β)
    (second : β → Dialogue ε I γ) :
    (dialogue.bind first).bind second = dialogue.bind fun a => (first a).bind second := by
  induction dialogue with
  | finish outcome => cases outcome <;> rfl
  | ask query next ih =>
    simp only [Dialogue.bind, Dialogue.ask.injEq, heq_eq_eq, true_and]
    funext answer
    exact ih answer

theorem bind_pure' (dialogue : Dialogue ε I α) :
    (dialogue.bind fun a => .finish (.ok a)) = dialogue := by
  induction dialogue with
  | finish outcome => cases outcome <;> rfl
  | ask query next ih =>
    simp only [Dialogue.bind, Dialogue.ask.injEq, heq_eq_eq, true_and]
    funext answer
    exact ih answer

instance : LawfulMonad (Dialogue ε I) :=
  LawfulMonad.mk' (Dialogue ε I) (fun x => bind_pure' x) (fun _ _ => rfl)
    (fun x f g => bind_assoc' x f g)

/-- Steps that ask nothing compose as their outcomes do. -/
theorem lift_bind (outcome : Outcome ε α) (next : α → Outcome ε β) :
    (lift (outcome >>= next) : Dialogue ε I β) = lift outcome >>= fun a => lift (next a) := by
  cases outcome <;> rfl

@[simp] theorem pure_eq (a : α) : (pure a : Dialogue ε I α) = .finish (.ok a) := rfl

@[simp] theorem run_finish (environment : Environment ε I) (outcome : Outcome ε α) :
    (Dialogue.finish outcome).run environment = outcome := rfl

@[simp] theorem run_lift (environment : Environment ε I) (outcome : Outcome ε α) :
    (lift outcome).run environment = outcome := rfl

@[simp] theorem run_query (environment : Environment ε I) (q : I.Query) :
    (query q).run environment = environment q := by
  simp only [query, run]
  cases environment q <;> rfl

@[simp] theorem asked_query (environment : Environment ε I) (q : I.Query) :
    (query q).asked environment = [q] := by
  simp only [query, asked]
  cases environment q <;> rfl

/-- Running a sequence is running its parts in sequence. -/
@[simp] theorem run_bind (environment : Environment ε I) (dialogue : Dialogue ε I α)
    (k : α → Dialogue ε I β) :
    (dialogue >>= k).run environment = dialogue.run environment >>= fun a => (k a).run environment := by
  change (dialogue.bind k).run environment = _
  induction dialogue with
  | finish outcome => cases outcome <;> rfl
  | ask query next ih =>
    simp only [Dialogue.bind, run]
    cases environment query with
    | ok value => exact ih (.ok value)
    | error e => exact ih (.error e)
    | panic p => rfl

@[simp] theorem run_pure (environment : Environment ε I) (a : α) :
    (pure a : Dialogue ε I α).run environment = .ok a := rfl

/-- A sequence whose first part returns asks what its parts ask. -/
theorem asked_bind (environment : Environment ε I) {dialogue : Dialogue ε I α}
    {k : α → Dialogue ε I β} {a : α} (returned : dialogue.run environment = .ok a) :
    (dialogue >>= k).asked environment = dialogue.asked environment ++ (k a).asked environment := by
  change (dialogue.bind k).asked environment = _
  induction dialogue with
  | finish outcome =>
    cases returned
    rfl
  | ask query next ih =>
    simp only [run] at returned
    simp only [Dialogue.bind, asked]
    cases answer : environment query with
    | ok value =>
      rw [answer] at returned
      exact congrArg (query :: ·) (ih (.ok value) returned)
    | error e =>
      rw [answer] at returned
      exact congrArg (query :: ·) (ih (.error e) returned)
    | panic p =>
      rw [answer] at returned
      cases returned

/-- A handler whose answers do not depend on its state gives the result of the
environment it answers as, and leaves behind the fold of its state changes over
the queries of that run. -/
theorem runWith_eq_run {handler : Handler ε I σ} {environment : Environment ε I}
    {update : I.Query → σ → σ} (stateless : ∀ q s, handler q s = (environment q, update q s))
    (dialogue : Dialogue ε I α) (state : σ) :
    dialogue.runWith handler state =
      (dialogue.run environment, (dialogue.asked environment).foldl (fun s q => update q s) state) := by
  induction dialogue generalizing state with
  | finish outcome => rfl
  | ask query next ih =>
    simp only [runWith, run, asked, stateless, List.foldl_cons]
    cases environment query with
    | ok value => exact ih (.ok value) _
    | error e => exact ih (.error e) _
    | panic p => rfl

/-- Two environments give a dialogue one result and one list of queries, unless
they answer differently a query that both runs ask. -/
theorem run_eq_or_differs (first second : Environment ε I) (dialogue : Dialogue ε I α) :
    (dialogue.run first = dialogue.run second ∧ dialogue.asked first = dialogue.asked second) ∨
      ∃ query, query ∈ dialogue.asked first ∧ query ∈ dialogue.asked second ∧
        first query ≠ second query := by
  induction dialogue with
  | finish outcome => exact .inl ⟨rfl, rfl⟩
  | ask query next ih =>
    by_cases here : first query = second query
    · simp only [run, asked, here]
      cases answer : second query with
      | panic p => exact .inl ⟨rfl, rfl⟩
      | ok value =>
        rcases ih (.ok value) with ⟨result, queries⟩ | ⟨later, left, right, differ⟩
        · exact .inl ⟨result, congrArg (query :: ·) queries⟩
        · exact .inr ⟨later, List.mem_cons_of_mem _ left, List.mem_cons_of_mem _ right, differ⟩
      | error e =>
        rcases ih (.error e) with ⟨result, queries⟩ | ⟨later, left, right, differ⟩
        · exact .inl ⟨result, congrArg (query :: ·) queries⟩
        · exact .inr ⟨later, List.mem_cons_of_mem _ left, List.mem_cons_of_mem _ right, differ⟩
    · exact .inr ⟨query, by simp [asked], by simp [asked], here⟩

end Dialogue

end Foundation
