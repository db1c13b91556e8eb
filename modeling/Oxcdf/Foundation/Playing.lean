import Oxcdf.Foundation.Dialogue
import Oxcdf.Foundation.Session

/-! Dialogues that do what a session does.

The state that a dialogue's queries are answered from may hold more than that of the
session. A relation says which part of it is the session's, and both keep it.
-/

set_option autoImplicit false

namespace Foundation.Dialogue

variable {ε : Type} {I : Signature} {σ τ α β : Type}

@[simp] theorem runWith_query (handler : Handler ε I σ) (q : I.Query) (state : σ) :
    (query q).runWith handler state = handler q state := by
  simp only [query, runWith]
  rcases handler q state with ⟨value | e | p, after⟩ <;> rfl

/-- Running a sequence with a handler is running its parts in sequence. -/
theorem runWith_bind (handler : Handler ε I σ) (first : Dialogue ε I α) (next : α → Dialogue ε I β) (state : σ) :
    (first >>= next).runWith handler state =
      match first.runWith handler state with
      | (.ok a, after) => (next a).runWith handler after
      | (.error e, after) => (.error e, after)
      | (.panic p, after) => (.panic p, after) := by
  change (first.bind next).runWith handler state = _
  induction first generalizing state with
  | finish outcome => cases outcome <;> rfl
  | ask query continue_ ih =>
    simp only [Dialogue.bind, runWith]
    rcases handler query state with ⟨value | e | p, after⟩
    · exact ih (.ok value) after
    · exact ih (.error e) after
    · rfl

variable (handler : Handler ε I σ) (related : σ → τ → Prop)

/-- From related states, a dialogue ends as a session does, and leaves related states behind. -/
def Plays (dialogue : Dialogue ε I α) (session : Session τ ε α) : Prop :=
  ∀ state inner, related state inner →
    (dialogue.runWith handler state).1 = (session inner).1 ∧
      related (dialogue.runWith handler state).2 (session inner).2

variable {handler related}

theorem Plays.lift (outcome : Outcome ε α) : Plays handler related (lift outcome) (Session.lift outcome) :=
  fun _ _ same => ⟨rfl, same⟩

theorem Plays.pure (a : α) : Plays handler related (Pure.pure a) (Pure.pure a : Session τ ε α) := Plays.lift (.ok a)

theorem Plays.query {q : I.Query} {session : Session τ ε (I.Value q)}
    (each : ∀ state inner, related state inner →
      (handler q state).1 = (session inner).1 ∧ related (handler q state).2 (session inner).2) :
    Plays handler related (query q) session := by
  intro state inner same
  simpa only [runWith_query] using each state inner same

theorem Plays.bind {first : Dialogue ε I α} {next : α → Dialogue ε I β} {step : Session τ ε α}
    {rest : α → Session τ ε β} (begins : Plays handler related first step)
    (continues : ∀ a, Plays handler related (next a) (rest a)) :
    Plays handler related (first >>= next) (step >>= rest) := by
  intro state inner same
  obtain ⟨ends, after⟩ := begins state inner same
  have whole := runWith_bind handler first next state
  rcases played : first.runWith handler state with ⟨got, middle⟩
  rcases done : step inner with ⟨expected, left⟩
  rw [played, done] at ends after
  rw [played] at whole
  cases ends
  cases got with
  | ok a =>
    rw [whole, Session.bind_ok done]
    exact continues a middle left after
  | error e =>
    rw [whole, Session.bind_error done]
    exact ⟨rfl, after⟩
  | panic p =>
    rw [whole, Session.bind_panic done]
    exact ⟨rfl, after⟩

/-- After a part that returns one value and leaves the session's state alone, only the rest is seen. -/
theorem Plays.after {first : Dialogue ε I α} {next : α → Dialogue ε I β} {a : α} {rest : Session τ ε β}
    (begins : Plays handler related first (Session.lift (.ok a)))
    (continues : Plays handler related (next a) rest) : Plays handler related (first >>= next) rest := by
  intro state inner same
  obtain ⟨ends, after⟩ := begins state inner same
  have whole := runWith_bind handler first next state
  rcases played : first.runWith handler state with ⟨got, middle⟩
  rw [played] at ends after whole
  cases ends
  rw [whole]
  exact continues middle inner after

theorem Plays.mapM {dialogue : α → Dialogue ε I β} {session : α → Session τ ε β}
    (each : ∀ a, Plays handler related (dialogue a) (session a)) (items : List α) :
    Plays handler related (items.mapM dialogue) (items.mapM session) := by
  induction items with
  | nil => exact Plays.pure []
  | cons item items ih =>
    simp only [List.mapM_cons]
    exact (each item).bind fun b => ih.bind fun others => Plays.pure (b :: others)

end Foundation.Dialogue
