import Mathlib.Tactic.Common

/-! Results of checked code: a value, an error the caller may handle, or a panic.

A panic is what a failed bounds check, an arithmetic overflow in a checked
build, or a request for more memory than an allocation may have ends in. No
caller handles one, so it is kept apart from the errors.
-/

set_option autoImplicit false

namespace Foundation

inductive Panic where
  | overflow
  | index
  | capacity
  deriving DecidableEq, Repr

inductive Outcome (ε α : Type) where
  | ok (value : α)
  | error (reason : ε)
  | panic (why : Panic)
  deriving DecidableEq, Repr

namespace Outcome

variable {ε α β γ : Type}

protected def bind (x : Outcome ε α) (next : α → Outcome ε β) : Outcome ε β :=
  match x with
  | .ok a => next a
  | .error e => .error e
  | .panic p => .panic p

instance : Monad (Outcome ε) where
  pure := .ok
  bind := Outcome.bind

def ofExcept : Except ε α → Outcome ε α
  | .ok a => .ok a
  | .error e => .error e

/-- A checked `ok_or` on an optional value. -/
def ofOption (e : ε) : Option α → Outcome ε α
  | some a => .ok a
  | none => .error e

/-- The steps of a loop whose setup may fail: a failed setup is its only step. -/
def steps : Outcome ε (List (Outcome ε α)) → List (Outcome ε α)
  | .ok each => each
  | .error e => [.error e]
  | .panic p => [.panic p]

instance : LawfulMonad (Outcome ε) :=
  LawfulMonad.mk' (Outcome ε) (fun x => by cases x <;> rfl) (fun _ _ => rfl)
    (fun x _ _ => by cases x <;> rfl)

@[simp] theorem pure_eq (a : α) : (pure a : Outcome ε α) = .ok a := rfl

@[simp] theorem ok_bind (a : α) (next : α → Outcome ε β) : (Outcome.ok a >>= next) = next a := rfl

@[simp] theorem error_bind (e : ε) (next : α → Outcome ε β) :
    (Outcome.error e >>= next) = .error e := rfl

@[simp] theorem panic_bind (p : Panic) (next : α → Outcome ε β) :
    (Outcome.panic p >>= next) = .panic p := rfl

@[simp] theorem map_ok (f : α → β) (a : α) : f <$> (Outcome.ok a : Outcome ε α) = .ok (f a) := rfl

@[simp] theorem map_error (f : α → β) (e : ε) :
    f <$> (Outcome.error e : Outcome ε α) = .error e := rfl

@[simp] theorem map_panic (f : α → β) (p : Panic) :
    f <$> (Outcome.panic p : Outcome ε α) = .panic p := rfl

@[simp] theorem ofExcept_ok (a : α) : ofExcept (.ok a : Except ε α) = .ok a := rfl

@[simp] theorem ofExcept_error (e : ε) : ofExcept (.error e : Except ε α) = .error e := rfl

@[simp] theorem ofOption_some (e : ε) (a : α) : ofOption e (some a) = .ok a := rfl

@[simp] theorem ofOption_none (e : ε) : ofOption e (none : Option α) = .error e := rfl

/-- A sequence succeeds exactly when both parts do. -/
theorem bind_eq_ok {x : Outcome ε α} {next : α → Outcome ε β} {b : β} :
    (x >>= next) = .ok b ↔ ∃ a, x = .ok a ∧ next a = .ok b := by
  cases x <;> simp

/-- What follows a step matters only for the values it returns. -/
theorem bind_congr {x : Outcome ε α} {first second : α → Outcome ε β}
    (same : ∀ a, x = .ok a → first a = second a) : x >>= first = x >>= second := by
  cases x with
  | ok a => exact same a rfl
  | error e => rfl
  | panic p => rfl

theorem map_eq_ok {f : α → β} {x : Outcome ε α} {b : β} :
    f <$> x = .ok b ↔ ∃ a, x = .ok a ∧ f a = b := by
  cases x <;> simp

theorem map_eq_error {f : α → β} {x : Outcome ε α} {e : ε} : f <$> x = .error e ↔ x = .error e := by
  cases x <;> simp

theorem map_eq_panic {f : α → β} {x : Outcome ε α} {p : Panic} : f <$> x = .panic p ↔ x = .panic p := by
  cases x <;> simp

theorem ofOption_eq_ok {e : ε} {x : Option α} {a : α} : ofOption e x = .ok a ↔ x = some a := by
  cases x <;> simp

/-- A sequence panics in its first part, or in the second after a value. -/
theorem bind_eq_panic {x : Outcome ε α} {next : α → Outcome ε β} {p : Panic} :
    (x >>= next) = .panic p ↔ x = .panic p ∨ ∃ a, x = .ok a ∧ next a = .panic p := by
  cases x <;> simp

/-- The computation ends in a panic. -/
def Panics (x : Outcome ε α) : Prop := ∃ p, x = .panic p

@[simp] theorem not_panics_ok (a : α) : ¬ (Outcome.ok a : Outcome ε α).Panics := nofun

@[simp] theorem not_panics_error (e : ε) : ¬ (Outcome.error e : Outcome ε α).Panics := nofun

@[simp] theorem panics_panic (p : Panic) : (Outcome.panic p : Outcome ε α).Panics := ⟨p, rfl⟩

theorem panics_bind {x : Outcome ε α} {next : α → Outcome ε β} :
    (x >>= next).Panics ↔ x.Panics ∨ ∃ a, x = .ok a ∧ (next a).Panics := by
  cases x <;> simp

theorem not_panics_bind {x : Outcome ε α} {next : α → Outcome ε β} (first : ¬ x.Panics)
    (later : ∀ a, ¬ (next a).Panics) : ¬ (x >>= next).Panics := by
  rw [panics_bind]
  rintro (here | ⟨a, -, there⟩)
  · exact first here
  · exact later a there

theorem panics_map {f : α → β} {x : Outcome ε α} : (f <$> x).Panics ↔ x.Panics := by
  cases x <;> simp

@[simp] theorem not_panics_ofOption (e : ε) (x : Option α) : ¬ (ofOption e x).Panics := by
  cases x <;> simp

/-- A loop whose steps all return values returns them. -/
theorem mapM_of_ok {step : α → Outcome ε β} (value : α → β) {elements : List α}
    (each : ∀ a ∈ elements, step a = .ok (value a)) : elements.mapM step = .ok (elements.map value) := by
  induction elements with
  | nil => rfl
  | cons a elements ih =>
    rw [List.mapM_cons, each a List.mem_cons_self, ok_bind,
      ih fun b member => each b (List.mem_cons_of_mem a member)]
    rfl

theorem mapM_congr {first second : α → Outcome ε β} {elements : List α}
    (same : ∀ a ∈ elements, first a = second a) : elements.mapM first = elements.mapM second := by
  induction elements with
  | nil => rfl
  | cons a elements ih =>
    rw [List.mapM_cons, List.mapM_cons, same a List.mem_cons_self,
      ih fun b member => same b (List.mem_cons_of_mem a member)]

/-- Where each step returns one value under some condition, so does a sequence of them. -/
theorem mapM_eq_ok {step : α → Outcome ε β} {holds : α → Prop} {value : α → β}
    (each : ∀ a b, step a = .ok b ↔ holds a ∧ b = value a) {elements : List α} : ∀ {values : List β},
    elements.mapM step = .ok values ↔ (∀ a ∈ elements, holds a) ∧ values = elements.map value := by
  induction elements with
  | nil =>
    intro values
    simp [Pure.pure, eq_comm]
  | cons a elements ih =>
    intro values
    rw [List.mapM_cons, List.forall_mem_cons, List.map_cons]
    constructor
    · intro done
      obtain ⟨b, first, done⟩ := bind_eq_ok.mp done
      obtain ⟨rest, later, done⟩ := bind_eq_ok.mp done
      cases done
      obtain ⟨here, rfl⟩ := (each a b).mp first
      obtain ⟨others, rfl⟩ := ih.mp later
      exact ⟨⟨here, others⟩, rfl⟩
    · rintro ⟨⟨here, others⟩, rfl⟩
      rw [(each a _).mpr ⟨here, rfl⟩, ok_bind, ih.mpr ⟨others, rfl⟩]
      rfl

theorem mapM_cons_eq_ok {step : α → Outcome ε β} {a : α} {elements : List α} {values : List β} :
    (a :: elements).mapM step = .ok values ↔
      ∃ b rest, step a = .ok b ∧ elements.mapM step = .ok rest ∧ values = b :: rest := by
  rw [List.mapM_cons, bind_eq_ok]
  simp only [bind_eq_ok, pure_eq, Outcome.ok.injEq]
  constructor
  · rintro ⟨b, first, rest, later, rfl⟩
    exact ⟨b, rest, first, later, rfl⟩
  · rintro ⟨b, rest, first, later, rfl⟩
    exact ⟨b, first, rest, later, rfl⟩

theorem mapM_map (f : β → γ) (step : α → Outcome ε β) (elements : List α) :
    elements.mapM (fun a => f <$> step a) = List.map f <$> elements.mapM step := by
  induction elements with
  | nil => rfl
  | cons a elements ih =>
    rw [List.mapM_cons, List.mapM_cons, ih]
    cases step a with
    | ok b => cases elements.mapM step <;> rfl
    | error e => rfl
    | panic p => rfl

/-- A loop returns the values that its steps can return. -/
theorem eq_map_of_mapM {step : α → Outcome ε β} (value : α → β) {elements : List α} : ∀ {values : List β},
    (∀ a ∈ elements, ∀ b, step a = .ok b → b = value a) → elements.mapM step = .ok values →
    values = elements.map value := by
  induction elements with
  | nil =>
    intro values _ done
    cases done
    rfl
  | cons a elements ih =>
    intro values each done
    obtain ⟨here, others⟩ := List.forall_mem_cons.mp each
    obtain ⟨b, rest, first, later, rfl⟩ := mapM_cons_eq_ok.mp done
    rw [here b first, ih others later, List.map_cons]

/-- What a loop returns, its steps return. -/
theorem exists_of_mem_mapM {step : α → Outcome ε β} {elements : List α} : ∀ {values : List β},
    elements.mapM step = .ok values → ∀ value ∈ values, ∃ a ∈ elements, step a = .ok value := by
  induction elements with
  | nil =>
    intro values done
    cases done
    nofun
  | cons a elements ih =>
    intro values done value member
    obtain ⟨b, rest, first, later, rfl⟩ := mapM_cons_eq_ok.mp done
    rcases List.mem_cons.mp member with rfl | member
    · exact ⟨a, List.mem_cons_self, first⟩
    · obtain ⟨other, among, same⟩ := ih later value member
      exact ⟨other, List.mem_cons_of_mem a among, same⟩

/-- A loop panics at an element when its steps return values for those before. -/
theorem panics_mapM {step : α → Outcome ε β} {elements : List α} :
    (elements.mapM step).Panics ↔ ∃ before a after, elements = before ++ a :: after ∧
      (∀ earlier ∈ before, ∃ b, step earlier = .ok b) ∧ (step a).Panics := by
  induction elements with
  | nil => simp
  | cons first elements ih =>
    rw [List.mapM_cons, panics_bind]
    constructor
    · rintro (here | ⟨b, found, later⟩)
      · exact ⟨[], first, elements, rfl, nofun, here⟩
      · obtain ⟨before, a, after, rfl, fine, panics⟩ :=
          ih.mp ((panics_bind.mp later).resolve_right fun ⟨_, _, done⟩ => not_panics_ok _ done)
        exact ⟨first :: before, a, after, rfl, List.forall_mem_cons.mpr ⟨⟨b, found⟩, fine⟩, panics⟩
    · rintro ⟨before, a, after, same, fine, panics⟩
      cases before with
      | nil =>
        cases same
        exact .inl panics
      | cons earlier before =>
        cases same
        obtain ⟨⟨b, found⟩, fine⟩ := List.forall_mem_cons.mp fine
        exact .inr ⟨b, found, panics_bind.mpr (.inl (ih.mpr ⟨before, a, after, rfl, fine, panics⟩))⟩

/-- What each turn of a counted loop takes from one turn to the next, the whole loop takes
from the first to the last. -/
theorem foldlM_range (invariant : Nat → β → Prop) {step : β → Nat → Outcome ε β} {count : Nat} {start : β}
    (first : invariant 0 start)
    (turn : ∀ i < count, ∀ b, invariant i b → ∃ next, step b i = .ok next ∧ invariant (i + 1) next) :
    ∃ last, (List.range count).foldlM step start = .ok last ∧ invariant count last := by
  induction count with
  | zero => exact ⟨start, rfl, first⟩
  | succ count ih =>
    obtain ⟨middle, before, held⟩ := ih fun i bound => turn i (Nat.lt_succ_of_lt bound)
    obtain ⟨last, done, kept⟩ := turn count (Nat.lt_succ_self count) middle held
    refine ⟨last, ?_, kept⟩
    rw [List.range_succ, List.foldlM_append, before, ok_bind, List.foldlM_cons, done]
    rfl

/-- Two counted loops whose turns do the same do the same. -/
theorem foldlM_range_congr {first second : β → Nat → Outcome ε β} {count : Nat}
    (same : ∀ b, ∀ i < count, first b i = second b i) (start : β) :
    (List.range count).foldlM first start = (List.range count).foldlM second start := by
  induction count generalizing start with
  | zero => rfl
  | succ count ih =>
    have before := ih (fun b i bound => same b i (Nat.lt_succ_of_lt bound)) start
    have last (b : β) : [count].foldlM first b = [count].foldlM second b := by
      simp [same b count (Nat.lt_succ_self count)]
    rw [List.range_succ, List.foldlM_append, List.foldlM_append, before]
    simp only [last]

theorem not_panics_foldlM {step : β → α → Outcome ε β} {elements : List α} {start : β}
    (each : ∀ b, ∀ a ∈ elements, ¬ (step b a).Panics) : ¬ (elements.foldlM step start).Panics := by
  induction elements generalizing start with
  | nil => exact not_panics_ok start
  | cons a elements ih =>
    exact not_panics_bind (each start a List.mem_cons_self) fun _ =>
      ih fun b later member => each b later (List.mem_cons_of_mem a member)

/-- The computation does not end in an error. -/
def Unfailing (x : Outcome ε α) : Prop := ∀ e, x ≠ .error e

theorem Unfailing.ok (a : α) : (Outcome.ok a : Outcome ε α).Unfailing := nofun

theorem Unfailing.bind {x : Outcome ε α} {next : α → Outcome ε β} (first : x.Unfailing)
    (later : ∀ a, (next a).Unfailing) : (x >>= next).Unfailing := by
  cases x with
  | ok a => exact later a
  | error e => exact absurd rfl (first e)
  | panic p => exact nofun

theorem Unfailing.foldlM {step : β → α → Outcome ε β} (each : ∀ b a, (step b a).Unfailing)
    (elements : List α) (start : β) : (elements.foldlM step start).Unfailing := by
  induction elements generalizing start with
  | nil => exact .ok start
  | cons a elements ih => exact (each start a).bind ih

/-- A loop that does not fail comes to its last turn, or panics before. -/
theorem foldlM_range_panics {step : β → Nat → Outcome ε β} {count : Nat} {start : β}
    (each : ∀ b i, (step b i).Unfailing) (last : ∀ b, (step b count).Panics) :
    ((List.range (count + 1)).foldlM step start).Panics := by
  rw [List.range_succ, List.foldlM_append, panics_bind]
  cases before : (List.range count).foldlM step start with
  | ok b =>
    right
    refine ⟨b, rfl, ?_⟩
    rw [List.foldlM_cons, panics_bind]
    exact .inl (last b)
  | error e => exact absurd before (Unfailing.foldlM each _ _ e)
  | panic p => exact .inl (panics_panic p)

end Outcome

end Foundation
