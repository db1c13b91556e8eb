import Mathlib.Algebra.GroupWithZero.Nat
import Mathlib.Logic.Function.Basic
import Mathlib.Logic.Relation
import Oxcdf.Foundation.Dialogue

/-! Threads that share a state.

Each thread is a dialogue whose queries are single steps on the state, and between
two of its steps the others take any number of theirs. What a step may do is agreed
on: it keeps a property of the state and moves the state in permitted ways only. A
thread that relies on the agreement alone ends as it should in every interleaving.
-/

set_option autoImplicit false

namespace Foundation

/-- What threads agree on: a property of the state, and how a step may move it. -/
structure Agreement (σ : Type) where
  holds : σ → Prop
  moves : σ → σ → Prop
  refl : ∀ state, moves state state
  trans : ∀ {a b c}, moves a b → moves b c → moves a c

namespace Dialogue

variable {ε : Type} {I : Signature} {σ α β ν : Type}

/-- A thread after the answer to its query. A panic ends it. -/
def resume (next : Except ε ν → Dialogue ε I α) : Outcome ε ν → Dialogue ε I α
  | .ok value => next (.ok value)
  | .error e => next (.error e)
  | .panic p => .finish (.panic p)

section Safe

variable (handler : Handler ε I σ) (agreement : Agreement σ)

/-- A thread that last saw some state keeps to the agreement and ends as it should,
whatever is done between its steps. -/
def Safe (ends : Outcome ε α → σ → Prop) : Dialogue ε I α → σ → Prop
  | .finish outcome, seen => ends outcome seen
  | .ask query next, seen => ∀ state, agreement.moves seen state → agreement.holds state →
      agreement.moves state (handler query state).2 ∧ agreement.holds (handler query state).2 ∧
        match (handler query state).1 with
        | .ok value => Safe ends (next (.ok value)) (handler query state).2
        | .error e => Safe ends (next (.error e)) (handler query state).2
        | .panic p => ends (.panic p) (handler query state).2

/-- Whatever is done between its steps, a thread ends with one outcome. Without the
proviso it may also fail in another way. -/
def Gives (proviso : Prop) (outcome : Outcome ε α) (thread : Dialogue ε I α) : Prop :=
  ∀ seen, Safe handler agreement (fun got _ => got = outcome ∨ ¬ proviso ∧ ∀ a, got ≠ .ok a) thread seen

/-- Whatever is done between its steps, a thread returns a value with a property. -/
def Yields (property : α → Prop) (thread : Dialogue ε I α) : Prop :=
  ∀ seen, Safe handler agreement (fun got _ => ∃ a, got = .ok a ∧ property a) thread seen

variable {handler : Handler ε I σ} {agreement : Agreement σ}

theorem safe_ask {ends : Outcome ε α → σ → Prop} {query : I.Query}
    {next : Except ε (I.Value query) → Dialogue ε I α} {seen : σ} :
    Safe handler agreement ends (.ask query next) seen ↔
      ∀ state, agreement.moves seen state → agreement.holds state →
        agreement.moves state (handler query state).2 ∧ agreement.holds (handler query state).2 ∧
          Safe handler agreement ends (resume next (handler query state).1) (handler query state).2 := by
  constructor
  · intro safe state moved held
    have after := safe state moved held
    cases answer : (handler query state).1 <;> simpa [answer, resume, Safe] using after
  · intro safe state moved held
    have after := safe state moved held
    cases answer : (handler query state).1 <;> simpa [answer, resume, Safe] using after

theorem Safe.query {q : I.Query} {ends : Outcome ε (I.Value q) → σ → Prop} {seen : σ}
    (each : ∀ state, agreement.moves seen state → agreement.holds state →
      agreement.moves state (handler q state).2 ∧ agreement.holds (handler q state).2 ∧
        ends (handler q state).1 (handler q state).2) :
    Safe handler agreement ends (Dialogue.query q) seen := by
  refine safe_ask.mpr fun state moved held => ?_
  have after := each state moved held
  cases answer : (handler q state).1 <;> simpa [answer, resume, Safe] using after

theorem Safe.mono {ends later : Outcome ε α → σ → Prop} (weaker : ∀ got state, ends got state → later got state)
    {thread : Dialogue ε I α} {seen : σ} (safe : Safe handler agreement ends thread seen) :
    Safe handler agreement later thread seen := by
  induction thread generalizing seen with
  | finish outcome => exact weaker outcome seen safe
  | ask query next ih =>
    intro state moved held
    have after := safe state moved held
    cases answer : (handler query state).1 with
    | ok value =>
      simp only [answer] at after ⊢
      exact ⟨after.1, after.2.1, ih (.ok value) after.2.2⟩
    | error e =>
      simp only [answer] at after ⊢
      exact ⟨after.1, after.2.1, ih (.error e) after.2.2⟩
    | panic p =>
      simp only [answer] at after ⊢
      exact ⟨after.1, after.2.1, weaker _ _ after.2.2⟩

/-- A sequence is safe when its second part is, from whatever state the first leaves behind. -/
theorem Safe.bind {middle : Outcome ε α → σ → Prop} {ends : Outcome ε β → σ → Prop}
    {first : Dialogue ε I α} {next : α → Dialogue ε I β} {seen : σ}
    (begins : Safe handler agreement middle first seen)
    (rest : ∀ a state, middle (.ok a) state → Safe handler agreement ends (next a) state)
    (fails : ∀ e state, middle (.error e) state → ends (.error e) state)
    (panics : ∀ p state, middle (.panic p) state → ends (.panic p) state) :
    Safe handler agreement ends (first >>= next) seen := by
  change Safe handler agreement ends (first.bind next) seen
  induction first generalizing seen with
  | finish outcome =>
    cases outcome with
    | ok a => exact rest a seen begins
    | error e => exact fails e seen begins
    | panic p => exact panics p seen begins
  | ask query continue_ ih =>
    intro state moved held
    have after := begins state moved held
    cases answer : (handler query state).1 with
    | ok value =>
      simp only [answer] at after ⊢
      exact ⟨after.1, after.2.1, ih (.ok value) after.2.2⟩
    | error e =>
      simp only [answer] at after ⊢
      exact ⟨after.1, after.2.1, ih (.error e) after.2.2⟩
    | panic p =>
      simp only [answer] at after ⊢
      exact ⟨after.1, after.2.1, panics p _ after.2.2⟩

variable {proviso : Prop} {outcome : Outcome ε α}

theorem Gives.lift (proviso : Prop) (outcome : Outcome ε α) :
    Gives handler agreement proviso outcome (lift outcome) := fun _ => .inl rfl

theorem Gives.pure (proviso : Prop) (a : α) :
    Gives handler agreement proviso (.ok a) (Pure.pure a) := Gives.lift proviso (.ok a)

theorem Gives.bind {rest : α → Outcome ε β} {first : Dialogue ε I α} {next : α → Dialogue ε I β}
    (begins : Gives handler agreement proviso outcome first)
    (continues : ∀ a, outcome = .ok a → Gives handler agreement proviso (rest a) (next a)) :
    Gives handler agreement proviso (outcome >>= rest) (first >>= next) := by
  intro seen
  apply (begins seen).bind
  · rintro a state (same | ⟨-, failed⟩)
    · subst same
      exact continues a rfl state
    · exact absurd rfl (failed a)
  · rintro e state (same | ⟨without, -⟩)
    · subst same
      exact .inl rfl
    · exact .inr ⟨without, nofun⟩
  · rintro p state (same | ⟨without, -⟩)
    · subst same
      exact .inl rfl
    · exact .inr ⟨without, nofun⟩

/-- After a part that returns, what the rest gives is what the sequence gives. -/
theorem Gives.bind_ok {a : α} {rest : Outcome ε β} {first : Dialogue ε I α} {next : α → Dialogue ε I β}
    (begins : Gives handler agreement proviso (.ok a) first)
    (continues : Gives handler agreement proviso rest (next a)) :
    Gives handler agreement proviso rest (first >>= next) := by
  have after (b : α) (same : Outcome.ok a = (Outcome.ok b : Outcome ε α)) :
      Gives handler agreement proviso rest (next b) := by
    cases same
    exact continues
  exact begins.bind after

theorem Gives.bind_error {e : ε} {first : Dialogue ε I α} {next : α → Dialogue ε I β}
    (begins : Gives handler agreement proviso (.error e) first) :
    Gives handler agreement proviso (.error e) (first >>= next) := by
  have never (b : α) (same : Outcome.error e = (Outcome.ok b : Outcome ε α)) :
      Gives handler agreement proviso (.error e : Outcome ε β) (next b) := by
    cases same
  exact begins.bind never

/-- Without the proviso, a sequence may fail where its first part does. -/
theorem Gives.fails {result : Outcome ε β} (without : ¬ proviso) {first : Dialogue ε I α}
    {next : α → Dialogue ε I β} (begins : Gives handler agreement proviso outcome first)
    (failed : ∀ a, outcome ≠ .ok a) : Gives handler agreement proviso result (first >>= next) := by
  intro seen
  apply (begins seen).bind
  · rintro a state (same | ⟨-, other⟩)
    · exact absurd same.symm (failed a)
    · exact absurd rfl (other a)
  · exact fun _ _ _ => .inr ⟨without, nofun⟩
  · exact fun _ _ _ => .inr ⟨without, nofun⟩

theorem Gives.mapM {outcome : α → Outcome ε β} {thread : α → Dialogue ε I β}
    (each : ∀ a, Gives handler agreement proviso (outcome a) (thread a)) (items : List α) :
    Gives handler agreement proviso (items.mapM outcome) (items.mapM thread) := by
  induction items with
  | nil => exact Gives.pure proviso []
  | cons item items ih =>
    simp only [List.mapM_cons]
    exact (each item).bind fun _ _ => ih.bind fun _ _ => Gives.pure proviso _

/-- With a proviso that is met less often, less is said. -/
theorem Gives.weaken {weaker : Prop} (less : weaker → proviso) {thread : Dialogue ε I α}
    (gives : Gives handler agreement proviso outcome thread) :
    Gives handler agreement weaker outcome thread :=
  fun seen => (gives seen).mono fun _ _ got => got.imp_right fun other => ⟨mt less other.1, other.2⟩

variable {property : α → Prop}

theorem Yields.pure {a : α} (holds : property a) :
    Yields handler agreement property (Pure.pure a : Dialogue ε I α) := fun _ => ⟨a, rfl, holds⟩

/-- What the first part yields may be assumed of its value in the rest. -/
theorem Yields.safe {ends : Outcome ε β → σ → Prop} {first : Dialogue ε I α} {next : α → Dialogue ε I β}
    (begins : Yields handler agreement property first)
    (rest : ∀ a, property a → ∀ seen, Safe handler agreement ends (next a) seen) (seen : σ) :
    Safe handler agreement ends (first >>= next) seen := by
  apply (begins seen).bind
  · rintro b state ⟨a, same, holds⟩
    cases same
    exact rest b holds state
  · rintro e state ⟨a, impossible, -⟩
    cases impossible
  · rintro p state ⟨a, impossible, -⟩
    cases impossible

theorem Yields.bind {result : β → Prop} {first : Dialogue ε I α} {next : α → Dialogue ε I β}
    (begins : Yields handler agreement property first)
    (rest : ∀ a, property a → Yields handler agreement result (next a)) :
    Yields handler agreement result (first >>= next) := begins.safe rest

theorem Yields.gives {result : Outcome ε β} {first : Dialogue ε I α} {next : α → Dialogue ε I β}
    (begins : Yields handler agreement property first)
    (rest : ∀ a, property a → Gives handler agreement proviso result (next a)) :
    Gives handler agreement proviso result (first >>= next) := begins.safe rest

end Safe

section Counting

variable {result : α → Prop} {later : β → Prop}

/-- Whatever it is answered, a thread asks no more than so many queries, and what it then
returns has a property. -/
def Within (result : α → Prop) : Nat → Dialogue ε I α → Prop
  | _, .finish outcome => ∀ a, outcome = .ok a → result a
  | 0, .ask _ _ => False
  | budget + 1, .ask _ next => ∀ answer, Within result budget (next answer)

@[simp] theorem within_finish {budget : Nat} {outcome : Outcome ε α} :
    Within result budget (.finish outcome : Dialogue ε I α) ↔ ∀ a, outcome = .ok a → result a := by
  cases budget <;> rfl

theorem Within.mono {budget more : Nat} {thread : Dialogue ε I α} (within : Within result budget thread)
    (room : budget ≤ more) : Within result more thread := by
  induction thread generalizing budget more with
  | finish outcome => simpa using within
  | ask query next ih =>
    cases budget with
    | zero => exact within.elim
    | succ budget =>
      obtain ⟨more, rfl⟩ := Nat.exists_eq_add_of_le' room
      exact fun answer => ih answer (within answer) (Nat.le_of_succ_le_succ room)

theorem Within.pure {a : α} (holds : result a) (budget : Nat) :
    Within result budget (Pure.pure a : Dialogue ε I α) := by
  refine within_finish.mpr fun b same => ?_
  cases same
  exact holds

theorem Within.lift {outcome : Outcome ε α} (holds : ∀ a, outcome = .ok a → result a) (budget : Nat) :
    Within result budget (lift outcome : Dialogue ε I α) := within_finish.mpr holds

theorem Within.query (q : I.Query) : Within (fun _ => True) 1 (Dialogue.query q : Dialogue ε I _) :=
  fun _ => within_finish.mpr fun _ _ => trivial

theorem Within.bind {budget more : Nat} {first : Dialogue ε I α} {next : α → Dialogue ε I β}
    (begins : Within result budget first) (rest : ∀ a, result a → Within later more (next a)) :
    Within later (budget + more) (first >>= next) := by
  change Within later _ (first.bind next)
  induction first generalizing budget with
  | finish outcome =>
    cases outcome with
    | ok a => exact (rest a (within_finish.mp begins a rfl)).mono (Nat.le_add_left _ _)
    | error e => simp [Dialogue.bind]
    | panic p => simp [Dialogue.bind]
  | ask query continue_ ih =>
    cases budget with
    | zero => exact begins.elim
    | succ budget =>
      simp only [Nat.succ_add]
      exact fun answer => ih answer (begins answer)

theorem Within.imp {weaker : α → Prop} {budget : Nat} {thread : Dialogue ε I α}
    (within : Within result budget thread) (less : ∀ a, result a → weaker a) :
    Within weaker budget thread := by
  induction thread generalizing budget with
  | finish outcome => exact within_finish.mpr fun a same => less a (within_finish.mp within a same)
  | ask query next ih =>
    cases budget with
    | zero => exact within.elim
    | succ budget => exact fun answer => ih answer (within answer)

/-- A step that asks nothing is free. -/
theorem Within.lift_bind {outcome : Outcome ε α} {next : α → Dialogue ε I β} {budget : Nat}
    (rest : ∀ a, outcome = .ok a → Within later budget (next a)) :
    Within later budget (Dialogue.lift outcome >>= next) := by
  cases outcome with
  | ok a => exact rest a rfl
  | error e => exact within_finish.mpr nofun
  | panic p => exact within_finish.mpr nofun

theorem Within.mapM {budget : α → Nat} {thread : α → Dialogue ε I β}
    (each : ∀ a, Within (fun _ => True) (budget a) (thread a)) (items : List α) :
    Within (fun _ => True) (items.map budget).sum (items.mapM thread) := by
  induction items with
  | nil => exact Within.pure trivial 0
  | cons item items ih =>
    simp only [List.mapM_cons, List.map_cons, List.sum_cons]
    have rest (b : β) : Within (fun _ => True) ((items.map budget).sum + 0) (do
        let others ← items.mapM thread
        Pure.pure (b :: others) : Dialogue ε I (List β)) := ih.bind fun others _ => Within.pure trivial 0
    exact (each item).bind fun b _ => rest b

section Paced

variable (handler : Handler ε I σ) (agreement : Agreement σ)

/-- Answered from states that are agreed on, a thread that last saw some state asks no more than so many
queries, and what it then returns has a property. -/
def Paced (result : α → σ → Prop) : Nat → Dialogue ε I α → σ → Prop
  | _, .finish outcome, seen => ∀ a, outcome = .ok a → result a seen
  | 0, .ask _ _, _ => False
  | budget + 1, .ask query next, seen => ∀ state, agreement.moves seen state → agreement.holds state →
      match (handler query state).1 with
      | .ok value => Paced result budget (next (.ok value)) (handler query state).2
      | .error e => Paced result budget (next (.error e)) (handler query state).2
      | .panic _ => True

variable {handler agreement} {result : α → σ → Prop} {later : β → σ → Prop}

theorem paced_finish {budget : Nat} {outcome : Outcome ε α} {seen : σ} :
    Paced handler agreement result budget (.finish outcome) seen ↔ ∀ a, outcome = .ok a → result a seen := by
  cases budget <;> rfl

theorem paced_ask {budget : Nat} {query : I.Query} {next : Except ε (I.Value query) → Dialogue ε I α} {seen : σ} :
    Paced handler agreement result (budget + 1) (.ask query next) seen ↔
      ∀ state, agreement.moves seen state → agreement.holds state →
        Paced handler agreement result budget (resume next (handler query state).1) (handler query state).2 := by
  constructor
  · intro paced state moved held
    have after := paced state moved held
    cases answer : (handler query state).1 with
    | panic p => simp [resume, paced_finish]
    | _ => simpa only [answer, resume] using after
  · intro paced state moved held
    have after := paced state moved held
    cases answer : (handler query state).1 with
    | panic p => trivial
    | _ => simpa only [answer, resume] using after

theorem Paced.mono {budget more : Nat} {thread : Dialogue ε I α} {seen : σ}
    (paced : Paced handler agreement result budget thread seen) (room : budget ≤ more) :
    Paced handler agreement result more thread seen := by
  induction thread generalizing budget more seen with
  | finish outcome => exact paced_finish.mpr (paced_finish.mp paced)
  | ask query next ih =>
    cases budget with
    | zero => exact paced.elim
    | succ budget =>
      obtain ⟨more, rfl⟩ := Nat.exists_eq_add_of_le' room
      intro state moved held
      have after := paced state moved held
      cases answer : (handler query state).1 with
      | panic p => trivial
      | _ =>
        simp only [answer] at after ⊢
        exact ih _ after (Nat.le_of_succ_le_succ room)

/-- A bound that holds whatever the answers. -/
theorem Within.paced {property : α → Prop} {budget : Nat} {thread : Dialogue ε I α}
    (within : Within property budget thread) (seen : σ) :
    Paced handler agreement (fun a _ => property a) budget thread seen := by
  induction thread generalizing budget seen with
  | finish outcome => exact paced_finish.mpr (within_finish.mp within)
  | ask query next ih =>
    cases budget with
    | zero => exact within.elim
    | succ budget =>
      intro state _ _
      cases (handler query state).1 with
      | ok value => exact ih (.ok value) (within (.ok value)) _
      | error e => exact ih (.error e) (within (.error e)) _
      | panic p => trivial

/-- What a thread ends with may be assumed of what it returns. -/
theorem Paced.safe {ends : Outcome ε α → σ → Prop} {budget : Nat} {thread : Dialogue ε I α} {seen : σ}
    (paced : Paced handler agreement result budget thread seen) (safe : Safe handler agreement ends thread seen) :
    Paced handler agreement (fun a state => ends (.ok a) state) budget thread seen := by
  induction thread generalizing budget seen with
  | finish outcome =>
    refine paced_finish.mpr fun a same => ?_
    cases same
    exact safe
  | ask query next ih =>
    cases budget with
    | zero => exact paced.elim
    | succ budget =>
      intro state moved held
      have after := paced state moved held
      have kept := (safe state moved held).2.2
      cases answer : (handler query state).1 with
      | panic p => trivial
      | _ =>
        simp only [answer] at after kept ⊢
        exact ih _ after kept

theorem Paced.bind {budget more : Nat} {first : Dialogue ε I α} {next : α → Dialogue ε I β} {seen : σ}
    (begins : Paced handler agreement result budget first seen)
    (rest : ∀ a state, result a state → Paced handler agreement later more (next a) state) :
    Paced handler agreement later (budget + more) (first >>= next) seen := by
  change Paced handler agreement later _ (first.bind next) seen
  induction first generalizing budget seen with
  | finish outcome =>
    cases outcome with
    | ok a => exact (rest a seen (paced_finish.mp begins a rfl)).mono (Nat.le_add_left _ _)
    | error e => exact paced_finish.mpr nofun
    | panic p => exact paced_finish.mpr nofun
  | ask query continue_ ih =>
    cases budget with
    | zero => exact begins.elim
    | succ budget =>
      simp only [Nat.succ_add]
      intro state moved held
      have after := begins state moved held
      cases answer : (handler query state).1 with
      | panic p => trivial
      | _ =>
        simp only [answer] at after ⊢
        exact ih _ after

theorem Paced.lift_bind {outcome : Outcome ε α} {next : α → Dialogue ε I β} {budget : Nat} {seen : σ}
    (rest : ∀ a, outcome = .ok a → Paced handler agreement later budget (next a) seen) :
    Paced handler agreement later budget (Dialogue.lift outcome >>= next) seen := by
  cases outcome with
  | ok a => exact rest a rfl
  | error e => exact paced_finish.mpr nofun
  | panic p => exact paced_finish.mpr nofun

end Paced

end Counting

end Dialogue

/-- Some threads and the state they share. -/
structure Pool (ε : Type) (I : Signature) (σ : Type) {ι : Type} (α : ι → Type) where
  threads : (i : ι) → Dialogue ε I (α i)
  shared : σ

namespace Pool

variable {ε : Type} {I : Signature} {σ ι : Type} [DecidableEq ι] {α : ι → Type}

/-- A pool after one of its threads, which asks a query, has been answered. -/
def advance (handler : Handler ε I σ) (pool : Pool ε I σ α) (i : ι) (query : I.Query)
    (next : Except ε (I.Value query) → Dialogue ε I (α i)) : Pool ε I σ α where
  threads := Function.update pool.threads i (Dialogue.resume next (handler query pool.shared).1)
  shared := (handler query pool.shared).2

/-- One thread takes its next step, if it has one left. -/
def turn (handler : Handler ε I σ) (pool : Pool ε I σ α) (i : ι) : Pool ε I σ α :=
  match pool.threads i with
  | .ask query next => pool.advance handler i query next
  | .finish _ => pool

/-- The threads take their steps in the order of a schedule. -/
def play (handler : Handler ε I σ) (schedule : List ι) (pool : Pool ε I σ α) : Pool ε I σ α :=
  schedule.foldl (turn handler) pool

variable (handler : Handler ε I σ) (around : σ → σ → Prop)

/-- One thread takes a step, or something else does something to the state. -/
inductive Step : Pool ε I σ α → Pool ε I σ α → Prop where
  | thread {pool : Pool ε I σ α} (i : ι) {query : I.Query}
      {next : Except ε (I.Value query) → Dialogue ε I (α i)} :
      pool.threads i = .ask query next → Step pool (pool.advance handler i query next)
  | around {pool : Pool ε I σ α} {state : σ} : around pool.shared state → Step pool ⟨pool.threads, state⟩

/-- What a pool may become in some steps, in any order. -/
def Reaches : Pool ε I σ α → Pool ε I σ α → Prop := Relation.ReflTransGen (Step handler around)

/-- A run in which one thread takes so many steps, and the others any number of theirs. -/
inductive Turns (i : ι) : Nat → Pool ε I σ α → Pool ε I σ α → Prop where
  | none {pool : Pool ε I σ α} : Turns i 0 pool pool
  | own {turns : Nat} {start pool : Pool ε I σ α} {query : I.Query}
      {next : Except ε (I.Value query) → Dialogue ε I (α i)} : Turns i turns start pool →
      pool.threads i = .ask query next → Turns i (turns + 1) start (pool.advance handler i query next)
  | other {turns : Nat} {start pool : Pool ε I σ α} (j : ι) {query : I.Query}
      {next : Except ε (I.Value query) → Dialogue ε I (α j)} : j ≠ i → Turns i turns start pool →
      pool.threads j = .ask query next → Turns i turns start (pool.advance handler j query next)
  | around {turns : Nat} {start pool : Pool ε I σ α} {state : σ} : Turns i turns start pool →
      around pool.shared state → Turns i turns start ⟨pool.threads, state⟩

variable {handler : Handler ε I σ} {around : σ → σ → Prop}

theorem reaches_play (schedule : List ι) (pool : Pool ε I σ α) :
    Reaches handler around pool (pool.play handler schedule) := by
  induction schedule generalizing pool with
  | nil => exact .refl
  | cons i schedule ih =>
    cases asks : pool.threads i with
    | ask query next =>
      have taken : pool.turn handler i = pool.advance handler i query next := by simp [turn, asks]
      exact .head (taken ▸ .thread i asks) (ih _)
    | finish outcome =>
      have idle : pool.turn handler i = pool := by simp [turn, asks]
      have rest := ih pool
      simpa only [play, List.foldl_cons, idle] using rest

/-- How many steps one thread takes in the order of a schedule. -/
def taken (handler : Handler ε I σ) (i : ι) : List ι → Pool ε I σ α → Nat
  | [], _ => 0
  | j :: schedule, pool =>
    (match pool.threads j with
    | .ask _ _ => if j = i then 1 else 0
    | .finish _ => 0) + taken handler i schedule (pool.turn handler j)

section Kept

variable (handler) (agreement : Agreement σ) (ends : (i : ι) → Outcome ε (α i) → σ → Prop)

/-- The agreed property holds, and every thread is safe since it last saw the state. -/
structure Kept (pool : Pool ε I σ α) : Prop where
  holds : agreement.holds pool.shared
  safe : ∀ i, ∃ seen, agreement.moves seen pool.shared ∧
    Dialogue.Safe handler agreement (ends i) (pool.threads i) seen

/-- What happens to the state otherwise keeps to the agreement too. -/
def Respects (around : σ → σ → Prop) : Prop :=
  ∀ before after, agreement.holds before → around before after →
    agreement.moves before after ∧ agreement.holds after

variable {handler agreement ends} {pool later : Pool ε I σ α}

theorem Kept.step (kept : pool.Kept handler agreement ends) (respects : Respects agreement around)
    (step : Step handler around pool later) :
    agreement.moves pool.shared later.shared ∧ later.Kept handler agreement ends := by
  cases step with
  | @thread i query next asks =>
    obtain ⟨seen, moved, safe⟩ := kept.safe i
    rw [asks, Dialogue.safe_ask] at safe
    obtain ⟨moves, holds, after⟩ := safe pool.shared moved kept.holds
    refine ⟨moves, holds, fun j => ?_⟩
    by_cases here : j = i
    · subst here
      refine ⟨_, agreement.refl _, ?_⟩
      simpa [advance] using after
    · -- The others have not seen this step, but it moved the state as agreed.
      obtain ⟨other, earlier, stays⟩ := kept.safe j
      refine ⟨other, agreement.trans earlier moves, ?_⟩
      simpa [advance, Function.update_of_ne here] using stays
  | around changed =>
    obtain ⟨moves, holds⟩ := respects _ _ kept.holds changed
    refine ⟨moves, holds, fun j => ?_⟩
    obtain ⟨other, earlier, stays⟩ := kept.safe j
    exact ⟨other, agreement.trans earlier moves, stays⟩

/-- What every step keeps is kept by every run. -/
theorem Kept.reaches (kept : pool.Kept handler agreement ends) (respects : Respects agreement around)
    (reaches : Reaches handler around pool later) :
    agreement.moves pool.shared later.shared ∧ later.Kept handler agreement ends := by
  induction reaches with
  | refl => exact ⟨agreement.refl _, kept⟩
  | tail run step ih =>
    obtain ⟨moves, after⟩ := ih.2.step respects step
    exact ⟨agreement.trans ih.1 moves, after⟩

omit [DecidableEq ι] in
theorem Kept.ended (kept : pool.Kept handler agreement ends) {i : ι} {outcome : Outcome ε (α i)}
    (finished : pool.threads i = .finish outcome) :
    ∃ seen, agreement.moves seen pool.shared ∧ ends i outcome seen := by
  obtain ⟨seen, moved, safe⟩ := kept.safe i
  rw [finished] at safe
  exact ⟨seen, moved, safe⟩

/-- No thread takes more steps than it has, however the others delay it. -/
theorem Turns.paced {i : ι} {result : α i → σ → Prop} {turns budget : Nat} {start : Pool ε I σ α}
    (run : Turns handler around i turns start pool) (respects : Respects agreement around)
    (kept : start.Kept handler agreement ends)
    (paced : Dialogue.Paced handler agreement result budget (start.threads i) start.shared) :
    pool.Kept handler agreement ends ∧ ∃ left seen, budget = turns + left ∧
      agreement.moves seen pool.shared ∧ Dialogue.Paced handler agreement result left (pool.threads i) seen := by
  induction run with
  | none => exact ⟨kept, budget, _, (Nat.zero_add _).symm, agreement.refl _, paced⟩
  | @own turns start pool query next run asks ih =>
    obtain ⟨stays, left, seen, total, moved, later⟩ := ih kept paced
    refine ⟨(stays.step respects (.thread i asks)).2, ?_⟩
    rw [asks] at later
    cases left with
    | zero => exact later.elim
    | succ left =>
      refine ⟨left, (pool.advance handler i query next).shared, by omega, agreement.refl _, ?_⟩
      simpa [advance] using Dialogue.paced_ask.mp later pool.shared moved stays.holds
  | @other turns start pool j query next apart run asks ih =>
    obtain ⟨stays, left, seen, total, moved, later⟩ := ih kept paced
    obtain ⟨moves, after⟩ := stays.step respects (.thread j asks)
    refine ⟨after, left, seen, total, agreement.trans moved moves, ?_⟩
    simpa [advance, Function.update_of_ne apart.symm] using later
  | around run changed ih =>
    obtain ⟨stays, left, seen, total, moved, later⟩ := ih kept paced
    obtain ⟨moves, after⟩ := stays.step respects (.around changed)
    exact ⟨after, left, seen, total, agreement.trans moved moves, later⟩

end Kept

end Pool

end Foundation
