import Oxcdf.Foundation.Buffer
import Oxcdf.Foundation.Session

/-! Steps that fill a buffer by writes which do not depend on what it holds.

Such a step acts on every buffer of one length in the same way: it ends in one
outcome and leaves one state behind, and where it succeeds the result is the
buffer with a fixed sequence of writes applied. `Writes` says so of every start
state; `Performs` adds that the step succeeds from a state that satisfies an
invariant, and keeps the invariant.
-/

set_option autoImplicit false

namespace Foundation

open Buffer

variable {σ ε α β : Type} {length : Nat}

/-- The writes of a sequence that stops where one is not available or does not
fit into a buffer of some length. -/
def collect (length : Nat) : List (Outcome ε (Write α)) → Outcome ε (List (Write α))
  | [] => .ok []
  | next :: rest => do
    let write ← next
    if write.Fits length then (write :: ·) <$> collect length rest else .panic .index

theorem storeEach_eq_collect {nexts : List (Outcome ε (Write α))} : ∀ {buffer : List α},
    storeEach nexts buffer = applyWrites buffer <$> collect buffer.length nexts := by
  induction nexts with
  | nil => exact fun {_} => rfl
  | cons next nexts ih =>
    intro buffer
    cases next with
    | error e => rfl
    | panic p => rfl
    | ok write =>
      simp only [storeEach, collect, Outcome.ok_bind]
      by_cases fits : write.Fits buffer.length
      · rw [store_of_fits fits, Outcome.ok_bind, ih, splice_length _ fits, if_pos fits]
        cases collect buffer.length nexts <;> rfl
      · rw [store, if_neg fits, if_neg fits]
        rfl

theorem collect_eq_ok {nexts : List (Outcome ε (Write α))} : ∀ {writes : List (Write α)},
    collect length nexts = .ok writes →
      nexts = writes.map .ok ∧ ∀ write ∈ writes, write.Fits length := by
  induction nexts with
  | nil =>
    intro writes done
    cases done
    simp
  | cons next nexts ih =>
    intro writes done
    obtain ⟨write, available, done⟩ := Outcome.bind_eq_ok.mp done
    split at done
    · next fits =>
      rcases rest : collect length nexts with later | e | p
      · rw [rest] at done
        cases done
        obtain ⟨same, each⟩ := ih rest
        rw [available, same]
        exact ⟨rfl, by simpa [fits] using each⟩
      · rw [rest] at done
        cases done
      · rw [rest] at done
        cases done
    · cases done

def Writes (length : Nat) (property : List (Write α) → Prop)
    (step : List α → Session σ ε (List α)) : Prop :=
  ∀ state, ∃ (outcome : Outcome ε (List (Write α))) (after : σ),
    (∀ writes, outcome = .ok writes →
      (∀ write ∈ writes, write.Fits length) ∧ property writes) ∧
    ∀ buffer, buffer.length = length → step buffer state = (applyWrites buffer <$> outcome, after)

def Performs (invariant : σ → Prop) (length : Nat) (property : List (Write α) → Prop)
    (step : List α → Session σ ε (List α)) : Prop :=
  ∀ state, invariant state → ∃ (writes : List (Write α)) (after : σ),
    invariant after ∧ (∀ write ∈ writes, write.Fits length) ∧ property writes ∧
    ∀ buffer, buffer.length = length → step buffer state = (.ok (applyWrites buffer writes), after)

namespace Writes

variable {property first second : List (Write α) → Prop}

theorem pure (none_ : property []) :
    Writes length property (fun buffer => (Pure.pure buffer : Session σ ε (List α))) := by
  intro state
  refine ⟨.ok [], state, fun writes same => ?_, fun buffer _ => rfl⟩
  cases same
  exact ⟨by simp, none_⟩

theorem fail (outcome : Outcome ε (List α)) (fails : ∀ value, outcome ≠ .ok value) :
    Writes length property (fun _ => (Session.lift outcome : Session σ ε (List α))) := by
  intro state
  cases outcome with
  | ok value => exact absurd rfl (fails value)
  | error e => exact ⟨.error e, state, by simp, fun _ _ => rfl⟩
  | panic p => exact ⟨.panic p, state, by simp, fun _ _ => rfl⟩

theorem storeEach {nexts : List (Outcome ε (Write α))}
    (holds : ∀ writes, nexts = writes.map .ok → (∀ write ∈ writes, write.Fits length) →
      property writes) :
    Writes length property
      (fun buffer => (Session.lift (storeEach nexts buffer) : Session σ ε (List α))) := by
  intro state
  refine ⟨collect length nexts, state, fun writes done => ?_, fun buffer long => ?_⟩
  · obtain ⟨same, fits⟩ := collect_eq_ok done
    exact ⟨fits, holds writes same fits⟩
  · change (Buffer.storeEach nexts buffer, state) = _
    rw [storeEach_eq_collect, long]

theorem copyInto (start stop : Nat) (entries : List α) :
    Writes length (fun writes => writes = [⟨start, entries⟩] ∧ start ≤ stop ∧ entries.length = stop - start)
      (fun buffer => (Session.lift (copyInto buffer start stop entries) : Session σ ε (List α))) := by
  intro state
  by_cases fits : start ≤ stop ∧ stop ≤ length ∧ entries.length = stop - start
  · refine ⟨.ok [⟨start, entries⟩], state, fun writes same => ?_, fun buffer long => ?_⟩
    · cases same
      refine ⟨fun write member => ?_, rfl, fits.1, fits.2.2⟩
      rw [List.mem_singleton.mp member]
      change start + entries.length ≤ length
      omega
    · change (Buffer.copyInto buffer start stop entries, state) = _
      rw [Buffer.copyInto, long, if_pos fits]
      rfl
  · refine ⟨.panic .index, state, by simp, fun buffer long => ?_⟩
    change (Buffer.copyInto buffer start stop entries, state) = _
    rw [Buffer.copyInto, long, if_neg fits]
    rfl

/-- A step that does not see the buffer may come first. -/
theorem after {known : β → Prop} {step : Session σ ε β} {next : β → List α → Session σ ε (List α)}
    (yields : step.Yields known) (each : ∀ b, known b → Writes length property (next b)) :
    Writes length property (fun buffer => step >>= fun b => next b buffer) := by
  intro state
  rcases found : step state with ⟨b | e | p, middle⟩
  · obtain ⟨outcome, after, holds, same⟩ := each b (yields state b middle found) middle
    exact ⟨outcome, after, holds, fun buffer long =>
      (Session.bind_ok found).trans (same buffer long)⟩
  · exact ⟨.error e, middle, by simp, fun buffer _ => Session.bind_error found⟩
  · exact ⟨.panic p, middle, by simp, fun buffer _ => Session.bind_panic found⟩

theorem bind {front back : List α → Session σ ε (List α)} (before : Writes length first front)
    (later : Writes length second back)
    (joined : ∀ a b, first a → second b → property (a ++ b)) :
    Writes length property (fun buffer => front buffer >>= back) := by
  intro state
  obtain ⟨outcome, middle, holds, same⟩ := before state
  cases outcome with
  | error e =>
    exact ⟨.error e, middle, by simp, fun buffer long => Session.bind_error (same buffer long)⟩
  | panic p =>
    exact ⟨.panic p, middle, by simp, fun buffer long => Session.bind_panic (same buffer long)⟩
  | ok writes =>
    obtain ⟨fits, known⟩ := holds writes rfl
    obtain ⟨rest, after, holdsRest, sameRest⟩ := later middle
    refine ⟨(writes ++ ·) <$> rest, after, fun all same => ?_, fun buffer long => ?_⟩
    · cases rest with
      | ok others =>
        cases same
        obtain ⟨fitsRest, knownRest⟩ := holdsRest others rfl
        refine ⟨fun write member => ?_, joined writes others known knownRest⟩
        exact (List.mem_append.mp member).elim (fits write) (fitsRest write)
      | error e => cases same
      | panic p => cases same
    · have kept : (applyWrites buffer writes).length = length := by
        rw [applyWrites_length (by rwa [long]), long]
      apply (Session.bind_ok (same buffer long)).trans
      rw [sameRest _ kept]
      cases rest <;> simp [applyWrites_append]

theorem imp {step : List α → Session σ ε (List α)} (before : Writes length first step)
    (weaker : ∀ writes, (∀ write ∈ writes, write.Fits length) → first writes → second writes) :
    Writes length second step := by
  intro state
  obtain ⟨outcome, after, holds, same⟩ := before state
  refine ⟨outcome, after, fun writes done => ?_, same⟩
  obtain ⟨fits, known⟩ := holds writes done
  exact ⟨fits, weaker writes fits known⟩

/-- Writing keeps the length of the buffer. -/
theorem length_eq {step : List α → Session σ ε (List α)} (writes : Writes length property step)
    {buffer result : List α} (long : buffer.length = length) {state after : σ}
    (done : step buffer state = (.ok result, after)) : result.length = length := by
  obtain ⟨outcome, _, holds, same⟩ := writes state
  rw [same buffer long] at done
  cases outcome with
  | error e => cases done
  | panic p => cases done
  | ok found =>
    cases done
    rw [applyWrites_length (by rw [long]; exact (holds found rfl).1), long]

/-- Where the writes of a step reach every position, it does not matter what the
buffer held. -/
theorem eq_of_covering {step : List α → Session σ ε (List α)}
    (writes : Writes length (Covering length) step)
    {left right : List α} (leftLong : left.length = length) (rightLong : right.length = length) :
    step left = step right := by
  funext state
  obtain ⟨outcome, after, holds, same⟩ := writes state
  rw [same left leftLong, same right rightLong]
  cases outcome with
  | error e => rfl
  | panic p => rfl
  | ok found =>
    obtain ⟨fits, covers⟩ := holds found rfl
    have equal : applyWrites left found = applyWrites right found := by
      apply applyWrites_congr (leftLong.trans rightLong.symm) (by rwa [leftLong])
      intro i untouched
      rcases Nat.lt_or_ge i length with inside | beyond
      · obtain ⟨write, member, reached⟩ := covers i inside
        exact absurd reached (untouched write member)
      · rw [List.getElem?_eq_none (by omega), List.getElem?_eq_none (by omega)]
    simp [equal]

end Writes

namespace Performs

variable {invariant : σ → Prop} {property first second : List (Write α) → Prop}

theorem pure (none_ : property []) :
    Performs invariant length property (fun buffer => (Pure.pure buffer : Session σ ε (List α))) :=
  fun state holds => ⟨[], state, holds, by simp, none_, fun _ _ => rfl⟩

theorem storeEach {writes : List (Write α)} (fits : ∀ write ∈ writes, write.Fits length)
    (holds : property writes) :
    Performs invariant length property
      (fun buffer => (Session.lift (storeEach (writes.map .ok) buffer) : Session σ ε (List α))) := by
  intro state before
  refine ⟨writes, state, before, fits, holds, fun buffer long => ?_⟩
  change (Buffer.storeEach (writes.map .ok) buffer, state) = _
  rw [storeEach_of_fits (by rwa [long])]

/-- A step that does not see the buffer, succeeds and keeps the invariant may come
first. -/
theorem after {step : Session σ ε β} {next : β → List α → Session σ ε (List α)} {b : β}
    (returns : ∀ state, invariant state → ∃ after, step state = (.ok b, after) ∧ invariant after)
    (later : Performs invariant length property (next b)) :
    Performs invariant length property (fun buffer => step >>= fun b => next b buffer) := by
  intro state before
  obtain ⟨middle, found, kept⟩ := returns state before
  obtain ⟨writes, after, keptLater, fits, holds, same⟩ := later middle kept
  exact ⟨writes, after, keptLater, fits, holds, fun buffer long =>
    (Session.bind_ok found).trans (same buffer long)⟩

theorem bind {front back : List α → Session σ ε (List α)}
    (before : Performs invariant length first front) (later : Performs invariant length second back)
    (joined : ∀ a b, first a → second b → property (a ++ b)) :
    Performs invariant length property (fun buffer => front buffer >>= back) := by
  intro state holds
  obtain ⟨writes, middle, kept, fits, known, same⟩ := before state holds
  obtain ⟨others, after, keptLater, fitsLater, knownLater, sameLater⟩ := later middle kept
  refine ⟨writes ++ others, after, keptLater, fun write member => ?_, joined _ _ known knownLater,
    fun buffer long => ?_⟩
  · exact (List.mem_append.mp member).elim (fits write) (fitsLater write)
  · have long' : (applyWrites buffer writes).length = length := by
      rw [applyWrites_length (by rwa [long]), long]
    apply (Session.bind_ok (same buffer long)).trans
    rw [sameLater _ long', applyWrites_append]

end Performs

end Foundation
