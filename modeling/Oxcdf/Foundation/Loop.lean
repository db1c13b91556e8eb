import Oxcdf.Foundation.Outcome

/-! Loops of checked code.

A loop takes turns while its condition holds. It ends in the first state where the
condition fails, or in the error or the panic of a turn. A loop that takes turns for
ever ends in nothing.
-/

set_option autoImplicit false

namespace Foundation

variable {ε σ : Type}

inductive LoopEnds (more : σ → Prop) (turn : σ → Outcome ε σ) : σ → Outcome ε σ → Prop where
  | ended {state : σ} : ¬ more state → LoopEnds more turn state (.ok state)
  | turned {state next : σ} {outcome : Outcome ε σ} : more state → turn state = .ok next →
      LoopEnds more turn next outcome → LoopEnds more turn state outcome
  | failed {state : σ} {e : ε} : more state → turn state = .error e → LoopEnds more turn state (.error e)
  | panicked {state : σ} {why : Panic} : more state → turn state = .panic why →
      LoopEnds more turn state (.panic why)

namespace LoopEnds

variable {more : σ → Prop} {turn : σ → Outcome ε σ}

theorem unique {state : σ} {first second : Outcome ε σ} (one : LoopEnds more turn state first)
    (other : LoopEnds more turn state second) : first = second := by
  induction one with
  | ended last =>
    cases other with
    | ended => rfl
    | turned goes => exact absurd goes last
    | failed goes => exact absurd goes last
    | panicked goes => exact absurd goes last
  | turned goes took later ih =>
    cases other with
    | ended last => exact absurd goes last
    | turned _ takes rest =>
      cases took.symm.trans takes
      exact ih rest
    | failed _ takes => cases took.symm.trans takes
    | panicked _ takes => cases took.symm.trans takes
  | failed goes took =>
    cases other with
    | ended last => exact absurd goes last
    | turned _ takes => cases took.symm.trans takes
    | failed _ takes =>
      cases took.symm.trans takes
      rfl
    | panicked _ takes => cases took.symm.trans takes
  | panicked goes took =>
    cases other with
    | ended last => exact absurd goes last
    | turned _ takes => cases took.symm.trans takes
    | failed _ takes => cases took.symm.trans takes
    | panicked _ takes =>
      cases took.symm.trans takes
      rfl

/-- A loop whose turns keep an invariant and lower a measure ends in a state with the invariant. -/
theorem of_measure {holds : σ → Prop} (measure : σ → Nat)
    (step : ∀ state, holds state → more state →
      ∃ next, turn state = .ok next ∧ holds next ∧ measure next < measure state) :
    ∀ {state : σ}, holds state →
      ∃ last, LoopEnds more turn state (.ok last) ∧ holds last ∧ ¬ more last := by
  -- The measure is not a fuel of the loop, so the induction is on a bound of it.
  have bounded : ∀ (bound : Nat) {state : σ}, measure state < bound → holds state →
      ∃ last, LoopEnds more turn state (.ok last) ∧ holds last ∧ ¬ more last := by
    intro bound
    induction bound with
    | zero => exact fun low => absurd low (Nat.not_lt_zero _)
    | succ bound ih =>
      intro state low held
      by_cases goes : more state
      · obtain ⟨next, took, kept, lower⟩ := step state held goes
        obtain ⟨last, ends, final⟩ := ih (by omega) kept
        exact ⟨last, .turned goes took ends, final⟩
      · exact ⟨state, .ended goes, held, goes⟩
  intro state held
  exact bounded (measure state + 1) (Nat.lt_succ_self _) held

end LoopEnds

end Foundation
