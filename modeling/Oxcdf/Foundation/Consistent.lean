import Oxcdf.Foundation.Format
import Oxcdf.Foundation.Machine

/-! Computations in which an unchecked build differs from a checked one only where the checked
one panics: no value is wrapped that a check would not have refused. -/

set_option autoImplicit false

namespace Foundation

variable {σ ε α β : Type}

/-- Where the checked build does not panic, the unchecked one returns the same. -/
def Consistent (run : Build → Outcome ε α) : Prop := ¬ (run .debug).Panics → run .release = run .debug

/-- Nothing overflows in either build. -/
structure Sound (run : Build → Outcome ε α) : Prop where
  safe : ¬ (run .debug).Panics
  same : run .release = run .debug

namespace Consistent

theorem sound_iff {run : Build → Outcome ε α} (consistent : Consistent run) :
    Sound run ↔ ¬ (run .debug).Panics :=
  ⟨Sound.safe, fun safe => ⟨safe, consistent safe⟩⟩

theorem const (outcome : Outcome ε α) : Consistent fun _ => outcome := fun _ => rfl

theorem word (n : Nat) : Consistent fun build => (build.word n : Outcome ε Nat) := by
  intro safe
  have small : n < wordSize := by simpa [Build.word_panics] using safe
  dsimp only
  rw [Build.word_of_lt _ small, Build.word_of_lt _ small]

theorem sub (x y : Nat) : Consistent fun build => (build.sub x y : Outcome ε Nat) := by
  intro safe
  have le : y ≤ x := by simpa [Build.sub_panics] using safe
  dsimp only
  rw [Build.sub_of_le _ le, Build.sub_of_le _ le]

theorem bind {run : Build → Outcome ε α} {next : Build → α → Outcome ε β} (first : Consistent run)
    (rest : ∀ a, run .debug = .ok a → Consistent fun build => next build a) :
    Consistent fun build => run build >>= next build := by
  intro safe
  rw [Outcome.panics_bind, not_or] at safe
  dsimp only
  rw [first safe.1]
  apply Outcome.bind_congr
  intro a found
  exact rest a found fun panics => safe.2 ⟨a, found, panics⟩

theorem ite {condition : Prop} [Decidable condition] {yes no : Build → Outcome ε α} (first : Consistent yes)
    (second : Consistent no) : Consistent fun build => if condition then yes build else no build := by
  by_cases holds : condition
  · simpa only [if_pos holds] using first
  · simpa only [if_neg holds] using second

end Consistent

namespace Session

/-- From the states of a set, the unchecked build does what the checked one does unless that
panics, and the checked one stays in the set. -/
structure ConsistentOn (inside : σ → Prop) (run : Build → Session σ ε α) : Prop where
  same : ∀ state, inside state → ¬ (run .debug).Panics state → run .release state = run .debug state
  keeps : (run .debug).Keeps inside

/-- From the states of a set, nothing overflows in either build. -/
structure SoundOn (inside : σ → Prop) (run : Build → Session σ ε α) : Prop where
  safe : ∀ state, inside state → ¬ (run .debug).Panics state
  same : ∀ state, inside state → run .release state = run .debug state
  keeps : (run .debug).Keeps inside

variable {inside : σ → Prop}

namespace ConsistentOn

theorem lift {run : Build → Outcome ε α} (consistent : Consistent run) :
    ConsistentOn inside fun build => (Session.lift (run build) : Session σ ε α) :=
  ⟨fun _ _ safe => Prod.ext (consistent safe) rfl, Keeps.lift _⟩

theorem pure (a : α) : ConsistentOn inside fun _ => (Pure.pure a : Session σ ε α) :=
  ⟨fun _ _ _ => rfl, Keeps.pure a⟩

theorem bind {run : Build → Session σ ε α} {next : Build → α → Session σ ε β} (first : ConsistentOn inside run)
    (rest : ∀ a, ConsistentOn inside fun build => next build a) :
    ConsistentOn inside fun build => run build >>= next build := by
  refine ⟨fun state here safe => ?_, first.keeps.bind fun a => (rest a).keeps⟩
  rw [panics_bind, not_or] at safe
  have stays := first.keeps state here
  rw [bind_apply, bind_apply, first.same state here safe.1]
  rcases found : run .debug state with ⟨a | e | p, after⟩
  · rw [found] at stays
    exact (rest a).same after stays fun panics => safe.2 ⟨a, after, found, panics⟩
  · rfl
  · rfl

end ConsistentOn

namespace SoundOn

theorem consistent {run : Build → Session σ ε α} (sound : SoundOn inside run) : ConsistentOn inside run :=
  ⟨fun state here _ => sound.same state here, sound.keeps⟩

/-- A step that does not depend on the build. -/
theorem const {step : Session σ ε α} (safe : ∀ state, ¬ step.Panics state) (keeps : step.Keeps inside) :
    SoundOn inside fun _ => step :=
  ⟨fun state _ => safe state, fun _ _ => rfl, keeps⟩

theorem lift {outcome : Outcome ε α} (safe : ¬ outcome.Panics) :
    SoundOn inside fun _ => (Session.lift outcome : Session σ ε α) :=
  const (fun _ => safe) (Keeps.lift outcome)

theorem pure (a : α) : SoundOn inside fun _ => (Pure.pure a : Session σ ε α) :=
  const (fun _ => not_panics_pure a _) (Keeps.pure a)

theorem throw (e : ε) : SoundOn inside fun _ => (Session.throw e : Session σ ε α) :=
  lift (Outcome.not_panics_error e)

theorem bind {run : Build → Session σ ε α} {next : Build → α → Session σ ε β} (first : SoundOn inside run)
    (rest : ∀ a, SoundOn inside fun build => next build a) :
    SoundOn inside fun build => run build >>= next build := by
  refine ⟨fun state here => ?_, fun state here => ?_, first.keeps.bind fun a => (rest a).keeps⟩
  · rw [panics_bind]
    rintro (panics | ⟨a, after, found, panics⟩)
    · exact first.safe state here panics
    · have stays := first.keeps state here
      rw [found] at stays
      exact (rest a).safe after stays panics
  · have stays := first.keeps state here
    rw [bind_apply, bind_apply, first.same state here]
    rcases found : run .debug state with ⟨a | e | p, after⟩
    · rw [found] at stays
      exact (rest a).same after stays
    · rfl
    · rfl

theorem ite {condition : Prop} [Decidable condition] {yes no : Build → Session σ ε α}
    (first : SoundOn inside yes) (second : SoundOn inside no) :
    SoundOn inside fun build => if condition then yes build else no build := by
  by_cases holds : condition
  · simpa only [if_pos holds] using first
  · simpa only [if_neg holds] using second

end SoundOn

end Session

namespace Format

open Session

variable {inside : Input σ → Prop}

theorem consistentOn_times {run : Build → Session (Input σ) ε α} (each : ConsistentOn inside run) :
    ∀ count : Nat, ConsistentOn inside fun build => times (run build) count
  | 0 => ConsistentOn.pure _
  | count + 1 => each.bind fun _ => (consistentOn_times each count).bind fun _ => ConsistentOn.pure _

theorem soundOn_times {run : Build → Session (Input σ) ε α} (each : SoundOn inside run) :
    ∀ count : Nat, SoundOn inside fun build => times (run build) count
  | 0 => SoundOn.pure _
  | count + 1 => each.bind fun _ => (soundOn_times each count).bind fun _ => SoundOn.pure _

/-- Fields that are read and then checked, one after the other: what they return is what is read
and passes. -/
theorem times_checked_eq_ok {fields : Session (Input σ) ε α} {check : α → Outcome ε β} {count : Nat} :
    ∀ {input last : Input σ} {found : List β},
    times (fields >>= fun a => Session.lift (check a)) count input = (.ok found, last) ↔
      ∃ stored, times fields count input = (.ok stored, last) ∧ stored.mapM check = .ok found := by
  induction count with
  | zero =>
    intro input last found
    constructor
    · intro done
      cases done
      exact ⟨[], rfl, rfl⟩
    · rintro ⟨stored, done, checked⟩
      cases done
      cases checked
      rfl
  | succ count ih =>
    intro input last found
    constructor
    · intro done
      obtain ⟨b, middle, first, rest⟩ := bind_eq_ok.mp done
      obtain ⟨bs, stop, later, same⟩ := bind_eq_ok.mp rest
      obtain ⟨a, after, taken, passed⟩ := bind_eq_ok.mp first
      obtain ⟨as, takes, passes⟩ := ih.mp later
      cases same
      obtain ⟨fine, rfl⟩ := lift_eq_ok.mp passed
      refine ⟨a :: as, bind_eq_ok.mpr ⟨a, after, taken, bind_eq_ok.mpr ⟨as, last, takes, rfl⟩⟩, ?_⟩
      rw [List.mapM_cons, fine, Outcome.ok_bind, passes]
      rfl
    · rintro ⟨stored, done, checked⟩
      obtain ⟨a, middle, taken, rest⟩ := bind_eq_ok.mp done
      obtain ⟨as, stop, takes, same⟩ := bind_eq_ok.mp rest
      cases same
      rw [List.mapM_cons] at checked
      obtain ⟨b, passed, checked⟩ := Outcome.bind_eq_ok.mp checked
      obtain ⟨bs, passes, same⟩ := Outcome.bind_eq_ok.mp checked
      cases same
      refine bind_eq_ok.mpr ⟨b, middle, bind_eq_ok.mpr ⟨a, middle, taken, lift_eq_ok.mpr ⟨passed, rfl⟩⟩, ?_⟩
      exact bind_eq_ok.mpr ⟨bs, last, ih.mpr ⟨as, takes, passes⟩, rfl⟩

/-- Fields that are read and then checked, one after the other: a check panics on one of the
first of them, whatever comes after. -/
theorem panics_times_checked {fields : Session (Input σ) ε α} {check : α → Outcome ε β}
    (keeps : fields.Keeps inside) (safe : ∀ input, inside input → ¬ fields.Panics input)
    (unfailing : ∀ a, (check a).Unfailing) {count : Nat} : ∀ {input : Input σ}, inside input →
    ((times (fields >>= fun a => Session.lift (check a)) count).Panics input ↔
      ∃ k ≤ count, ∃ stored last, times fields k input = (.ok stored, last) ∧
        ∃ a ∈ stored, (check a).Panics) := by
  induction count with
  | zero =>
    intro input here
    constructor
    · exact fun panics => absurd panics (not_panics_pure _ _)
    · rintro ⟨k, le, stored, last, done, a, member, -⟩
      obtain rfl : k = 0 := Nat.le_zero.mp le
      cases done
      cases member
  | succ count ih =>
    intro input here
    rw [times, panics_bind, panics_bind]
    constructor
    -- The first turn panics in its check, since its fields do not; or a later turn does.
    · rintro ((panics | ⟨a, after, taken, panics⟩) | ⟨b, middle, first, panics⟩)
      · exact absurd panics (safe input here)
      · exact ⟨1, by omega, [a], after, bind_eq_ok.mpr ⟨a, after, taken, rfl⟩, a, by simp, panics⟩
      · obtain ⟨a, after, taken, passed⟩ := bind_eq_ok.mp first
        obtain ⟨-, rfl⟩ := lift_eq_ok.mp passed
        have stays := keeps input here
        rw [taken] at stays
        obtain ⟨k, le, stored, last, done, bad, member, fails⟩ := (ih stays).mp (panics_bind_pure.mp panics)
        refine ⟨k + 1, by omega, a :: stored, last, ?_, bad, List.mem_cons_of_mem a member, fails⟩
        exact bind_eq_ok.mpr ⟨a, after, taken, bind_eq_ok.mpr ⟨stored, last, done, rfl⟩⟩
    · rintro ⟨k, le, stored, last, done, bad, member, fails⟩
      cases k with
      | zero =>
        cases done
        cases member
      | succ k =>
        obtain ⟨a, after, taken, rest⟩ := bind_eq_ok.mp done
        obtain ⟨as, stop, takes, same⟩ := bind_eq_ok.mp rest
        cases same
        have stays := keeps input here
        rw [taken] at stays
        cases passed : check a with
        | panic why => exact .inl (.inr ⟨a, after, taken, why, passed⟩)
        | error e => exact absurd passed (unfailing a e)
        | ok b =>
          right
          refine ⟨b, after, bind_eq_ok.mpr ⟨a, after, taken, lift_eq_ok.mpr ⟨passed, rfl⟩⟩, ?_⟩
          refine panics_bind_pure.mpr ((ih stays).mpr ⟨k, by omega, as, last, takes, bad, ?_, fails⟩)
          rcases List.mem_cons.mp member with rfl | member
          · rw [passed] at fails
            exact absurd fails (Outcome.not_panics_ok b)
          · exact member

end Format

end Foundation
