import Oxcdf.Foundation.Format

/-! Readers of a window on their input. A reader that takes symbols one after the other does on
a window what it does on the whole, unless it runs out of the window. -/

set_option autoImplicit false

namespace Foundation.Format

open Foundation.Buffer

variable {α β γ ε : Type}

/-- What a reader does on the first symbols of an input: it runs out of them, or it does what it
does on the whole and stands at the same position. -/
def Windowed (short : Nat → Nat → Nat → ε) (read : Session (Input α) ε β) : Prop :=
  ∀ (buf : List α) (pos window : Nat), window ≤ buf.length →
    (∃ offset len available after, read ⟨buf.take window, pos⟩ = (.error (short offset len available), after)) ∨
    ∃ outcome last, read ⟨buf.take window, pos⟩ = (outcome, ⟨buf.take window, last⟩) ∧
      read ⟨buf, pos⟩ = (outcome, ⟨buf, last⟩)

namespace Windowed

variable {short : Nat → Nat → Nat → ε}

theorem lift (outcome : Outcome ε β) : Windowed short (Session.lift outcome : Session (Input α) ε β) :=
  fun _ pos _ _ => .inr ⟨outcome, pos, rfl, rfl⟩

theorem pure (value : β) : Windowed short (pure value : Session (Input α) ε β) :=
  fun _ pos _ _ => .inr ⟨.ok value, pos, rfl, rfl⟩

theorem throw (e : ε) : Windowed short (Session.throw e : Session (Input α) ε β) :=
  fun _ pos _ _ => .inr ⟨.error e, pos, rfl, rfl⟩

theorem take (n : Nat) : Windowed short (Format.take short n : Session (Input α) ε (List α)) := by
  intro buf pos window within
  have long : (buf.take window).length = window := List.length_take_of_le within
  rcases Nat.lt_or_ge window (pos + n) with past | room
  · left
    refine ⟨pos, n, window, ⟨buf.take window, pos⟩, ?_⟩
    simp only [Format.take, long, if_pos past]
  · right
    have whole : ¬ buf.length < pos + n := Nat.not_lt.mpr (Nat.le_trans room within)
    have same : slice (buf.take window) pos n = slice buf pos n := by
      rw [slice, slice, List.drop_take, List.take_take, Nat.min_eq_left (by omega)]
    refine ⟨.ok (slice buf pos n), pos + n, ?_, ?_⟩
    · simp only [Format.take, long, if_neg (Nat.not_lt.mpr room), same]
    · simp only [Format.take, if_neg whole]

theorem bind {read : Session (Input α) ε β} {next : β → Session (Input α) ε γ} (first : Windowed short read)
    (rest : ∀ value, Windowed short (next value)) : Windowed short (read >>= next) := by
  intro buf pos window within
  rcases first buf pos window within with ⟨offset, len, available, after, ran⟩ | ⟨outcome, last, here, whole⟩
  · exact .inl ⟨offset, len, available, after, Session.bind_error ran⟩
  · cases outcome with
    | ok value =>
      rw [Session.bind_ok here, Session.bind_ok whole]
      exact rest value buf last window within
    | error e => exact .inr ⟨.error e, last, Session.bind_error here, Session.bind_error whole⟩
    | panic why => exact .inr ⟨.panic why, last, Session.bind_panic here, Session.bind_panic whole⟩

theorem ite {condition : Prop} [Decidable condition] {yes no : Session (Input α) ε β}
    (first : Windowed short yes)
    (second : Windowed short no) : Windowed short (if condition then yes else no) := by
  split
  · exact first
  · exact second

theorem times {read : Session (Input α) ε β} (each : Windowed short read) :
    ∀ count : Nat, Windowed short (Format.times read count)
  | 0 => pure []
  | count + 1 => each.bind fun _ => (times each count).bind fun _ => pure _

end Windowed

end Foundation.Format
