import Oxcdf.Foundation.Format

/-! Readers that look at nothing but the code they read. What stands before the code or after
it does not matter to them, so that a piece of code means the same wherever it is found. -/

set_option autoImplicit false

namespace Foundation.Format

open Foundation.Buffer

variable {α β γ ε : Type}

/-- Whatever the reader yields, it yields for a code at its position, and yields it for that code
anywhere. -/
def Local (read : Session (Input α) ε β) : Prop :=
  ∀ (before rest : List α) (value : β) (after : Input α),
    read ⟨before ++ rest, before.length⟩ = (.ok value, after) →
      ∃ code tail, rest = code ++ tail ∧ Reads read code value

namespace Local

theorem lift (outcome : Outcome ε β) : Local (Session.lift outcome : Session (Input α) ε β) := by
  intro before rest value after found
  obtain ⟨rfl, -⟩ := Session.lift_eq_ok.mp found
  exact ⟨[], rest, rfl, Reads.lift value⟩

theorem pure (value : β) : Local (pure value : Session (Input α) ε β) := lift (.ok value)

theorem throw (e : ε) : Local (Session.throw e : Session (Input α) ε β) := lift (.error e)

theorem take (short : Nat → Nat → Nat → ε) (n : Nat) :
    Local (Format.take short n : Session (Input α) ε (List α)) := by
  intro before rest value after found
  by_cases past : before.length + n > (before ++ rest).length
  · rw [Format.take, if_pos past] at found
    cases found
  · have room : n ≤ rest.length := by
      rw [List.length_append] at past
      omega
    have long : (rest.take n).length = n := List.length_take_of_le room
    have read := @Reads.take α ε short (rest.take n)
    rw [long] at read
    -- The reader yields what it would of the code alone.
    have here := read before (rest.drop n)
    rw [List.append_assoc, List.take_append_drop, found] at here
    obtain rfl : value = rest.take n := Outcome.ok.inj (Prod.mk.inj here).1
    exact ⟨rest.take n, rest.drop n, (List.take_append_drop n rest).symm, read⟩

theorem bind {read : Session (Input α) ε β} {next : β → Session (Input α) ε γ} (first : Local read)
    (later : ∀ value, Local (next value)) : Local (read >>= next) := by
  intro before rest result last found
  obtain ⟨value, middle, here, there⟩ := Session.bind_eq_ok.mp found
  obtain ⟨code, tail, rfl, reads⟩ := first before rest value middle here
  have moved := reads before tail
  rw [List.append_assoc, here, ← List.append_assoc, ← List.length_append] at moved
  rw [(Prod.mk.inj moved).2] at there
  obtain ⟨more, tail, rfl, continues⟩ := later value (before ++ code) tail result last there
  exact ⟨code ++ more, tail, (List.append_assoc ..).symm, reads.bind continues⟩

theorem ite {condition : Prop} [Decidable condition] {yes no : Session (Input α) ε β} (first : Local yes)
    (second : Local no) : Local (if condition then yes else no) := by
  split
  · exact first
  · exact second

theorem times {read : Session (Input α) ε β} (each : Local read) :
    ∀ count : Nat, Local (Format.times read count)
  | 0 => pure []
  | count + 1 => each.bind fun _ => (times each count).bind fun _ => pure _

theorem reads_whole {read : Session (Input α) ε β} (isLocal : Local read) {code : List α} {value : β}
    (found : read ⟨code, 0⟩ = (.ok value, ⟨code, code.length⟩)) : Reads read code value := by
  obtain ⟨front, tail, rfl, reads⟩ := isLocal [] code value _ found
  have moved := reads [] tail
  rw [List.nil_append, List.length_nil, found, Nat.zero_add] at moved
  have same : (front ++ tail).length = front.length := congrArg Input.pos (Prod.mk.inj moved).2
  obtain rfl : tail = [] := by
    rw [List.length_append] at same
    exact List.length_eq_zero_iff.mp (by omega)
  rwa [List.append_nil]

end Local

/-- Two codes at one place are the same code, and read as the same value. -/
theorem Reads.unique {read : Session (Input α) ε β} {code other : List α} {value second : β}
    (reads : Reads read code value) (also : Reads read other second) {rest tail : List α}
    (same : code ++ rest = other ++ tail) : code = other ∧ value = second := by
  have here := reads [] rest
  have there := also [] tail
  rw [List.nil_append, List.length_nil, Nat.zero_add] at here there
  rw [same, there] at here
  obtain ⟨values, inputs⟩ := Prod.mk.inj here
  have long : other.length = code.length := congrArg Input.pos inputs
  exact ⟨(List.append_inj same long.symm).1, (Outcome.ok.inj values).symm⟩

end Foundation.Format
