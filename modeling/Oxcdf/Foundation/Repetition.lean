import Oxcdf.Foundation.Buffer

/-! Buffers that repeat a pattern.

A buffer repeats a pattern up to a position when each entry before it is the
entry of the pattern at the remainder. What repeats can be copied over what
follows it, and the pattern goes on, where the copy starts behind whole patterns.
-/

set_option autoImplicit false

namespace Foundation.Buffer

variable {α : Type}

/-- The entries before a position are those of a pattern, over and over. -/
def Repeats (pattern buffer : List α) (done : Nat) : Prop :=
  ∀ i < done, buffer[i]? = pattern[i % pattern.length]?

variable {pattern buffer : List α} {done : Nat}

theorem Repeats.of_start {head : Nat} (short : head ≤ pattern.length) (fits : head ≤ buffer.length) :
    Repeats pattern (splice buffer 0 (pattern.take head)) head := by
  intro i before
  have long : (pattern.take head).length = head := List.length_take_of_le short
  have room : 0 + (pattern.take head).length ≤ buffer.length := by omega
  rw [getElem?_splice buffer room, long, if_pos (by omega), Nat.sub_zero, List.getElem?_take, if_pos before,
    Nat.mod_eq_of_lt (by omega)]

/-- What was copied stands a whole number of patterns earlier. -/
theorem Repeats.copy (repeats : Repeats pattern buffer done) (whole : pattern.length ∣ done) {take : Nat}
    (earlier : take ≤ done) (fits : done + take ≤ buffer.length) :
    Repeats pattern (splice buffer done (slice buffer 0 take)) (done + take) := by
  intro i before
  have copied : (slice buffer 0 take).length = take := slice_length buffer (by omega)
  have room : done + (slice buffer 0 take).length ≤ buffer.length := by omega
  rw [getElem?_splice buffer room, copied]
  split
  · next window =>
    have moved : (i - done) % pattern.length = i % pattern.length := by
      obtain ⟨n, rfl⟩ := whole
      have apart : i = pattern.length * n + (i - pattern.length * n) := by omega
      rw [apart, Nat.add_sub_cancel_left, Nat.mul_add_mod]
    rw [getElem?_slice, if_pos (by omega), Nat.zero_add, repeats _ (by omega), moved]
  · exact repeats i (by omega)

theorem repeats_replicate (entry : α) {width : Nat} (positive : 0 < width) (length : Nat) :
    Repeats (List.replicate width entry) (List.replicate length entry) length := by
  intro i before
  rw [List.length_replicate, List.getElem?_replicate, List.getElem?_replicate, if_pos before,
    if_pos (Nat.mod_lt i positive)]

end Foundation.Buffer
