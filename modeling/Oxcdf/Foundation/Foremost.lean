import Mathlib.Data.List.Nodup
import Oxcdf.Foundation.Extents

/-! Records that stand one after the other at the front of the pieces of a linear space.

Whoever looks for records from the front of a piece finds them as long as they stand back to
back, and cannot tell a record that is meant from one that was left behind. What is found is
compared with what is meant by the places of both.
-/

set_option autoImplicit false

namespace Foundation.Extents

variable {α β : Type}

structure Record (β : Type) where
  place : Nat
  value : β

/-- The first so many records that stand at the front of the pieces, each piece being left where
free space begins. -/
inductive Foremost (isRecord : List α → β → Prop) (free : List α → Prop) :
    Nat → List (Nat × List α) → List (Record β) → Prop
  | enough (pieces : List (Nat × List α)) : Foremost isRecord free 0 pieces []
  | done (wanted : Nat) : Foremost isRecord free wanted [] []
  | leave {wanted place : Nat} {content : List α} {pieces : List (Nat × List α)}
      {found : List (Record β)} (ends : free content) (later : Foremost isRecord free wanted pieces found) :
      Foremost isRecord free wanted ((place, content) :: pieces) found
  | record {wanted place : Nat} {code rest : List α} {value : β} {pieces : List (Nat × List α)}
      {found : List (Record β)} (here : isRecord code value)
      (later : Foremost isRecord free wanted ((place + code.length, rest) :: pieces) found) :
      Foremost isRecord free (wanted + 1) ((place, code ++ rest) :: pieces) (⟨place, value⟩ :: found)

/-- Some symbols stand at a place of the space. -/
def Holds (pieces : List (Nat × List α)) (place : Nat) (code : List α) : Prop :=
  ∃ piece ∈ pieces, ∃ before after, piece.2 = before ++ code ++ after ∧ place = piece.1 + before.length

/-- What two codes at one place have in common. -/
theorem Laid.extend {base stop place : Nat} {pieces : List (Nat × List α)} (laid : Laid base stop pieces)
    {code other : List α} (some_ : code ≠ []) (other_ : other ≠ []) (holds : Holds pieces place code)
    (also : Holds pieces place other) : ∃ rest tail, code ++ rest = other ++ tail := by
  obtain ⟨piece, member, before, after, content, rfl⟩ := holds
  obtain ⟨second, there, front, tail, same, places⟩ := also
  have inside := List.length_pos_iff.mpr some_
  have within := List.length_pos_iff.mpr other_
  have long := congrArg List.length content
  have short := congrArg List.length same
  simp only [List.length_append] at long short
  have here := laid.find_eq member (Nat.le_add_right piece.1 before.length) (by omega)
  rw [places] at here
  have found := laid.find_eq there (Nat.le_add_right second.1 front.length) (by omega)
  -- The place lies in one piece only.
  obtain rfl : second = piece := Option.some.inj (found.symm.trans here)
  rw [content, List.append_assoc, List.append_assoc] at same
  exact ⟨after, tail, (List.append_inj same (Nat.add_left_cancel places)).2⟩

namespace Foremost

variable {isRecord : List α → β → Prop} {free : List α → Prop} {wanted : Nat}
  {pieces : List (Nat × List α)} {found : List (Record β)}

theorem length_le (foremost : Foremost isRecord free wanted pieces found) : found.length ≤ wanted := by
  induction foremost with
  | enough => exact Nat.le_refl 0
  | done => exact Nat.zero_le _
  | leave ends later ih => exact ih
  | record here later ih => exact Nat.succ_le_succ ih

theorem eq_nil_of_zero (foremost : Foremost isRecord free 0 pieces found) : found = [] :=
  List.length_eq_zero_iff.mp (Nat.le_zero.mp foremost.length_le)

theorem eq_nil_of_nil (foremost : Foremost isRecord free wanted [] found) : found = [] := by
  cases foremost <;> rfl

/-- Each record stands where it is found. -/
theorem holds (foremost : Foremost isRecord free wanted pieces found) :
    ∀ record ∈ found, ∃ code, isRecord code record.value ∧ Holds pieces record.place code := by
  induction foremost with
  | enough => nofun
  | done => nofun
  | leave ends later ih =>
    intro record member
    obtain ⟨code, reads, piece, among, rest⟩ := ih record member
    exact ⟨code, reads, piece, List.mem_cons_of_mem _ among, rest⟩
  | @record wanted place code rest value pieces found here later ih =>
    intro record member
    rcases List.mem_cons.mp member with rfl | member
    · exact ⟨code, here, _, List.mem_cons_self, [], rest, rfl, rfl⟩
    · obtain ⟨other, reads, piece, among, before, after, content, place_⟩ := ih record member
      rcases List.mem_cons.mp among with rfl | among
      · -- It stands behind the first record of the piece.
        refine ⟨other, reads, _, List.mem_cons_self, code ++ before, after, ?_, ?_⟩
        · change code ++ rest = _
          rw [show rest = before ++ other ++ after from content]
          simp only [List.append_assoc]
        · rw [place_, List.length_append, Nat.add_assoc]
      · exact ⟨other, reads, piece, List.mem_cons_of_mem _ among, before, after, content, place_⟩

theorem from_le (foremost : Foremost isRecord free wanted pieces found) {base stop : Nat}
    (laid : Laid base stop pieces) : ∀ record ∈ found, base ≤ record.place := by
  intro record member
  obtain ⟨code, -, piece, among, before, after, -, place⟩ := foremost.holds record member
  rw [place]
  exact (laid.bounds piece among).1.trans (Nat.le_add_right _ _)

/-- Records are found in ascending order. -/
theorem pairwise (foremost : Foremost isRecord free wanted pieces found)
    (some_ : ∀ code value, isRecord code value → code ≠ []) : ∀ {base stop : Nat}, Laid base stop pieces →
      found.Pairwise fun first second => first.place < second.place := by
  induction foremost with
  | enough => exact fun _ => List.Pairwise.nil
  | done => exact fun _ => List.Pairwise.nil
  | leave ends later ih => exact fun laid => ih laid.2
  | @record wanted place code rest value pieces found here later ih =>
    intro base stop laid
    have behind : Laid (place + code.length) stop ((place + code.length, rest) :: pieces) := by
      refine ⟨Nat.le_refl _, ?_⟩
      have after := laid.2
      rwa [List.length_append, ← Nat.add_assoc] at after
    apply List.Pairwise.cons
    · intro record member
      have beyond := later.from_le behind record member
      have positive := List.length_pos_iff.mpr (some_ code value here)
      dsimp only
      omega
    · exact ih behind

/-- What stands foremost is determined, where a code is the only one at its place and no code starts
like free space. -/
theorem unique {other : List (Record β)}
    (used : ∀ code value rest, isRecord code value → ¬ free (code ++ rest))
    (single : ∀ {code value second others rest tail}, isRecord code value → isRecord second others →
      code ++ rest = second ++ tail → code = second ∧ value = others)
    (foremost : Foremost isRecord free wanted pieces found)
    (also : Foremost isRecord free wanted pieces other) : found = other := by
  induction foremost generalizing other with
  | enough => exact also.eq_nil_of_zero.symm
  | done => exact also.eq_nil_of_nil.symm
  | leave ends later ih =>
    cases also with
    | enough => exact later.eq_nil_of_zero
    | leave _ more => exact ih more
    | record here more => exact absurd ends (used _ _ _ here)
  | @record wanted place code rest value pieces found here later ih =>
    generalize content : code ++ rest = whole at also
    cases also with
    | leave ends more => exact absurd (content ▸ ends) (used code value rest here)
    | @record _ _ second tail others _ _ there more =>
      obtain ⟨rfl, rfl⟩ := single here there content
      obtain rfl := List.append_cancel_left content
      rw [ih more]

end Foremost

section Strays

variable {first second : List (Record β)}

def places (records : List (Record β)) : List Nat := records.map Record.place

def values (records : List (Record β)) : List β := records.map Record.value

/-- The records at places where there are none of the others. -/
def apartFrom (others records : List (Record β)) : List (Record β) :=
  records.filter fun record => record.place ∉ places others

/-- The records at places of the others. -/
def among (others records : List (Record β)) : List (Record β) :=
  records.filter fun record => record.place ∈ places others

theorem among_append_apartFrom (others records : List (Record β)) :
    (among others records ++ apartFrom others records).Perm records := by
  have parts := List.filter_append_perm (fun record : Record β => decide (record.place ∈ places others)) records
  have negated : (fun record : Record β => !decide (record.place ∈ places others)) =
      fun record => decide (record.place ∉ places others) := by
    funext record
    exact (decide_not ..).symm
  rwa [negated] at parts

theorem mem_places {records : List (Record β)} {place : Nat} :
    place ∈ places records ↔ ∃ record ∈ records, record.place = place := List.mem_map

/-- Where two lists have records at the same places, they have the same records. -/
theorem among_perm (distinct : (places first).Nodup) (also : (places second).Nodup)
    (agree : ∀ a ∈ first, ∀ b ∈ second, a.place = b.place → a = b) :
    (among second first).Perm (among first second) := by
  have one : first.Nodup := distinct.of_map
  have two : second.Nodup := also.of_map
  rw [among, among, List.perm_ext_iff_of_nodup (one.filter _) (two.filter _)]
  intro record
  simp only [List.mem_filter, decide_eq_true_eq, mem_places]
  constructor
  · rintro ⟨here, other, there, same⟩
    obtain rfl := agree record here other there same.symm
    exact ⟨there, record, here, rfl⟩
  · rintro ⟨there, other, here, same⟩
    obtain rfl := agree other here record there same
    exact ⟨here, other, there, rfl⟩

/-- Where all of as many records stand at places of the others, so do all the others. -/
theorem apartFrom_eq_nil (distinct : (places first).Nodup) (also : (places second).Nodup)
    (agree : ∀ a ∈ first, ∀ b ∈ second, a.place = b.place → a = b) (as_many : first.length = second.length)
    (none : apartFrom second first = []) : apartFrom first second = [] := by
  have one := (among_append_apartFrom second first).length_eq
  have two := (among_append_apartFrom first second).length_eq
  have both := (among_perm distinct also agree).length_eq
  rw [none, List.append_nil] at one
  rw [List.length_append] at two
  exact List.length_eq_zero_iff.mp (by omega)

/-- Two lists of records say the same exactly if the records that only one of them has do. -/
theorem values_perm_iff (distinct : (places first).Nodup) (also : (places second).Nodup)
    (agree : ∀ a ∈ first, ∀ b ∈ second, a.place = b.place → a = b) :
    (values first).Perm (values second) ↔
      (values (apartFrom second first)).Perm (values (apartFrom first second)) := by
  have one := (among_append_apartFrom second first).map Record.value
  have two := (among_append_apartFrom first second).map Record.value
  have both := (among_perm distinct also agree).map Record.value
  rw [List.map_append] at one two
  constructor
  · intro same
    apply (List.perm_append_left_iff (values (among second first))).mp
    exact (one.trans same).trans (two.symm.trans (both.symm.append_right _))
  · intro same
    have rest := (List.perm_append_left_iff (values (among second first))).mpr same
    exact one.symm.trans (rest.trans ((both.append_right _).trans two))

end Strays

end Foundation.Extents
