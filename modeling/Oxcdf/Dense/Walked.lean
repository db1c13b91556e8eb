import Oxcdf.Dense
import Oxcdf.Foundation.Foremost
import Oxcdf.Message.Local

/-! What the walk of a heap finds: the records that stand foremost in its blocks. -/

set_option autoImplicit false

namespace Oxcdf.FractalHeap

open Foundation Foundation.Buffer Foundation.Format Foundation.Extents

variable {α : Type} {parse : Parse α} {what : String} {wanted place : Nat} {out last : List α}

/-- Unused space is zeroed, as far as the walk looks: it looks at the first byte. -/
def Unused (bytes : Bytes) : Prop := bytes.headD 0 = 0

/-- The records that the walk of some blocks meets, if it may look for so many. -/
abbrev Met (parse : Parse α) (wanted : Nat) (blocks : HeapBlocks) (found : List (Record α)) : Prop :=
  Foremost (Reads parse) Unused wanted blocks found

section Block

/-- The first byte left, if any is left. -/
theorem peek_cons (before rest : Bytes) (first : UInt8) :
    (Cursor.peek 1 ⟨before ++ first :: rest, before.length⟩).1 = .ok [first] := by
  have taken := Cursor.reads_take [first] before rest
  rw [List.append_assoc] at taken
  exact congrArg Prod.fst taken

theorem remaining_eq (before rest : Bytes) :
    Cursor.remaining ⟨before ++ rest, before.length⟩ = rest.length := by
  unfold Cursor.remaining
  rw [List.length_append, Nat.add_sub_cancel_left]

theorem walkBlock_unused {before rest : Bytes} (unused : Unused rest) :
    walkBlock what parse wanted out ⟨before ++ rest, before.length⟩ = .ok out := by
  cases wanted with
  | zero => rfl
  | succ wanted =>
    rw [walkBlock, remaining_eq]
    cases rest with
    | nil => rfl
    | cons first rest =>
      have zero : first = 0 := unused
      rw [List.length_cons, if_neg (Nat.succ_ne_zero _), peek_cons, Outcome.ok_bind,
        List.headD_cons, if_pos zero]

/-- The walk looks for a record where a byte is left that is not zero. -/
theorem walkBlock_used {before rest : Bytes} (used : ¬ Unused rest) :
    walkBlock what parse (wanted + 1) out ⟨before ++ rest, before.length⟩ =
      match parse ⟨before ++ rest, before.length⟩ with
      | (.ok value, next) =>
        if next.pos = before.length then
          .error (.malformed s!"{what} record parser consumed no bytes; refusing to loop")
        else walkBlock what parse wanted (out ++ [value]) next
      | (.error e, _) => .error (failedRecord what (out.length + 1) before.length e)
      | (.panic why, _) => .panic why := by
  cases rest with
  | nil => exact absurd rfl used
  | cons first rest =>
    have positive : first ≠ 0 := used
    rw [walkBlock, remaining_eq, List.length_cons, if_neg (Nat.succ_ne_zero _), peek_cons, Outcome.ok_bind,
      List.headD_cons]
    exact if_neg positive

theorem not_unused_of_reads (delimits : SelfDelimiting parse) {code : Bytes} {value : α}
    (reads : Reads parse code value) (rest : Bytes) : ¬ Unused (code ++ rest) := by
  obtain ⟨first, tail, rfl, positive⟩ := delimits.marked code value reads
  exact positive

theorem ne_nil_of_reads (delimits : SelfDelimiting parse) (code : Bytes) (value : α)
    (reads : Reads parse code value) : code ≠ [] := by
  obtain ⟨first, tail, rfl, -⟩ := delimits.marked code value reads
  exact List.cons_ne_nil first tail

/-- A record that stands at the cursor is the next one found. -/
theorem walkBlock_record (delimits : SelfDelimiting parse) {before code rest : Bytes} {value : α}
    (reads : Reads parse code value) :
    walkBlock what parse (wanted + 1) out ⟨before ++ (code ++ rest), before.length⟩ =
      walkBlock what parse wanted (out ++ [value]) ⟨before ++ code ++ rest, (before ++ code).length⟩ := by
  have positive := List.length_pos_iff.mpr (ne_nil_of_reads delimits code value reads)
  have found := reads before rest
  rw [List.append_assoc] at found
  rw [walkBlock_used (not_unused_of_reads delimits reads rest), found]
  dsimp only
  rw [if_neg (by omega), List.append_assoc, List.length_append]

/-- The walk of a block ends where the space is unused, or goes on behind a record. -/
theorem walkBlock_succ_eq_ok (delimits : SelfDelimiting parse) {before rest : Bytes}
    (done : walkBlock what parse (wanted + 1) out ⟨before ++ rest, before.length⟩ = .ok last) :
    (Unused rest ∧ last = out) ∨ ∃ code value tail, rest = code ++ tail ∧ Reads parse code value ∧
      walkBlock what parse wanted (out ++ [value]) ⟨before ++ code ++ tail, (before ++ code).length⟩ =
        .ok last := by
  by_cases unused : Unused rest
  · rw [walkBlock_unused unused] at done
    exact .inl ⟨unused, (Outcome.ok.inj done).symm⟩
  · have parsed := done
    rw [walkBlock_used unused] at parsed
    rcases found : parse ⟨before ++ rest, before.length⟩ with ⟨value | e | why, next⟩
    · obtain ⟨code, tail, rfl, reads⟩ := delimits.isLocal before rest value next found
      rw [walkBlock_record delimits reads] at done
      exact .inr ⟨code, value, tail, rfl, reads, done⟩
    · rw [found] at parsed
      cases parsed
    · rw [found] at parsed
      cases parsed

/-- What the walk of a block adds are records that it meets there, and those that it meets in later
blocks come after them. -/
theorem met_of_walkBlock (delimits : SelfDelimiting parse) {before rest : Bytes}
    (done : walkBlock what parse wanted out ⟨before ++ rest, before.length⟩ = .ok last) (place : Nat) :
    ∃ here : List (Record α), last = out ++ values here ∧ here.length ≤ wanted ∧
      ∀ blocks later, Met parse (wanted - here.length) blocks later →
        Met parse wanted ((place, rest) :: blocks) (here ++ later) := by
  induction wanted generalizing before rest out place with
  | zero =>
    refine ⟨[], ?_, Nat.le_refl 0, fun blocks later met => ?_⟩
    · rw [values, List.map_nil, List.append_nil]
      exact (Outcome.ok.inj done).symm
    · obtain rfl : later = [] := met.eq_nil_of_zero
      exact .enough _
  | succ wanted ih =>
    rcases walkBlock_succ_eq_ok delimits done with ⟨unused, rfl⟩ | ⟨code, value, tail, rfl, reads, rest⟩
    · refine ⟨[], ?_, Nat.zero_le _, fun blocks later met => .leave unused met⟩
      rw [values, List.map_nil, List.append_nil]
    · obtain ⟨here, rfl, few, goes⟩ := ih rest (place + code.length)
      refine ⟨⟨place, value⟩ :: here, ?_, Nat.succ_le_succ few, fun blocks later met => ?_⟩
      · rw [values, values, List.map_cons, List.append_assoc, List.singleton_append]
      · rw [List.length_cons, Nat.add_sub_add_right] at met
        exact .record reads (goes blocks later met)

/-- The records that are met begin with those that the walk of the first block adds. -/
theorem walkBlock_of_met (delimits : SelfDelimiting parse) {before rest : Bytes} {blocks : HeapBlocks}
    {found : List (Record α)} (met : Met parse wanted ((place, rest) :: blocks) found) :
    ∃ here later, found = here ++ later ∧ Met parse (wanted - here.length) blocks later ∧
      walkBlock what parse wanted out ⟨before ++ rest, before.length⟩ = .ok (out ++ values here) := by
  induction wanted generalizing before rest out place found with
  | zero =>
    obtain rfl := met.eq_nil_of_zero
    refine ⟨[], [], rfl, .enough _, ?_⟩
    rw [values, List.map_nil, List.append_nil]
    rfl
  | succ wanted ih =>
    cases met with
    | leave unused met =>
      refine ⟨[], found, rfl, met, ?_⟩
      rw [values, List.map_nil, List.append_nil]
      exact walkBlock_unused unused
    | @record _ _ code tail value _ found reads met =>
      obtain ⟨here, later, rfl, rest, done⟩ := @ih _ (out ++ [value]) (before ++ code) tail _ met
      refine ⟨⟨place, value⟩ :: here, later, rfl, ?_, ?_⟩
      · rwa [List.length_cons, Nat.add_sub_add_right]
      · rw [walkBlock_record delimits reads, done, values, values, List.map_cons, List.append_assoc,
          List.singleton_append]

end Block

section Blocks

variable {count : Nat}

theorem values_length (found : List (Record α)) : (values found).length = found.length := List.length_map _

theorem values_append (first second : List (Record α)) :
    values (first ++ second) = values first ++ values second :=
  List.map_append

theorem met_of_walkBlocks (delimits : SelfDelimiting parse) {blocks : HeapBlocks}
    (done : walkBlocks what parse count (blocks.map Prod.snd) out = .ok last) (few : out.length ≤ count) :
    ∃ found, Met parse (count - out.length) blocks found ∧ last = out ++ values found := by
  induction blocks generalizing out with
  | nil =>
    refine ⟨[], .done _, ?_⟩
    rw [values, List.map_nil, List.append_nil]
    exact (Outcome.ok.inj done).symm
  | cons block blocks ih =>
    obtain ⟨place, content⟩ := block
    obtain ⟨middle, first, rest⟩ := Outcome.bind_eq_ok.mp done
    obtain ⟨here, rfl, small, goes⟩ := @met_of_walkBlock _ _ _ _ _ _ delimits [] content first place
    obtain ⟨later, met, rfl⟩ := ih rest (by rw [List.length_append, values_length]; omega)
    refine ⟨here ++ later, goes blocks later ?_, ?_⟩
    · rwa [List.length_append, values_length, ← Nat.sub_sub] at met
    · rw [values_append, List.append_assoc]

theorem walkBlocks_of_met (delimits : SelfDelimiting parse) {blocks : HeapBlocks} {found : List (Record α)}
    (met : Met parse (count - out.length) blocks found) :
    walkBlocks what parse count (blocks.map Prod.snd) out = .ok (out ++ values found) := by
  induction blocks generalizing out found with
  | nil =>
    obtain rfl := met.eq_nil_of_nil
    exact congrArg Outcome.ok (List.append_nil out).symm
  | cons block blocks ih =>
    obtain ⟨place, content⟩ := block
    obtain ⟨here, later, rfl, rest, first⟩ :=
      @walkBlock_of_met α parse what _ place out delimits [] content _ _ met
    rw [List.map_cons, walkBlocks]
    rw [Nat.sub_sub, ← values_length, ← List.length_append] at rest
    change walkBlock what parse (count - out.length) out ⟨[] ++ content, 0⟩ >>= _ = _
    rw [show walkBlock what parse (count - out.length) out ⟨[] ++ content, 0⟩ = _ from first,
      Outcome.ok_bind, ih rest, values_append, List.append_assoc]

/-- A walk that comes to its end has found the records that stand foremost in the blocks. -/
theorem walkLenient_eq_ok (delimits : SelfDelimiting parse) (heap : FractalHeap) {complete : Bool} :
    heap.walkLenient what parse = .ok (last, complete) ↔
      ∃ found, Met parse heap.managedObjectCount heap.blocks found ∧ last = values found ∧
        complete = decide (found.length = heap.managedObjectCount) := by
  constructor
  · intro done
    obtain ⟨walked, first, rest⟩ := Outcome.bind_eq_ok.mp done
    obtain ⟨found, met, same⟩ := met_of_walkBlocks delimits first (Nat.zero_le _)
    obtain ⟨rfl, rfl⟩ := Prod.mk.inj (Outcome.ok.inj rest)
    rw [List.nil_append] at same
    refine ⟨found, met, same, ?_⟩
    rw [same, values_length]
  · rintro ⟨found, met, rfl, rfl⟩
    have done := @walkBlocks_of_met α parse what [] heap.managedObjectCount delimits heap.blocks found met
    rw [List.nil_append] at done
    unfold walkLenient
    rw [done, Outcome.ok_bind, values_length]

/-- What is done with what a walk finds is done with records that stand foremost in the blocks. -/
theorem walkLenient_bind_eq_ok {β : Type} (delimits : SelfDelimiting parse) (heap : FractalHeap)
    {next : List α × Bool → Code β} {b : β} :
    (heap.walkLenient what parse >>= next) = .ok b ↔
      ∃ found, Met parse heap.managedObjectCount heap.blocks found ∧
        next (values found, decide (found.length = heap.managedObjectCount)) = .ok b := by
  rw [Outcome.bind_eq_ok]
  constructor
  · rintro ⟨⟨last, complete⟩, done, later⟩
    obtain ⟨found, met, rfl, rfl⟩ := (walkLenient_eq_ok delimits heap).mp done
    exact ⟨found, met, later⟩
  · rintro ⟨found, met, later⟩
    exact ⟨_, (walkLenient_eq_ok delimits heap).mpr ⟨found, met, rfl, rfl⟩, later⟩

end Blocks

end Oxcdf.FractalHeap
