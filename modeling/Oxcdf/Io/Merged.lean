import Oxcdf.Io
import Oxcdf.Source

/-! Ranges that are merged into requests, fetched and cut apart again. -/

set_option autoImplicit false

namespace Oxcdf.Io

open Foundation Foundation.Buffer

variable {build : Build} {config : IoConfig} {file : FileImage} {ranges : List (Nat × Nat)}

section Planning

/-- The part of a request that stands for one of the ranges. -/
def Placed (ranges : List (Nat × Nat)) (request : Request) (part : Part) : Prop :=
  ∃ range, ranges[part.index]? = some range ∧ part.len = range.2 ∧
    part.start + part.len ≤ request.len ∧ (0 < range.2 → range.1 = request.offset + part.start)

/-- A request and the ranges it serves: each has its place in it, it begins where one of
them begins and ends where one of them ends, and only a single range may exceed the
limit. -/
structure Serves (ranges : List (Nat × Nat)) (config : IoConfig) (request : Request) : Prop where
  placed : ∀ part ∈ request.parts, Placed ranges request part
  begins : ∃ part ∈ request.parts, ∃ range, ranges[part.index]? = some range ∧ range.1 = request.offset
  ends : ∃ part ∈ request.parts, ∃ range, ranges[part.index]? = some range ∧
    range.1 + range.2 = request.offset + request.len
  limited : 2 ≤ (request.parts.filter fun part => 0 < part.len).length →
    request.len ≤ config.maxRequestSize

/-- Every range lies in the file. -/
def AllHeld (file : FileImage) (ranges : List (Nat × Nat)) : Prop :=
  ∀ range ∈ ranges, file.Holds range.1 range.2

theorem Serves.held (held : AllHeld file ranges) {request : Request}
    (serves : Serves ranges config request) : file.Holds request.offset request.len := by
  obtain ⟨part, -, range, here, stop⟩ := serves.ends
  have inside := held range (List.mem_of_getElem? here)
  unfold FileImage.Holds at inside ⊢
  omega

/-- The indices that the parts of some requests name. -/
def named (requests : List Request) : List Nat := (requests.flatMap Request.parts).map Part.index

theorem named_cons (request : Request) (requests : List Request) :
    named (request :: requests) = request.parts.map Part.index ++ named requests := by
  simp [named]

theorem serves_single {index : Nat} {range : Nat × Nat} (here : ranges[index]? = some range) :
    Serves ranges config ⟨range.1, range.2, [⟨index, 0, range.2⟩]⟩ := by
  constructor
  case placed =>
    intro part member
    obtain rfl := List.mem_singleton.mp member
    exact ⟨range, here, rfl, (Nat.zero_add _).le, fun _ => rfl⟩
  case begins => exact ⟨_, List.mem_singleton.mpr rfl, range, here, rfl⟩
  case ends => exact ⟨_, List.mem_singleton.mpr rfl, range, here, rfl⟩
  case limited =>
    intro several
    have few := List.length_filter_le (fun part : Part => decide (0 < part.len)) [⟨index, 0, range.2⟩]
    exact absurd (several.trans few) (by simp)

theorem Serves.join_empty {last : Request} (serves : Serves ranges config last) {index : Nat}
    {range : Nat × Nat} (here : ranges[index]? = some range) (empty : range.2 = 0) :
    Serves ranges config { last with parts := last.parts ++ [⟨index, 0, 0⟩] } := by
  constructor
  case placed =>
    intro part member
    rcases List.mem_append.mp member with old | new
    · exact serves.placed part old
    · obtain rfl := List.mem_singleton.mp new
      refine ⟨range, here, empty.symm, Nat.zero_le _, fun positive => ?_⟩
      omega
  case begins =>
    obtain ⟨part, member, found⟩ := serves.begins
    exact ⟨part, List.mem_append_left _ member, found⟩
  case ends =>
    obtain ⟨part, member, found⟩ := serves.ends
    exact ⟨part, List.mem_append_left _ member, found⟩
  case limited =>
    intro several
    apply serves.limited
    simpa using several

/-- A range that begins in or behind a request is taken into it, as far as the limit goes. -/
theorem Serves.join {last : Request} (serves : Serves ranges config last) {index : Nat}
    {range : Nat × Nat} (here : ranges[index]? = some range) (after : last.offset ≤ range.1)
    (room : max (range.1 + range.2) (last.offset + last.len) - last.offset ≤ config.maxRequestSize) :
    Serves ranges config
      { last with
        len := max (range.1 + range.2) (last.offset + last.len) - last.offset
        parts := last.parts ++ [⟨index, range.1 - last.offset, range.2⟩] } := by
  constructor
  case placed =>
    intro part member
    rcases List.mem_append.mp member with old | new
    · obtain ⟨found, place, same, within, aligned⟩ := serves.placed part old
      refine ⟨found, place, same, ?_, aligned⟩
      change part.start + part.len ≤ max (range.1 + range.2) (last.offset + last.len) - last.offset
      omega
    · obtain rfl := List.mem_singleton.mp new
      refine ⟨range, here, rfl, ?_, fun _ => ?_⟩
      · change range.1 - last.offset + range.2 ≤ _ - last.offset
        omega
      · change range.1 = last.offset + (range.1 - last.offset)
        omega
  case begins =>
    obtain ⟨part, member, found⟩ := serves.begins
    exact ⟨part, List.mem_append_left _ member, found⟩
  case ends =>
    -- The longer of the two decides where the request ends.
    rcases Nat.le_total (last.offset + last.len) (range.1 + range.2) with later | earlier
    · refine ⟨_, List.mem_append_right _ (List.mem_singleton.mpr rfl), range, here, ?_⟩
      change _ = last.offset + (max (range.1 + range.2) (last.offset + last.len) - last.offset)
      omega
    · obtain ⟨part, member, found, place, stop⟩ := serves.ends
      refine ⟨part, List.mem_append_left _ member, found, place, ?_⟩
      change _ = last.offset + (max (range.1 + range.2) (last.offset + last.len) - last.offset)
      omega
  case limited => exact fun _ => room

theorem planRange_spec (held : AllHeld file ranges) {index : Nat} {range : Nat × Nat}
    (here : ranges[index]? = some range) {requests : List Request}
    (serves : ∀ request ∈ requests, Serves ranges config request) :
    ∃ later, planRange build config index range requests = .ok later ∧
      (∀ request ∈ later, Serves ranges config request) ∧
      (named later).Perm (index :: named requests) := by
  have word {offset len : Nat} (inside : file.Holds offset len) :
      (build.add offset len : Code Nat) = .ok (offset + len) :=
    Build.word_of_lt build (Nat.lt_of_le_of_lt inside file.size_lt)
  have inside := held range (List.mem_of_getElem? here)
  cases requests with
  | nil =>
    refine ⟨[⟨range.1, range.2, [⟨index, 0, range.2⟩]⟩], ?_, ?_, List.Perm.refl _⟩
    · by_cases empty : range.2 = 0
      · simp only [planRange, empty, ↓reduceIte]
      · simp only [planRange, if_neg empty, word inside, Outcome.ok_bind]
    · intro request member
      rw [List.mem_singleton.mp member]
      exact serves_single here
  | cons last before =>
    have joined (part : Part) (len : Nat) (same : part.index = index) :
        (named (⟨last.offset, len, last.parts ++ [part]⟩ :: before)).Perm
          (index :: named (last :: before)) := by
      rw [named_cons, named_cons, List.map_append, List.append_assoc, List.map_singleton, same]
      exact List.perm_middle
    have first := serves last List.mem_cons_self
    have others {request : Request} (fits : Serves ranges config request) :
        ∀ later ∈ request :: before, Serves ranges config later := by
      intro later member
      rcases List.mem_cons.mp member with rfl | member
      · exact fits
      · exact serves later (List.mem_cons_of_mem last member)
    by_cases empty : range.2 = 0
    · refine ⟨_, ?_, others (first.join_empty here empty), joined ⟨index, 0, 0⟩ last.len rfl⟩
      simp only [planRange, if_pos empty]
    · have above : last.offset ≤ max (range.1 + range.2) (last.offset + last.len) := by omega
      by_cases merges : range.1 ≥ last.offset ∧ range.1 - (last.offset + last.len) ≤ config.maxGap ∧
          max (range.1 + range.2) (last.offset + last.len) - last.offset ≤ config.maxRequestSize
      · refine ⟨_, ?_, others (first.join here merges.1 merges.2.2),
          joined ⟨index, range.1 - last.offset, range.2⟩ _ rfl⟩
        simp only [planRange, if_neg empty, word inside, word (first.held held), Outcome.ok_bind,
          Build.sub_of_le build above, if_pos merges]
      · refine ⟨⟨range.1, range.2, [⟨index, 0, range.2⟩]⟩ :: last :: before, ?_, ?_, List.Perm.refl _⟩
        · simp only [planRange, if_neg empty, word inside, word (first.held held), Outcome.ok_bind,
            Build.sub_of_le build above, if_neg merges]
        · intro request member
          rcases List.mem_cons.mp member with rfl | member
          · exact serves_single here
          · exact serves request member

theorem planEach_spec (held : AllHeld file ranges) (order : List (Nat × (Nat × Nat))) :
    ∀ {requests : List Request}, (∀ each ∈ order, ranges[each.1]? = some each.2) →
      (∀ request ∈ requests, Serves ranges config request) →
      ∃ planned, planEach build config order requests = .ok planned ∧
        (∀ request ∈ planned, Serves ranges config request) ∧
        (named planned).Perm (order.map Prod.fst ++ named requests) := by
  induction order with
  | nil =>
    intro requests _ serves
    exact ⟨requests, rfl, serves, List.Perm.refl _⟩
  | cons each order ih =>
    intro requests found serves
    obtain ⟨middle, step, kept, first⟩ := planRange_spec held (found each List.mem_cons_self) serves
    obtain ⟨planned, done, all, rest⟩ :=
      ih (fun later member => found later (List.mem_cons_of_mem each member)) kept
    refine ⟨planned, ?_, all, ?_⟩
    · rw [planEach, step, Outcome.ok_bind, done]
    · apply rest.trans
      rw [List.map_cons, List.cons_append]
      exact (first.append_left _).trans List.perm_middle

theorem ordered_perm (ranges : List (Nat × Nat)) :
    (ordered ranges).Perm (ranges.zipIdx.map fun indexed => (indexed.2, indexed.1)) :=
  List.perm_insertionSort _ _

theorem found_of_ordered {each : Nat × (Nat × Nat)} (member : each ∈ ordered ranges) :
    ranges[each.1]? = some each.2 := by
  obtain ⟨indexed, there, rfl⟩ := List.mem_map.mp ((ordered_perm ranges).mem_iff.mp member)
  exact List.mem_zipIdx_iff_getElem?.mp there

theorem ordered_indices (ranges : List (Nat × Nat)) :
    ((ordered ranges).map Prod.fst).Perm (List.range ranges.length) := by
  apply ((ordered_perm ranges).map Prod.fst).trans
  rw [List.map_map, List.range_eq_range']
  change ((ranges.zipIdx.map Prod.snd).Perm _)
  rw [List.zipIdx_map_snd]

/-- Every range has one part, in one of the requests. -/
theorem plan_spec (held : AllHeld file ranges) :
    ∃ requests, plan build ranges config = .ok requests ∧
      (∀ request ∈ requests, Serves ranges config request) ∧
      (named requests).Perm (List.range ranges.length) := by
  obtain ⟨planned, done, serves, indices⟩ :=
    @planEach_spec build config file ranges held (ordered ranges) [] (fun _ => found_of_ordered) nofun
  refine ⟨planned.reverse, ?_, fun request member => serves request (List.mem_reverse.mp member), ?_⟩
  · rw [plan, done, Outcome.ok_bind]
  · have turned : (named planned.reverse).Perm (named planned) :=
      (planned.reverse_perm.flatMap_right Request.parts).map Part.index
    change (named planned).Perm (_ ++ []) at indices
    rw [List.append_nil] at indices
    exact turned.trans (indices.trans (ordered_indices ranges))

end Planning

section Scattering

/-- Overwrite the entries at some indices by what belongs there. -/
def setEach {α : Type} (value : Nat → α) (indices : List Nat) (out : List α) : List α :=
  indices.foldl (fun out index => out.set index (value index)) out

theorem getElem?_setEach {α : Type} (value : Nat → α) (indices : List Nat) : ∀ (out : List α) (i : Nat),
    (setEach value indices out)[i]? =
      if i ∈ indices ∧ i < out.length then some (value i) else out[i]? := by
  induction indices with
  | nil => simp [setEach]
  | cons index indices ih =>
    intro out i
    change (setEach value indices (out.set index (value index)))[i]? = _
    rw [ih, List.length_set, List.getElem?_set]
    by_cases later : i ∈ indices
    · by_cases bound : i < out.length
      · simp [later, bound]
      · by_cases here : index = i <;> simp [later, bound, here]
    · by_cases here : index = i
      · subst here
        by_cases bound : index < out.length <;> simp [later, bound]
      · simp [later, here, Ne.symm here]

/-- The bytes of a range, by its index. -/
def bytesOf (file : FileImage) (ranges : List (Nat × Nat)) (index : Nat) : Bytes :=
  let range := ranges.getD index (0, 0)
  file.part range.1 range.2

theorem part_bytes {request : Request} {part : Part} (placed : Placed ranges request part) :
    slice (file.part request.offset request.len) part.start part.len = bytesOf file ranges part.index := by
  obtain ⟨range, here, same, within, aligned⟩ := placed
  have found : bytesOf file ranges part.index = file.part range.1 range.2 := by
    simp [bytesOf, List.getD_eq_getElem?_getD, here]
  rw [found, ← same]
  by_cases empty : part.len = 0
  · rw [empty, slice_zero, FileImage.part, slice_zero]
  · rw [aligned (by omega), FileImage.part, FileImage.part, slice, slice, slice, List.drop_take,
      List.take_take, List.drop_drop, Nat.min_eq_left (by omega)]

theorem scatterParts_eq {request : Request} {count : Nat} (sized : count = ranges.length)
    (held : file.Holds request.offset request.len) : ∀ {parts : List Part} {out : List Bytes},
    (∀ part ∈ parts, Placed ranges request part) →
      scatterParts build count (file.part request.offset request.len) parts out =
        .ok (setEach (bytesOf file ranges) (parts.map Part.index) out) := by
  intro parts
  induction parts with
  | nil =>
    intro out _
    rfl
  | cons part parts ih =>
    intro out placed
    have here := placed part List.mem_cons_self
    obtain ⟨range, found, -, within, -⟩ := id here
    have bound := (List.getElem?_eq_some_iff.mp found).1
    have long := FileImage.part_length held
    have small : part.start + part.len < wordSize := by
      have words := file.size_lt
      unfold FileImage.Holds at held
      omega
    rw [scatterParts, if_neg (by omega), Build.add, Build.word_of_lt _ small, Outcome.ok_bind,
      if_neg (by omega), range_of_le _ (by omega), Outcome.ok_bind,
      ih fun later member => placed later (List.mem_cons_of_mem part member), part_bytes here]
    rfl

theorem scatterEach_eq {count : Nat} (sized : count = ranges.length) (held : AllHeld file ranges)
    (requests : List Request) : ∀ {out : List Bytes},
    (∀ request ∈ requests, Serves ranges config request) →
      scatterEach build count
          (requests.zip (requests.map fun request => file.part request.offset request.len)) out =
        .ok (setEach (bytesOf file ranges) (named requests) out) := by
  induction requests with
  | nil =>
    intro out _
    rfl
  | cons request requests ih =>
    intro out serves
    have here := serves request List.mem_cons_self
    rw [List.map_cons, List.zip_cons_cons, scatterEach,
      scatterParts_eq sized (here.held held) here.placed, Outcome.ok_bind,
      ih fun later member => serves later (List.mem_cons_of_mem request member), named_cons, setEach,
      setEach, setEach, List.foldl_append]

/-- Every index is written, so what was there before does not matter. -/
theorem setEach_all {indices : List Nat} (all : indices.Perm (List.range ranges.length))
    (out : List Bytes) (sized : out.length = ranges.length) :
    setEach (bytesOf file ranges) indices out = ranges.map fun range => file.part range.1 range.2 := by
  apply List.ext_getElem?
  intro i
  rw [getElem?_setEach, List.getElem?_map]
  by_cases bound : i < ranges.length
  · have written : i ∈ indices := all.mem_iff.mpr (List.mem_range.mpr bound)
    rw [if_pos ⟨written, by omega⟩, List.getElem?_eq_getElem bound]
    simp [bytesOf, List.getD_eq_getElem?_getD, bound]
  · rw [if_neg (by omega), List.getElem?_eq_none (by omega), List.getElem?_eq_none (by omega)]
    rfl

end Scattering

section Converse

/-- The part of a request that names one of the ranges, wherever the request ends. -/
def Named (ranges : List (Nat × Nat)) (request : Request) (part : Part) : Prop :=
  ∃ range, ranges[part.index]? = some range ∧ part.len = range.2 ∧
    (0 < range.2 → range.1 = request.offset + part.start)

theorem planRange_named {index : Nat} {range : Nat × Nat} (here : ranges[index]? = some range)
    {requests later : List Request} (planned : planRange build config index range requests = .ok later)
    (before : ∀ request ∈ requests, ∀ part ∈ request.parts, Named ranges request part) :
    (∀ request ∈ later, ∀ part ∈ request.parts, Named ranges request part) ∧
      (named later).Perm (index :: named requests) := by
  have single : ∀ part ∈ [Part.mk index 0 range.2],
    Named ranges ⟨range.1, range.2, [⟨index, 0, range.2⟩]⟩ part := by
    intro part member
    obtain rfl := List.mem_singleton.mp member
    exact ⟨range, here, rfl, fun _ => rfl⟩
  cases requests with
  | nil =>
    simp only [planRange] at planned
    split at planned
    · next empty =>
      cases planned
      refine ⟨fun request member part named => ?_, List.Perm.refl _⟩
      obtain rfl := List.mem_singleton.mp member
      obtain rfl := List.mem_singleton.mp named
      exact ⟨range, here, empty.symm, fun positive => absurd empty (Nat.pos_iff_ne_zero.mp positive)⟩
    · obtain ⟨_, -, planned⟩ := Outcome.bind_eq_ok.mp planned
      cases planned
      refine ⟨fun request member => ?_, List.Perm.refl _⟩
      obtain rfl := List.mem_singleton.mp member
      exact single
  | cons last before_ =>
    -- A range that joins the last request is one more part of it, whatever its length becomes.
    have joined (part : Part) (len : Nat) (same : part.index = index) :
        (named (⟨last.offset, len, last.parts ++ [part]⟩ :: before_)).Perm
          (index :: named (last :: before_)) := by
      rw [named_cons, named_cons, List.map_append, List.append_assoc, List.map_singleton, same]
      exact List.perm_middle
    have grown {part : Part} {len : Nat} (fits : Named ranges ⟨last.offset, len, last.parts ++ [part]⟩ part) :
        ∀ request ∈ (⟨last.offset, len, last.parts ++ [part]⟩ : Request) :: before_, ∀ part ∈ request.parts,
          Named ranges request part := by
      intro request member other among
      rcases List.mem_cons.mp member with rfl | member
      · rcases List.mem_append.mp among with old | new
        · exact before last List.mem_cons_self other old
        · rw [List.mem_singleton.mp new]
          exact fits
      · exact before request (List.mem_cons_of_mem last member) other among
    simp only [planRange] at planned
    split at planned
    · next empty =>
      cases planned
      exact ⟨grown ⟨range, here, empty.symm, fun positive => absurd empty (Nat.pos_iff_ne_zero.mp positive)⟩,
        joined ⟨index, 0, 0⟩ last.len rfl⟩
    · obtain ⟨stop, -, planned⟩ := Outcome.bind_eq_ok.mp planned
      obtain ⟨lastStop, -, planned⟩ := Outcome.bind_eq_ok.mp planned
      obtain ⟨mergedLen, -, planned⟩ := Outcome.bind_eq_ok.mp planned
      split at planned
      · next merges =>
        cases planned
        have above : last.offset ≤ range.1 := merges.1
        refine ⟨grown ⟨range, here, rfl, fun _ => ?_⟩,
          joined ⟨index, range.1 - last.offset, range.2⟩ mergedLen rfl⟩
        change range.1 = last.offset + (range.1 - last.offset)
        omega
      · cases planned
        refine ⟨fun request member => ?_, List.Perm.refl _⟩
        rcases List.mem_cons.mp member with rfl | member
        · exact single
        · exact before request member

theorem planEach_named (order : List (Nat × (Nat × Nat))) : ∀ {requests planned : List Request},
    (∀ each ∈ order, ranges[each.1]? = some each.2) → planEach build config order requests = .ok planned →
    (∀ request ∈ requests, ∀ part ∈ request.parts, Named ranges request part) →
    (∀ request ∈ planned, ∀ part ∈ request.parts, Named ranges request part) ∧
      (named planned).Perm (order.map Prod.fst ++ named requests) := by
  induction order with
  | nil =>
    intro requests planned _ done before
    cases done
    exact ⟨before, List.Perm.refl _⟩
  | cons each order ih =>
    intro requests planned found done before
    obtain ⟨middle, step, done⟩ := Outcome.bind_eq_ok.mp done
    obtain ⟨kept, first⟩ := planRange_named (found each List.mem_cons_self) step before
    obtain ⟨all, rest⟩ := ih (fun later member => found later (List.mem_cons_of_mem each member)) done kept
    refine ⟨all, rest.trans ?_⟩
    rw [List.map_cons, List.cons_append]
    exact (first.append_left _).trans List.perm_middle

/-- However a plan was made, each range has a part in it. -/
theorem part_of_plan {requests : List Request} (planned : plan build ranges config = .ok requests) {index : Nat}
    {range : Nat × Nat} (here : ranges[index]? = some range) :
    ∃ request ∈ requests, ∃ part ∈ request.parts, part.len = range.2 ∧
      (0 < range.2 → range.1 = request.offset + part.start) := by
  obtain ⟨inner, done, same⟩ := Outcome.bind_eq_ok.mp planned
  cases same
  obtain ⟨names, indices⟩ := planEach_named (ordered ranges) (fun _ => found_of_ordered) done nofun
  change (named inner).Perm (_ ++ []) at indices
  rw [List.append_nil] at indices
  have bound := (List.getElem?_eq_some_iff.mp here).1
  have listed : index ∈ named inner :=
    (indices.trans (ordered_indices ranges)).mem_iff.mpr (List.mem_range.mpr bound)
  obtain ⟨part, among, rfl⟩ := List.mem_map.mp listed
  obtain ⟨request, member, within⟩ := List.mem_flatMap.mp among
  obtain ⟨other, found, long, place⟩ := names request member part within
  rw [here] at found
  cases found
  exact ⟨request, List.mem_reverse.mpr member, part, within, long, place⟩

theorem within_of_scatterParts {count : Nat} {buffer : Bytes} : ∀ {parts : List Part} {out result : List Bytes},
    scatterParts build count buffer parts out = .ok result → ∀ part ∈ parts, part.start < wordSize →
    part.len < wordSize → part.start + part.len ≤ buffer.length := by
  intro parts
  induction parts with
  | nil => nofun
  | cons part parts ih =>
    intro out result done other member start long
    rw [scatterParts] at done
    split at done
    · cases done
    · obtain ⟨stop, word, done⟩ := Outcome.bind_eq_ok.mp done
      split at done
      · cases done
      · next inside =>
        obtain ⟨bytes, cut, done⟩ := Outcome.bind_eq_ok.mp done
        rcases List.mem_cons.mp member with rfl | member
        · have exact_ := Build.stop_eq_of_le word start long (range_eq_ok.mp cut).1
          omega
        · exact ih done other member start long

theorem scatterParts_of_scatterEach {count : Nat} : ∀ {pairs : List (Request × Bytes)}
    {out result : List Bytes},
    scatterEach build count pairs out = .ok result → ∀ pair ∈ pairs,
      ∃ before after, scatterParts build count pair.2 pair.1.parts before = .ok after := by
  intro pairs
  induction pairs with
  | nil => nofun
  | cons pair pairs ih =>
    intro out result done other member
    obtain ⟨middle, step, done⟩ := Outcome.bind_eq_ok.mp done
    rcases List.mem_cons.mp member with rfl | member
    · exact ⟨_, _, step⟩
    · exact ih done other member

/-- Where requests that a file answered could be cut back into the ranges, the ranges lie in the file. -/
theorem held_of_scatter {requests : List Request} {blobs : List Bytes}
    (planned : plan build ranges config = .ok requests)
    (held : ∀ request ∈ requests, file.Holds request.offset request.len)
    (cut : scatter build requests (requests.map fun request => file.part request.offset request.len)
      ranges.length =
      .ok blobs)
    {range : Nat × Nat} (member : range ∈ ranges) (positive : 0 < range.2) (offset : range.1 < wordSize)
    (len : range.2 < wordSize) : file.Holds range.1 range.2 := by
  obtain ⟨index, here⟩ := List.mem_iff_getElem?.mp member
  obtain ⟨request, among, part, within, long, place⟩ := part_of_plan planned here
  have start := place positive
  rw [scatter, if_neg (by rw [List.length_map]; exact not_not_intro rfl), ← List.map_prod_left_eq_zip] at cut
  obtain ⟨before, after, done⟩ := scatterParts_of_scatterEach cut _ (List.mem_map_of_mem among)
  have inside := within_of_scatterParts done part within (by omega) (by omega)
  have bytes := held request among
  rw [FileImage.part_length bytes] at inside
  unfold FileImage.Holds at bytes ⊢
  omega

end Converse

/-- What the file answers to requests that serve each range once is cut into the bytes of the ranges. -/
theorem scatter_eq {requests : List Request} (held : AllHeld file ranges)
    (serves : ∀ request ∈ requests, Serves ranges config request)
    (indices : (named requests).Perm (List.range ranges.length)) :
    scatter build requests (requests.map fun request => file.part request.offset request.len) ranges.length =
      .ok (ranges.map fun range => file.part range.1 range.2) := by
  rw [scatter, if_neg (by rw [List.length_map]; exact not_not_intro rfl), scatterEach_eq rfl held _ serves,
    setEach_all indices _ List.length_replicate]

section Fetched

variable {blobs : List Bytes}

/-- Ranges that all have bytes, or that are all empty and begin at one place. -/
def Alike (ranges : List (Nat × Nat)) : Prop :=
  (∀ range ∈ ranges, 0 < range.2) ∨ ∃ offset, ∀ range ∈ ranges, range = (offset, 0)

theorem planEach_empty {offset : Nat} (order : List (Nat × (Nat × Nat)))
    (empty : ∀ each ∈ order, each.2 = (offset, 0)) : ∀ parts : List Part,
    ∃ later, planEach build config order [⟨offset, 0, parts⟩] = .ok [⟨offset, 0, later⟩] := by
  induction order with
  | nil => exact fun parts => ⟨parts, rfl⟩
  | cons each order ih =>
    intro parts
    obtain ⟨here, others⟩ := List.forall_mem_cons.mp empty
    obtain ⟨index, range⟩ := each
    cases here
    exact ih others (parts ++ [⟨index, 0, 0⟩])

theorem plan_empty {offset : Nat} (some_ : ranges ≠ []) (empty : ∀ range ∈ ranges, range = (offset, 0)) :
    ∃ parts, plan build ranges config = .ok [⟨offset, 0, parts⟩] := by
  have each : ∀ indexed ∈ ordered ranges, indexed.2 = (offset, 0) := by
    intro indexed member
    exact empty indexed.2 (List.mem_of_getElem? (found_of_ordered member))
  have long : (ordered ranges).length = ranges.length := by
    rw [(ordered_perm ranges).length_eq]
    simp
  unfold plan
  cases sorted : ordered ranges with
  | nil =>
    rw [sorted] at long
    exact absurd (List.eq_nil_of_length_eq_zero long.symm) some_
  | cons first order =>
    rw [sorted] at each
    obtain ⟨here, others⟩ := List.forall_mem_cons.mp each
    obtain ⟨index, range⟩ := first
    cases here
    obtain ⟨parts, planned⟩ := @planEach_empty build config offset order others [⟨index, 0, 0⟩]
    refine ⟨parts, ?_⟩
    change (planEach build config order [⟨offset, 0, [⟨index, 0, 0⟩]⟩] >>= _) = _
    rw [planned]
    rfl

/-- A merged read of some ranges succeeds when all of them lie in the file. -/
theorem merged_eq_ok {readRanges : List (Nat × Nat) → Code (List Bytes)}
    (batches : ∀ ranges blobs, readRanges ranges = .ok blobs ↔
      (∀ range ∈ ranges, file.Holds range.1 range.2) ∧ blobs = ranges.map fun range =>
      file.part range.1 range.2)
    (words : ∀ range ∈ ranges, range.1 < wordSize ∧ range.2 < wordSize) (alike : Alike ranges) :
    (plan build ranges config >>= fun requests =>
      readRanges (requests.map fun request => (request.offset, request.len)) >>= fun fetched =>
      scatter build requests fetched ranges.length) = .ok blobs ↔
      (∀ range ∈ ranges, file.Holds range.1 range.2) ∧ blobs = ranges.map fun range =>
        file.part range.1 range.2 := by
  constructor
  · intro done
    obtain ⟨requests, planned, done⟩ := Outcome.bind_eq_ok.mp done
    obtain ⟨answers, fetched, cut⟩ := Outcome.bind_eq_ok.mp done
    obtain ⟨inside, rfl⟩ := (batches _ _).mp fetched
    rw [List.forall_mem_map] at inside
    rw [List.map_map] at cut
    have held : ∀ range ∈ ranges, file.Holds range.1 range.2 := by
      intro range member
      -- An empty range is held where the one empty request it became is.
      rcases alike with positive | ⟨offset, empty⟩
      · obtain ⟨first, len⟩ := words range member
        exact held_of_scatter planned inside cut member (positive range member) first len
      · obtain ⟨parts, same⟩ := @plan_empty build config ranges offset (List.ne_nil_of_mem member) empty
        cases planned.symm.trans same
        rw [empty range member]
        exact inside _ List.mem_cons_self
    obtain ⟨_, same, serves, indices⟩ := @plan_spec build config file ranges held
    rw [planned] at same
    cases same
    exact ⟨held, Outcome.ok.inj (cut.symm.trans (scatter_eq held serves indices))⟩
  · rintro ⟨held, rfl⟩
    obtain ⟨requests, planned, serves, indices⟩ := @plan_spec build config file ranges held
    have fetched := (batches (requests.map fun request => (request.offset, request.len)) _).mpr
      ⟨List.forall_mem_map.mpr fun request member => (serves request member).held held, rfl⟩
    rw [List.map_map] at fetched
    rw [planned, Outcome.ok_bind, fetched, Outcome.ok_bind]
    exact scatter_eq held serves indices

end Fetched

/-- Ranges of a file are merged into requests and come back from them: every range has
exactly one part, the requests answered by the file give each range its bytes, every
request begins and ends with a range it serves, and a request that was merged is within
the limit. -/
theorem plan_scatter (held : AllHeld file ranges) :
    ∃ requests, plan build ranges config = .ok requests ∧
      (named requests).Perm (List.range ranges.length) ∧
      scatter build requests (requests.map fun request => file.part request.offset request.len)
          ranges.length =
        .ok (ranges.map fun range => file.part range.1 range.2) ∧
      ∀ request ∈ requests, Serves ranges config request := by
  obtain ⟨requests, planned, serves, indices⟩ := @plan_spec build config file ranges held
  exact ⟨requests, planned, indices, scatter_eq held serves indices, serves⟩

theorem plan_scatter_nested :
    ∃ requests, plan .debug [(1, 4), (2, 1), (1, 0)] IoConfig.localFile = .ok requests ∧
      (named requests).Perm (List.range 3) ∧
      scatter .debug requests
          (requests.map fun request => FileImage.part
          ⟨[1, 2, 3, 4, 5], by decide⟩ request.offset request.len) 3 =
        .ok [[2, 3, 4, 5], [3], []] ∧
      ∀ request ∈ requests, Serves [(1, 4), (2, 1), (1, 0)] IoConfig.localFile request :=
  @plan_scatter .debug IoConfig.localFile ⟨[1, 2, 3, 4, 5], by decide⟩ [(1, 4), (2, 1), (1, 0)]
    (by unfold AllHeld; decide)

end Oxcdf.Io
