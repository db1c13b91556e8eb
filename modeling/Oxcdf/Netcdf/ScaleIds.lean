import Oxcdf.Netcdf.Dimensions

/-! The ids of the dimension scales.

A scale has the id that the file records for it, or the number of a counter, which
stands above every id met before. Nothing keeps the counter off the ids that scales
met later record.
-/

set_option autoImplicit false

namespace Oxcdf.Netcdf

open Foundation

section Map

variable {scales : Scales} {found : List (Nat × DimensionScale)} {entry : Nat × DimensionScale}

/-- Insert some scales, one after the other. -/
def Scales.insertAll (scales : Scales) (found : List (Nat × DimensionScale)) : Scales :=
  found.foldl (fun scales entry => scales.insert entry.1 entry.2) scales

theorem mem_insert {address : Nat} {scale : DimensionScale} :
    entry ∈ scales.insert address scale ↔ entry = (address, scale) ∨ entry ∈ scales ∧ entry.1 ≠ address := by
  simp [Scales.insert]

/-- A map holds the last scale of each address. -/
theorem mem_insertAll : ∀ {found : List (Nat × DimensionScale)} {scales : Scales},
    entry ∈ scales.insertAll found ↔
      (∃ before later, found = before ++ entry :: later ∧ entry.1 ∉ later.map Prod.fst) ∨
        entry ∈ scales ∧ entry.1 ∉ found.map Prod.fst
  | [], scales => by simp [Scales.insertAll]
  | first :: found, scales => by
    change entry ∈ (scales.insert first.1 first.2).insertAll found ↔ _
    rw [mem_insertAll, mem_insert]
    constructor
    · rintro (⟨before, later, rfl, last⟩ | ⟨rfl | ⟨held, differs⟩, last⟩)
      · exact .inl ⟨first :: before, later, rfl, last⟩
      · exact .inl ⟨[], found, rfl, last⟩
      · exact .inr ⟨held, List.not_mem_cons_of_ne_of_not_mem differs last⟩
    · rintro (⟨before, later, same, last⟩ | ⟨held, last⟩)
      · rcases List.cons_eq_append_iff.mp same with ⟨-, same⟩ | ⟨front, -, same⟩
        · cases same
          exact .inr ⟨.inl rfl, last⟩
        · exact .inl ⟨front, later, same, last⟩
      · rw [List.map_cons, List.mem_cons, not_or] at last
        exact .inr ⟨.inr ⟨held, last.1⟩, last.2⟩

theorem keys_insertAll : ∀ {found : List (Nat × DimensionScale)} {scales : Scales},
    (scales.map Prod.fst).Nodup → ((scales.insertAll found).map Prod.fst).Nodup
  | [], _, apart => apart
  | first :: found, scales, apart => by
    change (((scales.insert first.1 first.2).insertAll found).map Prod.fst).Nodup
    refine keys_insertAll (List.nodup_cons.mpr ⟨?_, (List.filter_sublist.map Prod.fst).nodup apart⟩)
    simp

/-- Where the keys differ, an entry is what its key leads to, whatever the order. -/
theorem get_eq_some_iff : ∀ {scales : Scales}, (scales.map Prod.fst).Nodup → ∀ {address : Nat}
    {scale : DimensionScale}, scales.get address = some scale ↔ (address, scale) ∈ scales
  | [], _, _, _ => by simp [Scales.get]
  | first :: scales, apart, address, scale => by
    rw [List.map_cons, List.nodup_cons] at apart
    have rest := @get_eq_some_iff scales apart.2 address scale
    unfold Scales.get at rest ⊢
    rw [List.lookup_cons, List.mem_cons]
    split
    · next here =>
      have same : address = first.1 := by simpa using here
      have absent : (address, scale) ∉ scales := fun held =>
        apart.1 (same ▸ List.mem_map_of_mem held)
      rw [or_iff_left absent, Option.some.injEq, Prod.ext_iff]
      exact ⟨fun value => ⟨same, value.symm⟩, fun both => both.2.symm⟩
    · next here =>
      have differs : (address, scale) ≠ first := by
        rintro rfl
        simp at here
      rw [or_iff_right differs, rest]

end Map

section Counter

variable {build : Build}

/-- The scales of a file, in the order they are met. -/
def scaleEntries (hdf5 : Hdf5File) : List DatasetEntry := hdf5.root.datasetsRecursive.filter isScale

def countScale (next : Int64) (scale : DatasetEntry) : Int64 :=
  match recordedId scale with
  | some id => max next (saturatingNext id)
  | none => next + 1

def counterAfter (scales : List DatasetEntry) : Int64 := scales.foldl countScale 0

/-- A scale that the map keeps: none met later has the address of its header. -/
structure Kept (scales : List DatasetEntry) where
  before : List DatasetEntry
  dataset : DatasetEntry
  later : List DatasetEntry
  split : scales = before ++ dataset :: later
  last : dataset.address ∉ later.map DatasetEntry.address

namespace Kept

variable {scales : List DatasetEntry}

def counter (kept : Kept scales) : Int64 := counterAfter kept.before

def id (kept : Kept scales) : Int64 := (recordedId kept.dataset).getD kept.counter

def entry (kept : Kept scales) : Nat × DimensionScale :=
  (kept.dataset.address, scaleOf kept.dataset kept.id)

theorem mem (kept : Kept scales) : kept.dataset ∈ scales := by
  obtain ⟨before, dataset, later, rfl, last⟩ := kept
  exact List.mem_append_right _ List.mem_cons_self

theorem eq_of_address (first second : Kept scales) (same : first.dataset.address = second.dataset.address) :
    first = second := by
  obtain ⟨before, dataset, later, split, last⟩ := first
  obtain ⟨before', dataset', later', split', last'⟩ := second
  rcases List.append_eq_append_iff.mp (split.symm.trans split') with
    ⟨between, rfl, rest⟩ | ⟨between, rfl, rest⟩
  · rcases List.cons_eq_append_iff.mp rest with ⟨rfl, rest⟩ | ⟨tail, -, rfl⟩
    · cases rest
      simp
    · exact absurd (List.mem_map.mpr ⟨dataset', by simp, same.symm⟩) last
  · rcases List.cons_eq_append_iff.mp rest with ⟨rfl, rest⟩ | ⟨tail, -, rfl⟩
    · cases rest
      simp
    · exact absurd (List.mem_map.mpr ⟨dataset, by simp, same⟩) last'

end Kept

/-- Every scale with its id, from some counter on. -/
def numbered : Int64 → List DatasetEntry → List (Nat × DimensionScale)
  | _, [] => []
  | next, scale :: scales =>
    (scale.address, scaleOf scale ((recordedId scale).getD next)) :: numbered (countScale next scale) scales

theorem keys_numbered : ∀ (next : Int64) (scales : List DatasetEntry),
    (numbered next scales).map Prod.fst = scales.map DatasetEntry.address
  | _, [] => rfl
  | next, scale :: scales => congrArg (scale.address :: ·) (keys_numbered (countScale next scale) scales)

theorem numbered_append : ∀ (next : Int64) (scales others : List DatasetEntry),
    numbered next (scales ++ others) = numbered next scales ++ numbered (scales.foldl countScale next) others
  | _, [], _ => rfl
  | next, scale :: scales, others =>
    congrArg ((scale.address, scaleOf scale ((recordedId scale).getD next)) :: ·)
      (numbered_append (countScale next scale) scales others)

/-- Where an entry stands among the numbered scales, its scale stands among the scales. -/
theorem split_of_numbered {entry : Nat × DimensionScale} : ∀ {scales : List DatasetEntry} {next : Int64}
    {front back : List (Nat × DimensionScale)}, numbered next scales = front ++ entry :: back →
    ∃ before dataset later, scales = before ++ dataset :: later ∧
      entry = (dataset.address, scaleOf dataset ((recordedId dataset).getD (before.foldl countScale next))) ∧
      back.map Prod.fst = later.map DatasetEntry.address
  | [], _, _, _, same => by simp [numbered] at same
  | scale :: scales, next, front, back, same => by
    rcases List.cons_eq_append_iff.mp same with ⟨-, same⟩ | ⟨tail, -, same⟩
    · cases same
      exact ⟨[], scale, scales, rfl, rfl, keys_numbered _ _⟩
    · obtain ⟨before, dataset, later, rfl, value, keys⟩ := split_of_numbered same
      exact ⟨scale :: before, dataset, later, rfl, value, keys⟩

theorem numberScale_eq_ok {scale : DatasetEntry} {next id after : Int64}
    (counted : numberScale build (recordedId scale) next = .ok (id, after)) :
    id = (recordedId scale).getD next ∧ after = countScale next scale := by
  unfold numberScale at counted
  unfold countScale
  split at counted
  · next own recorded =>
    rw [recorded]
    cases counted
    exact ⟨rfl, rfl⟩
  · next unrecorded =>
    rw [unrecorded]
    obtain ⟨next, incremented, done⟩ := Outcome.bind_eq_ok.mp counted
    cases done
    exact ⟨rfl, increment_eq_ok incremented⟩

/-- The scan inserts every scale with its id. -/
theorem collectFrom_eq_ok : ∀ {datasets : List DatasetEntry} {scales found : Scales} {next after : Int64},
    collectFrom build datasets scales next = .ok (found, after) →
    found = scales.insertAll (numbered next (datasets.filter isScale)) ∧
      after = (datasets.filter isScale).foldl countScale next
  | [], _, _, _, _, done => by
    cases done
    exact ⟨rfl, rfl⟩
  | dataset :: datasets, scales, found, next, after, done => by
    unfold collectFrom at done
    cases scale : isScale dataset with
    | false =>
      rw [List.filter_cons_of_neg (by simp [scale])]
      exact collectFrom_eq_ok (by simpa [scale] using done)
    | true =>
      rw [List.filter_cons_of_pos (by simp [scale])]
      simp only [scale, Bool.not_true, Bool.false_eq_true, if_false] at done
      obtain ⟨⟨id, middle⟩, counted, rest⟩ := Outcome.bind_eq_ok.mp done
      obtain ⟨rfl, rfl⟩ := numberScale_eq_ok counted
      exact collectFrom_eq_ok rest

/-- The map of the scan holds the scales that are kept. -/
theorem mem_collected {hdf5 : Hdf5File} {scales : Scales} {next : Int64}
    (collected : collectDimensionScales build hdf5 = .ok (scales, next)) {entry : Nat × DimensionScale} :
    entry ∈ scales ↔ ∃ kept : Kept (scaleEntries hdf5), kept.entry = entry := by
  rw [(collectFrom_eq_ok collected).1, mem_insertAll]
  constructor
  · rintro (⟨front, back, same, last⟩ | ⟨impossible, -⟩)
    · obtain ⟨before, dataset, later, split, rfl, keys⟩ := split_of_numbered same
      rw [keys] at last
      exact ⟨⟨before, dataset, later, split, last⟩, rfl⟩
    · cases impossible
  · rintro ⟨⟨before, dataset, later, split, last⟩, rfl⟩
    refine .inl ⟨numbered 0 before, numbered (countScale (counterAfter before) dataset) later, ?_, ?_⟩
    · exact (congrArg (numbered 0) split).trans (numbered_append 0 before (dataset :: later))
    · rwa [keys_numbered]

theorem keys_collected {hdf5 : Hdf5File} {scales : Scales} {next : Int64}
    (collected : collectDimensionScales build hdf5 = .ok (scales, next)) : (scales.map Prod.fst).Nodup := by
  rw [(collectFrom_eq_ok collected).1]
  exact keys_insertAll List.nodup_nil

end Counter

section Ids

/-- The ids that the file records differ: two scales that record one have one header. -/
def RecordedApart (scales : List DatasetEntry) : Prop :=
  ∀ first ∈ scales, ∀ second ∈ scales, ∀ id, recordedId first = some id → recordedId second = some id →
    first.address = second.address

/-- No scale without a recorded id is met while the counter stands at an id that another scale records, or
that the counter hands to another. -/
structure CounterFree (scales : List DatasetEntry) : Prop where
  recorded : ∀ handed other : Kept scales, recordedId handed.dataset = none →
    recordedId other.dataset ≠ some handed.counter
  handed : ∀ first second : Kept scales, recordedId first.dataset = none → recordedId second.dataset = none →
    first.counter = second.counter → first = second

/-- The scales of a map have one id each, and an id leads to its scale, in whatever order the map has. -/
structure IdsApart (scales : Scales) : Prop where
  distinct : (scales.map fun entry => entry.2.id).Nodup
  leads : ∀ order : Scales, order.Perm scales → ∀ entry ∈ scales, order.byId entry.2.id = some entry.2
  sameAxes : ∀ order : Scales, order.Perm scales → ∀ attr named,
    resolveFromCoordinates order attr named = resolveFromCoordinates scales attr named

variable {scales : Scales}

theorem find?_eq_some_of_unique {α : Type} {p : α → Bool} {items : List α} {a : α} (held : a ∈ items)
    (satisfies : p a) (unique : ∀ b ∈ items, p b → b = a) : items.find? p = some a := by
  cases found : items.find? p with
  | none => exact absurd satisfies (List.find?_eq_none.mp found a held)
  | some b => rw [unique b (List.mem_of_find?_eq_some found) (List.find?_some found)]

theorem mem_of_byId {id : Int64} {scale : DimensionScale} (found : scales.byId id = some scale) :
    ∃ entry ∈ scales, entry.2 = scale ∧ scale.id = id := by
  have held := List.mem_reverse.mp (List.mem_of_find?_eq_some found)
  obtain ⟨entry, inside, rfl⟩ := List.mem_map.mp held
  exact ⟨entry, inside, rfl, by simpa using List.find?_some found⟩

/-- Where the ids differ, the order of the map plays no part. -/
theorem idsApart_iff : IdsApart scales ↔ (scales.map fun entry => entry.2.id).Nodup := by
  refine ⟨IdsApart.distinct, fun distinct => ?_⟩
  have leads : ∀ order : Scales, order.Perm scales → ∀ entry ∈ scales,
      order.byId entry.2.id = some entry.2 := by
    intro order same entry held
    refine find?_eq_some_of_unique ?_ (by simp) fun other found equal => ?_
    · exact List.mem_reverse.mpr (List.mem_map_of_mem (same.mem_iff.mpr held))
    · obtain ⟨other, inside, rfl⟩ := List.mem_map.mp (List.mem_reverse.mp found)
      have one := List.inj_on_of_nodup_map distinct (same.mem_iff.mp inside) held (by simpa using equal)
      rw [one]
  refine ⟨distinct, leads, fun order same attr named => ?_⟩
  -- The ids lead to the same scales in both orders, and nothing else is looked up.
  have sameId : order.byId = scales.byId := by
    funext id
    cases found : scales.byId id with
    | some scale =>
      obtain ⟨entry, held, rfl, rfl⟩ := mem_of_byId found
      exact leads order same entry held
    | none =>
      cases other : order.byId id with
      | none => rfl
      | some scale =>
        obtain ⟨entry, held, rfl, rfl⟩ := mem_of_byId other
        rw [leads scales (.refl _) entry (same.mem_iff.mp held)] at found
        cases found
  unfold resolveFromCoordinates
  rw [sameId]

/-- The ids of the scales of a file differ exactly when the counter stands at no id that another scale has. -/
theorem ids_apart_iff {build : Build} {hdf5 : Hdf5File} {next : Int64}
    (apart : RecordedApart (scaleEntries hdf5))
    (collected : collectDimensionScales build hdf5 = .ok (scales, next)) :
    IdsApart scales ↔ CounterFree (scaleEntries hdf5) := by
  have unique : IdsApart scales ↔
      ∀ first second : Kept (scaleEntries hdf5), first.id = second.id → first = second := by
    rw [idsApart_iff, List.nodup_map_iff_inj_on (List.Nodup.of_map _ (keys_collected collected))]
    constructor
    · intro distinct first second same
      have entries := distinct _ ((mem_collected collected).mpr ⟨first, rfl⟩) _
        ((mem_collected collected).mpr ⟨second, rfl⟩) same
      exact first.eq_of_address second (congrArg Prod.fst entries)
    · intro distinct first held second also same
      obtain ⟨first, rfl⟩ := (mem_collected collected).mp held
      obtain ⟨second, rfl⟩ := (mem_collected collected).mp also
      rw [distinct first second same]
  rw [unique]
  constructor
  · intro distinct
    refine ⟨fun handed other unrecorded recorded => ?_, fun first second none_ none' same => ?_⟩
    · have same : handed.id = other.id := by rw [Kept.id, Kept.id, unrecorded, recorded]; rfl
      rw [distinct handed other same, recorded] at unrecorded
      cases unrecorded
    · exact distinct first second (by rw [Kept.id, Kept.id, none_, none']; exact same)
  · intro free first second same
    unfold Kept.id at same
    cases one : recordedId first.dataset with
    | some id =>
      cases other : recordedId second.dataset with
      | some id' =>
        rw [one, other] at same
        -- Equal recorded ids belong to one header, and of a header one scale is kept.
        cases same
        exact first.eq_of_address second (apart _ first.mem _ second.mem _ one other)
      | none =>
        rw [one, other] at same
        exact absurd (one.trans (congrArg some same)) (free.recorded second first other)
    | none =>
      cases other : recordedId second.dataset with
      | some id =>
        rw [one, other] at same
        exact absurd (other.trans (congrArg some same.symm)) (free.recorded first second one)
      | none =>
        rw [one, other] at same
        exact free.handed first second one other same

end Ids

section Order

/-- Where some scales are met from some counter on, it stands at its limit at none without a recorded id. -/
def Unwrapped (next : Int64) : List DatasetEntry → Prop
  | [] => True
  | scale :: scales =>
    (recordedId scale = none → next ≠ Int64.maxValue) ∧ Unwrapped (countScale next scale) scales

theorem le_max_first (a b : Int64) : a ≤ max a b := by
  change a ≤ if a ≤ b then b else a
  split
  · assumption
  · exact Int64.le_refl a

theorem le_max_second (a b : Int64) : b ≤ max a b := by
  change b ≤ if a ≤ b then b else a
  split
  · exact Int64.le_refl b
  · exact (Int64.le_total a b).resolve_left ‹_›

theorem lt_add_one_of_ne {n : Int64} (small : n ≠ Int64.maxValue) : n < n + 1 := by
  have bound := n.toInt_le
  have low := n.le_toInt
  have differs : n.toInt ≠ Int64.maxValue.toInt := fun same => small (Int64.toInt_inj.mp same)
  rw [Int64.toInt_maxValue] at differs bound
  rw [Int64.lt_iff_toInt_lt, Int64.toInt_add, Int64.toInt_one, Int.bmod_eq_of_le]
  · omega
  · omega
  · omega

theorem le_countScale {next : Int64} {scale : DatasetEntry}
    (small : recordedId scale = none → next ≠ Int64.maxValue) : next ≤ countScale next scale := by
  unfold countScale
  split
  · exact le_max_first _ _
  · exact Int64.le_of_lt (lt_add_one_of_ne (small ‹_›))

variable {scales others : List DatasetEntry} {next : Int64}

theorem unwrapped_append : ∀ {scales : List DatasetEntry} {next : Int64},
    Unwrapped next (scales ++ others) ↔ Unwrapped next scales ∧ Unwrapped (scales.foldl countScale next) others
  | [], _ => (iff_of_eq (true_and _)).symm
  | _ :: _, _ => (and_congr_right fun _ => unwrapped_append).trans and_assoc.symm

theorem le_counted : ∀ {scales : List DatasetEntry} {next : Int64}, Unwrapped next scales →
    next ≤ scales.foldl countScale next
  | [], next, _ => Int64.le_refl next
  | _ :: _, _, unwrapped => Int64.le_trans (le_countScale unwrapped.1) (le_counted unwrapped.2)

/-- The scales before the later of two. -/
theorem Kept.before_of_lt (first second : Kept scales) (earlier : first.before.length < second.before.length) :
    ∃ between, second.before = first.before ++ first.dataset :: between := by
  rcases List.append_eq_append_iff.mp (first.split.symm.trans second.split) with
    ⟨between, same, rest⟩ | ⟨between, same, -⟩
  · rcases List.cons_eq_append_iff.mp rest with ⟨rfl, -⟩ | ⟨tail, rfl, -⟩
    · rw [same, List.append_nil] at earlier
      exact absurd earlier (Nat.lt_irrefl _)
    · exact ⟨tail, same⟩
  · rw [same, List.length_append] at earlier
    omega

theorem Kept.eq_or_lt (first second : Kept scales) :
    first = second ∨ first.before.length < second.before.length ∨
      second.before.length < first.before.length := by
  refine (Nat.lt_trichotomy first.before.length second.before.length).elim (.inr ∘ .inl) fun rest => ?_
  refine rest.elim (fun same => .inl ?_) (.inr ∘ .inr)
  have parts := List.append_inj (first.split.symm.trans second.split) same
  exact first.eq_of_address second (congrArg DatasetEntry.address (List.cons.inj parts.2).1)

/-- The counter at a scale, and what it counts to until a later one. -/
theorem Kept.counter_later {first second : Kept scales} (unwrapped : Unwrapped 0 scales)
    (earlier : first.before.length < second.before.length) :
    countScale first.counter first.dataset ≤ second.counter ∧
      (recordedId first.dataset = none → first.counter ≠ Int64.maxValue) ∧
      (recordedId second.dataset = none → second.counter ≠ Int64.maxValue) := by
  obtain ⟨between, same⟩ := first.before_of_lt second earlier
  have all := unwrapped
  rw [second.split, unwrapped_append] at all
  obtain ⟨before, here⟩ := all
  have parts := before
  rw [same, unwrapped_append] at parts
  refine ⟨?_, parts.2.1, here.1⟩
  unfold Kept.counter counterAfter
  rw [same, List.foldl_append]
  exact le_counted parts.2.2

/-- While the counter stays below its limit, it stands above every id met before it, and the ids that scales
met later record are all that can be handed out. -/
theorem counterFree_iff_later (unwrapped : Unwrapped 0 scales) : CounterFree scales ↔
    ∀ handed other : Kept scales, recordedId handed.dataset = none →
      handed.before.length < other.before.length → recordedId other.dataset ≠ some handed.counter := by
  refine ⟨fun free handed other none_ _ => free.recorded handed other none_, fun free => ⟨?_, ?_⟩⟩
  · intro handed other none_ recorded
    rcases handed.eq_or_lt other with rfl | earlier | later
    · cases none_.symm.trans recorded
    · exact free handed other none_ earlier recorded
    · obtain ⟨counted, -, small⟩ := Kept.counter_later unwrapped later
      -- A recorded id pushes the counter above it, short of the limit.
      have reached : saturatingNext handed.counter ≤ handed.counter := by
        refine Int64.le_trans ?_ counted
        unfold countScale
        rw [recorded]
        exact le_max_second _ _
      rw [saturatingNext, if_neg (small none_)] at reached
      exact Int64.lt_irrefl (Int64.lt_of_lt_of_le (lt_add_one_of_ne (small none_)) reached)
  · intro first second none_ none' same
    have differs {first second : Kept scales} (none_ : recordedId first.dataset = none)
        (earlier : first.before.length < second.before.length) : first.counter ≠ second.counter := by
      intro same
      obtain ⟨counted, small, -⟩ := Kept.counter_later unwrapped earlier
      unfold countScale at counted
      rw [none_, ← same] at counted
      exact Int64.lt_irrefl (Int64.lt_of_lt_of_le (lt_add_one_of_ne (small none_)) counted)
    rcases first.eq_or_lt second with equal | earlier | later
    · exact equal
    · exact absurd same (differs none_ earlier)
    · exact absurd same.symm (differs none' later)

/-- A build with overflow checks stops at the limit. -/
theorem unwrapped_of_collectFrom : ∀ {datasets : List DatasetEntry} {scales found : Scales}
    {next after : Int64},
    collectFrom .debug datasets scales next = .ok (found, after) → Unwrapped next (datasets.filter isScale)
  | [], _, _, _, _, _ => trivial
  | dataset :: datasets, scales, found, next, after, done => by
    unfold collectFrom at done
    cases scale : isScale dataset with
    | false =>
      rw [List.filter_cons_of_neg (by simp [scale])]
      exact unwrapped_of_collectFrom (by simpa [scale] using done)
    | true =>
      rw [List.filter_cons_of_pos (by simp [scale])]
      simp only [scale, Bool.not_true, Bool.false_eq_true, if_false] at done
      obtain ⟨⟨id, middle⟩, counted, rest⟩ := Outcome.bind_eq_ok.mp done
      -- At the limit the increment would have panicked.
      refine ⟨fun unrecorded limit => ?_, ?_⟩
      · rw [unrecorded, limit] at counted
        cases counted
      · obtain ⟨rfl, rfl⟩ := numberScale_eq_ok counted
        exact unwrapped_of_collectFrom rest

/-- Where overflow is checked, only the ids that scales met later record can be handed out. -/
theorem counterFree_checked {hdf5 : Hdf5File} {scales : Scales} {next : Int64}
    (collected : collectDimensionScales .debug hdf5 = .ok (scales, next)) :
    CounterFree (scaleEntries hdf5) ↔ ∀ handed other : Kept (scaleEntries hdf5),
      recordedId handed.dataset = none → handed.before.length < other.before.length →
      recordedId other.dataset ≠ some handed.counter :=
  counterFree_iff_later (unwrapped_of_collectFrom collected)

end Order

end Oxcdf.Netcdf
