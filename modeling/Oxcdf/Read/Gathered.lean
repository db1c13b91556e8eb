import Oxcdf.Read.Fetched

/-! The chunks that an asynchronous read gathers, and how its copy finds them.

It decides once which chunks to fetch, and the copy looks every needed chunk up again.
A chunk that was held at first is found if no call in between has dropped it.
-/

set_option autoImplicit false

namespace Foundation.Outcome

/-- Whether a computation returns a value. -/
def isOk {ε α : Type} : Outcome ε α → Bool
  | .ok _ => true
  | _ => false

end Foundation.Outcome

namespace Oxcdf.Read

open Foundation Foundation.RowMajor Foundation.Buffer

variable {build : Build} {ctx : Ctx} {remote : AsyncCtx} {codecs : Codecs} {file : FileImage}
  {dataset : DatasetIndex}
  {chunks : List ChunkRecord} {chunkShape : List Nat} {slab : Hyperslab} {caches : Caches}
    {decodedLen rank : Nat} {plain : ChunkRecord → Code Bytes}

section Touched

theorem intersectsOn_eq : ∀ {rank : Nat} {offset widths start count : List Nat}, offset.length = rank →
    widths.length = rank → start.length = rank → count.length = rank →
    intersectsOn rank offset widths start count = .ok (intersects offset widths start count)
  | 0, [], [], [], [], _, _, _, _ => rfl
  | rank + 1, offset :: offsets, width :: widths, s :: start, c :: count, first, second, third, fourth => by
    have later := @intersectsOn_eq rank offsets widths start count (Nat.succ.inj first) (Nat.succ.inj second)
      (Nat.succ.inj third) (Nat.succ.inj fourth)
    unfold intersectsOn intersects
    split
    · next meets => simp [later, meets]
    · next apart => simp [apart]

/-- A chunk of the dataset is needed when it meets the selection. -/
theorem isNeeded_eq (ranked : ∀ record ∈ chunks, record.offset.length = rank) (dims : chunkShape.length = rank)
    (start : slab.start.length = rank) (count : slab.count.length = rank) (address : Nat) :
    isNeeded chunkShape slab rank address chunks = .ok (chunks.any fun record =>
      record.address = address && intersects record.offset chunkShape slab.start slab.count) := by
  induction chunks with
  | nil => rfl
  | cons record chunks ih =>
    obtain ⟨here, others⟩ := List.forall_mem_cons.mp ranked
    rw [isNeeded, List.any_cons, ih others, intersectsOn_eq here dims start count]
    by_cases same : record.address = address
    · rw [if_pos same, Outcome.ok_bind]
      cases intersects record.offset chunkShape slab.start slab.count <;> simp [same]
    · rw [if_neg same]
      simp [same]

theorem isNeeded_of_mem (distinct : Distinct chunks) (ranked : ∀ record ∈ chunks, record.offset.length = rank)
    (dims : chunkShape.length = rank) (start : slab.start.length = rank) (count : slab.count.length = rank)
    {record : ChunkRecord} (member : record ∈ chunks) :
    isNeeded chunkShape slab rank record.address chunks =
      .ok (intersects record.offset chunkShape slab.start slab.count) := by
  rw [isNeeded_eq ranked dims start count]
  congr 1
  rw [Bool.eq_iff_iff, List.any_eq_true]
  constructor
  · rintro ⟨other, among, both⟩
    simp only [Bool.and_eq_true, decide_eq_true_eq] at both
    rw [← distinct.eq among member both.1]
    exact both.2
  · intro meets
    exact ⟨record, member, by simp [meets]⟩

theorem neededChunks_eq (ranked : ∀ record ∈ chunks, record.offset.length = rank) :
    neededChunks chunks chunkShape slab rank = .ok (touchedChunks chunks chunkShape slab rank) := by
  have none : ¬ (chunks.any fun record => record.offset.length ≠ rank) = true := by
    rw [List.any_eq_true]
    rintro ⟨record, member, wrong⟩
    exact absurd (ranked record member) (by simpa using wrong)
  rw [neededChunks, if_neg none, touchedChunks]
  congr 2
  refine List.filter_congr fun indexed member => ?_
  have among := ranked indexed.1 (List.fst_mem_of_mem_zipIdx member)
  simp [among]

theorem overlap_eq : ∀ {offset widths start count : List Nat} {part : List (Nat × Nat)},
    clip offset widths start count = some part → overlap offset widths start count = part
  | offset :: offsets, width :: widths, s :: start, c :: count, part, found => by
    unfold clip at found
    dsimp only at found
    split at found
    · cases found
    · obtain ⟨rest, later, rfl⟩ := Option.map_eq_some_iff.mp found
      rw [overlap, overlap_eq later]
  | [], _, _, _, part, found => by cases found; rfl
  | _ :: _, [], _, _, part, found => by cases found; rfl
  | _ :: _, _ :: _, [], _, part, found => by cases found; rfl
  | _ :: _, _ :: _, _ :: _, [], part, found => by cases found; rfl

end Touched

section Holding

/-- What is held of the chunks is as it is decoded. -/
def Entries (plain : ChunkRecord → Code Bytes) (chunks : List ChunkRecord) (caches : Caches) : Prop :=
  ∀ cache, caches.chunk = some cache → cache.inner.Sound fun address bytes =>
    ∀ record ∈ chunks, record.address = address → plain record = .ok bytes

/-- The cache holds an entry until the call after the next so many. -/
def Held (caches : Caches) (address calls : Nat) : Prop :=
  ∃ cache, caches.chunk = some cache ∧ cache.inner.Lasts address calls

/-- Some calls on the cache, if there is one, none of which stores anything at an address. -/
def Passed (address calls : Nat) (before after : Caches) : Prop :=
  Option.Rel (fun first second => EvictingMap.Passed address calls first.inner second.inner)
    before.chunk after.chunk

theorem Passed.held {address calls later : Nat} {before after : Caches}
    (passed : Passed address calls before after) :
    Held after address later ↔ Held before address (calls + later) := by
  unfold Passed at passed
  unfold Held
  generalize before.chunk = one at passed
  generalize after.chunk = other at passed
  cases passed with
  | some passed => simpa using passed.lasts
  | none => simp

theorem Passed.trans {address one other : Nat} {before middle after : Caches}
    (first : Passed address one before middle)
    (second : Passed address other middle after) : Passed address (one + other) before after := by
  unfold Passed at *
  generalize before.chunk = a at *
  generalize middle.chunk = b at *
  generalize after.chunk = c at *
  cases first with
  | some first =>
    cases second with
    | some second => exact .some (first.trans second)
  | none =>
    cases second with
    | none => exact .none

theorem Passed.of_eq {address : Nat} {before after : Caches} (same : after.chunk = before.chunk) :
    Passed address 0 before after := by
  unfold Passed
  rw [same]
  cases before.chunk with
  | none => exact .none
  | some cache => exact .some (.refl cache.inner address)

end Holding

section Gathering

/-- How far a read looks ahead. -/
def lookahead (caches : Caches) : Nat := (caches.chunk.map ChunkCache.readahead).getD 0

/-- The stored chunks that an asynchronous read looks at before it fetches any. -/
def lookedAt (build : Build) (chunks : List ChunkRecord) (caches : Caches) (needed : List Nat) (last : Nat) :
    List ChunkRecord :=
  match prefetchCandidates build chunks.length (lookahead caches) last needed with
  | .ok candidates => (candidates.filterMap fun i => chunks[i]?).filter fun record => record.size ≠ 0
  | _ => []

def fetchedBatch (build : Build) (chunks : List ChunkRecord) (caches : Caches)
    (needed : List Nat) (last : Nat) :
    List ChunkRecord :=
  match caches.chunk with
  | some cache => batch build chunks cache needed last
  | none => lookedAt build chunks caches needed last

theorem uncached_passed (records : List ChunkRecord) (address : Nat) : ∀ cache : ChunkCache,
    EvictingMap.Passed address (records.filter fun record => record.size ≠ 0).length cache.inner
      (uncached records cache).2.inner := by
  induction records with
  | nil => exact fun cache => .refl cache.inner address
  | cons record records ih =>
    intro cache
    by_cases empty : record.size = 0
    · simp only [uncached, List.filter_cons, empty, ne_eq, not_true_eq_false, decide_false,
        Bool.false_eq_true, if_false]
      exact ih cache
    · have settled := (EvictingMap.Passed.settle cache.inner address).trans
        (ih { cache with inner := (cache.inner.containsKey record.address).2 })
      rw [Nat.add_comm] at settled
      simp only [List.filter_cons, empty, ne_eq, not_false_eq_true, decide_true, if_true, List.length_cons]
      cases held : (cache.inner.containsKey record.address).1 with
      | true =>
        simp only [uncached, if_neg empty, held, if_true]
        exact settled
      | false =>
        obtain ⟨wanted, after, asked, -⟩ := @uncached_spec (fun _ _ => True) records
          { cache with inner := (cache.inner.containsKey record.address).2 }
        simp only [uncached, if_neg empty, held, Bool.false_eq_true, if_false]
        rw [Session.bind_ok asked]
        rw [asked] at settled
        exact settled

/-- The read-ahead can be worked out when its end is a word in builds that check it. -/
theorem prefetchCandidates_isOk {count ahead last : Nat} {needed : List Nat} :
    (∃ candidates, prefetchCandidates build count ahead last needed = .ok candidates) ↔
      (build = .debug → last + 1 + ahead < wordSize) := by
  unfold prefetchCandidates Build.add
  constructor
  · rintro ⟨candidates, planned⟩ rfl
    obtain ⟨reach, word, -⟩ := Outcome.bind_eq_ok.mp planned
    by_contra large
    rw [Build.word_debug_of_le (Nat.not_lt.mp large)] at word
    cases word
  · intro reach
    rcases word : (build.word (last + 1 + ahead) : Code Nat) with stop | e | p
    · exact ⟨_, rfl⟩
    · exact absurd word (Build.word_ne_error _ _ _)
    · obtain ⟨checked, large, -⟩ := Build.word_eq_panic.mp word
      exact absurd (reach checked) (Nat.not_lt.mpr large)

theorem gatherWanted_eq {needed : List Nat} {last : Nat} (end_ : needed.getLast? = some last) :
    gatherWanted build chunks needed caches =
      (Session.lift (prefetchCandidates build chunks.length (lookahead caches) last needed) >>=
      fun candidates =>
        wantedChunks (candidates.filterMap fun i => chunks[i]?)) caches := by
  unfold gatherWanted
  rw [end_]
  rfl

theorem reach_of_gathered {needed : List Nat} {last : Nat} (end_ : needed.getLast? = some last)
    {wanted : List ChunkRecord} {after : Caches}
    (gathered : gatherWanted build chunks needed caches = (.ok wanted, after)) :
    build = .debug → last + 1 + lookahead caches < wordSize := by
  rw [gatherWanted_eq end_] at gathered
  obtain ⟨candidates, _, planned, -⟩ := Session.bind_eq_ok.mp gathered
  exact prefetchCandidates_isOk.mp ⟨candidates, (Session.lift_eq_ok.mp planned).1⟩

/-- What is gathered, and what the calls it takes leave of the cache. -/
theorem gatherWanted_spec {needed : List Nat} {last : Nat} (end_ : needed.getLast? = some last)
    (entries : Entries plain chunks caches) (reach : build = .debug → last + 1 + lookahead caches < wordSize) :
    ∃ after, gatherWanted build chunks needed caches =
      (.ok (fetchedBatch build chunks caches needed last), after) ∧
      after.io = caches.io ∧ Entries plain chunks after ∧
      ∀ address, Passed address (lookedAt build chunks caches needed last).length caches after := by
  obtain ⟨candidates, planned⟩ :=
    @prefetchCandidates_isOk build chunks.length (lookahead caches) last needed |>.mpr reach
  have looked : lookedAt build chunks caches needed last =
      (candidates.filterMap fun i => chunks[i]?).filter fun record => record.size ≠ 0 := by
    simp only [lookedAt, planned]
  rw [gatherWanted_eq end_, planned, Session.bind_lift_ok]
  unfold wantedChunks onChunkCache
  cases held : caches.chunk with
  | none =>
    refine ⟨caches, ?_, rfl, entries, fun address => ?_⟩
    · simp only [fetchedBatch, held, looked]
    · unfold Passed
      rw [held]
      exact .none
  | some cache =>
    have ahead : lookahead caches = cache.readahead := by
      rw [lookahead, held]
      rfl
    obtain ⟨wanted, after, asked, -, kept⟩ := @uncached_spec (fun address bytes => ∀ record ∈ chunks,
      record.address = address → plain record = .ok bytes) (candidates.filterMap fun i => chunks[i]?) cache
    have passed (address : Nat) := uncached_passed (candidates.filterMap fun i => chunks[i]?) address cache
    rw [asked] at passed
    dsimp only
    rw [asked]
    refine ⟨{ caches with chunk := some after }, ?_, rfl, ?_, fun address => ?_⟩
    · simp only [fetchedBatch, held, batch, ← ahead, planned, asked]
    · intro later same
      cases same
      exact kept (entries cache held)
    · unfold Passed
      rw [held, looked]
      exact .some (passed address)

end Gathering

section Decoding

/-- What was fetched of the chunks is as it is decoded. -/
def Table (plain : ChunkRecord → Code Bytes) (chunks : List ChunkRecord)
    (fetched : List (Nat × Bytes)) : Prop :=
  ∀ address bytes, fetched.lookup address = some bytes →
    ∀ record ∈ chunks, record.address = address → plain record = .ok bytes

/-- A chunk of the batch does not fail the read. -/
def Harmless (plain : ChunkRecord → Code Bytes) (chunkShape : List Nat) (slab : Hyperslab)
    (record : ChunkRecord) :
    Prop :=
  ¬ (plain record).Panics ∧
    ∀ e, plain record = .error e → intersects record.offset chunkShape slab.start slab.count = false

/-- The addresses of those of some chunks that decode. -/
def decodedOf (plain : ChunkRecord → Code Bytes) (records : List ChunkRecord) : List ChunkRecord :=
  records.filter fun record => (plain record).isOk

theorem insert_spec (distinct : Distinct chunks) {record : ChunkRecord} (member : record ∈ chunks)
    {bytes : Bytes} (decoded : plain record = .ok bytes) (entries : Entries plain chunks caches) :
    ∃ after, onChunkCache () (Session.modify fun cache =>
        { cache with inner := cache.inner.insert record.address bytes }) caches = (.ok (), after) ∧
      Entries plain chunks after ∧ ∀ address ≠ record.address, Passed address 1 caches after := by
  unfold onChunkCache Passed
  cases held : caches.chunk with
  | none => exact ⟨caches, rfl, entries, fun _ _ => by rw [held]; exact .none⟩
  | some cache =>
    refine ⟨_, rfl, fun later same => ?_, fun address apart => .some (.insert cache.inner apart bytes)⟩
    cases same
    refine (entries cache held).insert fun other among same => ?_
    rw [distinct.eq among member same, decoded]

theorem Table.cons (distinct : Distinct chunks) {fetched : List (Nat × Bytes)}
    (table : Table plain chunks fetched)
    {record : ChunkRecord} (member : record ∈ chunks) {bytes : Bytes} (decoded : plain record = .ok bytes) :
    Table plain chunks ((record.address, bytes) :: fetched) := by
  intro address found looked other among same
  rw [List.lookup_cons] at looked
  by_cases here : address = record.address
  · rw [beq_iff_eq.mpr here] at looked
    cases looked
    rw [distinct.eq among member (same.trans here), decoded]
  · rw [beq_eq_false_iff_ne.mpr here] at looked
    exact table address found looked other among same

variable (distinct : Distinct chunks) (ranked : ∀ record ∈ chunks, record.offset.length = dataset.shape.length)
  (dims : chunkShape.length = dataset.shape.length) (start : slab.start.length = dataset.shape.length)
  (count : slab.count.length = dataset.shape.length)

include distinct ranked dims start count

/-- A batch without harm is decoded: what decodes is in the table, and the cache has made one call for each. -/
theorem decodeWanted_spec : ∀ (pairs : List (ChunkRecord × Bytes)) {fetched : List (Nat × Bytes)}
    {caches : Caches},
    (∀ pair ∈ pairs, pair.1 ∈ chunks ∧
      plain pair.1 = Filters.decodeChunk build codecs dataset.pipeline pair.1.filterMask pair.2 decodedLen) →
    Entries plain chunks caches → Table plain chunks fetched →
    (∀ pair ∈ pairs, Harmless plain chunkShape slab pair.1) →
    ∃ table after,
      decodeWanted build codecs dataset chunks chunkShape slab decodedLen pairs fetched caches =
      (.ok table, after) ∧
      Entries plain chunks after ∧ Table plain chunks table ∧
      (∀ address, (table.lookup address).isSome ↔ (fetched.lookup address).isSome ∨
        ∃ record ∈ decodedOf plain (pairs.map Prod.fst), record.address = address) ∧
      ∀ address, (∀ pair ∈ pairs, address ≠ pair.1.address) →
        Passed address (decodedOf plain (pairs.map Prod.fst)).length caches after := by
  intro pairs
  induction pairs with
  | nil =>
    intro fetched caches _ entries table _
    exact ⟨fetched, caches, rfl, entries, table, by simp [decodedOf], fun address _ => .of_eq rfl⟩
  | cons pair pairs ih =>
    obtain ⟨record, raw⟩ := pair
    intro fetched caches known entries table harmless
    obtain ⟨⟨member, same⟩, others⟩ := List.forall_mem_cons.mp known
    obtain ⟨here, rest⟩ := List.forall_mem_cons.mp harmless
    dsimp only at member same here
    unfold decodeWanted
    rw [← same]
    cases decoded : plain record with
    | ok bytes =>
      obtain ⟨middle, inserted, kept, passed⟩ := insert_spec distinct member decoded entries
      obtain ⟨last, after, done, keptLater, tableLater, holds, passedLater⟩ :=
        ih others kept (table.cons distinct member decoded) rest
      have some_ : decodedOf plain (((record, raw) :: pairs).map Prod.fst) =
          record :: decodedOf plain (pairs.map Prod.fst) := by
        simp [decodedOf, decoded, Outcome.isOk]
      refine ⟨last, after, (Session.bind_ok inserted).trans done, keptLater, tableLater, fun address => ?_,
        fun address apart => ?_⟩
      · rw [holds, some_, List.lookup_cons]
        by_cases found : address = record.address
        · simp [found]
        · rw [beq_eq_false_iff_ne.mpr found]
          simp [Ne.symm found]
      -- Each insertion is one more call, at another address.
      · obtain ⟨apartHere, apartLater⟩ := List.forall_mem_cons.mp apart
        rw [some_, List.length_cons, Nat.add_comm]
        exact (passed address apartHere).trans (passedLater address apartLater)
    | error e =>
      have none : decodedOf plain (((record, raw) :: pairs).map Prod.fst) =
        decodedOf plain (pairs.map Prod.fst) := by
        simp [decodedOf, decoded, Outcome.isOk]
      obtain ⟨last, after, done, keptLater, tableLater, holds, passedLater⟩ := ih others entries table rest
      dsimp only
      rw [isNeeded_of_mem distinct ranked dims start count member, here.2 e decoded, Session.bind_lift_ok,
        if_neg Bool.false_ne_true, none]
      exact ⟨last, after, done, keptLater, tableLater, holds,
        fun address apart => passedLater address (List.forall_mem_cons.mp apart).2⟩
    | panic p => exact absurd ⟨p, decoded⟩ here.1

/-- A batch that was decoded is without harm. -/
theorem harmless_of_decoded : ∀ (pairs : List (ChunkRecord × Bytes)) {fetched table : List (Nat × Bytes)}
    {caches after : Caches},
    (∀ pair ∈ pairs, pair.1 ∈ chunks ∧
      plain pair.1 = Filters.decodeChunk build codecs dataset.pipeline pair.1.filterMask pair.2 decodedLen) →
    decodeWanted build codecs dataset chunks chunkShape slab decodedLen pairs fetched caches =
      (.ok table, after) →
    ∀ pair ∈ pairs, Harmless plain chunkShape slab pair.1 := by
  intro pairs
  induction pairs with
  | nil => nofun
  | cons pair pairs ih =>
    obtain ⟨record, raw⟩ := pair
    intro fetched table caches after known done
    obtain ⟨⟨member, same⟩, others⟩ := List.forall_mem_cons.mp known
    dsimp only at member same
    unfold decodeWanted at done
    rw [← same] at done
    rw [List.forall_mem_cons]
    cases decoded : plain record with
    | ok bytes =>
      rw [decoded] at done
      obtain ⟨_, middle, -, done⟩ := Session.bind_eq_ok.mp done
      refine ⟨⟨?_, fun e failed => ?_⟩, ih others done⟩
      · rw [decoded]
        exact Outcome.not_panics_ok bytes
      · cases decoded.symm.trans failed
    | error e =>
      rw [decoded] at done
      dsimp only at done
      rw [isNeeded_of_mem distinct ranked dims start count member, Session.bind_lift_ok] at done
      cases meets : intersects record.offset chunkShape slab.start slab.count with
      | true =>
        rw [meets, if_pos rfl] at done
        cases done
      | false =>
        rw [meets, if_neg Bool.false_ne_true] at done
        refine ⟨⟨?_, fun _ _ => meets⟩, ih others done⟩
        rw [decoded]
        exact Outcome.not_panics_error e
    | panic p =>
      rw [decoded] at done
      cases done

end Decoding

section Looking

variable {chunkStrides dstStrides : List Nat} {fetched : List (Nat × Bytes)}

/-- A lookup finds what is held until then, as it is decoded. -/
theorem get_spec {record : ChunkRecord} (member : record ∈ chunks) (entries : Entries plain chunks caches) :
    ∃ hit after, onChunkCache none (Session.run fun cache =>
        let (found, inner) := cache.inner.get record.address
        (found, { cache with inner })) caches = (.ok hit, after) ∧
      (hit.isSome ↔ Held caches record.address 0) ∧ (∀ bytes, hit = some bytes → plain record = .ok bytes) ∧
      Entries plain chunks after ∧ ∀ address, Passed address 1 caches after := by
  unfold onChunkCache Held Passed
  cases held : caches.chunk with
  | none => exact ⟨none, caches, rfl, by simp, nofun, entries, fun _ => by rw [held]; exact .none⟩
  | some cache =>
    refine ⟨_, _, rfl, ?_, fun bytes found => ?_, fun later same => ?_, fun address =>
      .some (.settle cache.inner address)⟩
    · simp only [Option.some.injEq, exists_eq_left']
      exact EvictingMap.visible_isSome
    · exact (entries cache held).get_fst found record member rfl
    · cases same
      exact (entries cache held).get_snd record.address

/-- Each of some chunks is in the table, or still held when the copy comes to it. -/
def Found (fetched : List (Nat × Bytes)) (caches : Caches) (records : List ChunkRecord) : Prop :=
  ∀ place record, records[place]? = some record →
    (fetched.lookup record.address).isSome ∨ Held caches record.address place

theorem found_cons {record : ChunkRecord} {records : List ChunkRecord} {after : Caches}
    (passed : ∀ address, Passed address 1 caches after) :
    Found fetched caches (record :: records) ↔
      ((fetched.lookup record.address).isSome ∨ Held caches record.address 0) ∧
      Found fetched after records := by
  unfold Found
  constructor
  · intro all
    refine ⟨all 0 record rfl, fun place other here => ?_⟩
    rw [(passed other.address).held, Nat.add_comm]
    exact all (place + 1) other here
  · rintro ⟨first, later⟩ place other here
    cases place with
    | zero =>
      cases here
      exact first
    | succ place =>
      rw [Nat.add_comm, ← (passed other.address).held]
      exact later place other here

theorem hitOrFetched_eq_ok (table : Table plain chunks fetched) {record : ChunkRecord}
    (member : record ∈ chunks)
    {hit : Option Bytes} (true_ : ∀ bytes, hit = some bytes → plain record = .ok bytes) {decoded : Bytes} :
    hitOrFetched dataset fetched record hit = .ok decoded ↔
      ((fetched.lookup record.address).isSome ∨ hit.isSome) ∧ plain record = .ok decoded := by
  cases hit with
  | some bytes =>
    have known := true_ bytes rfl
    simp [hitOrFetched, known]
  | none =>
    rw [hitOrFetched, Outcome.ofOption_eq_ok]
    cases looked : fetched.lookup record.address with
    | none => simp
    | some bytes =>
      have known := table _ _ looked record member rfl
      simp [known]

/-- The copy succeeds when it finds all its chunks and would succeed with them as they are decoded. -/
theorem copyFetched_iff (table : Table plain chunks fetched) (records : List ChunkRecord) :
    (∀ record ∈ records, record ∈ chunks ∧
      (clip record.offset chunkShape slab.start slab.count).isSome) → ∀ {caches : Caches} (out last : Bytes),
    Entries plain chunks caches →
    ((copyFetched build dataset decodedLen chunkShape chunkStrides dstStrides slab dataset.elementSize fetched
        records out caches).1 = .ok last ↔
      Found fetched caches records ∧
        copyPlain build plain dataset decodedLen chunkShape chunkStrides dstStrides slab records out =
        .ok last) := by
  induction records with
  | nil =>
    intro _ caches out last _
    exact (and_iff_right (fun place record here => by simp at here)).symm
  | cons record records ih =>
    intro needed caches out last entries
    obtain ⟨⟨member, meets⟩, others⟩ := List.forall_mem_cons.mp needed
    obtain ⟨part, clipped⟩ := Option.isSome_iff_exists.mp meets
    obtain ⟨hit, after, looked, found, true_, kept, passed⟩ := get_spec member entries
    have copied (decoded : Bytes) :
        ((Session.lift (copyChunk build out decoded record chunkShape chunkStrides slab dstStrides
          dataset.elementSize) >>=
          copyFetched build dataset decodedLen chunkShape chunkStrides dstStrides slab
            dataset.elementSize fetched records) after).1 = .ok last ↔
        Found fetched after records ∧
          (chunkWrites build decoded record.offset part chunkStrides dstStrides slab
            dataset.elementSize >>= fun writes =>
            storeEach writes out >>=
              copyPlain build plain dataset decodedLen chunkShape chunkStrides dstStrides slab
                records) = .ok last := by
      rw [Session.fst_lift_bind, copyChunk, overlap_eq clipped, bind_assoc, Outcome.bind_eq_ok,
        Outcome.bind_eq_ok, ← exists_and_left]
      refine exists_congr fun writes => ?_
      rw [and_left_comm, Outcome.bind_eq_ok, Outcome.bind_eq_ok]
      refine and_congr_right fun _ => ?_
      rw [← exists_and_left]
      refine exists_congr fun middle => ?_
      rw [ih others middle last kept, and_left_comm]
    -- One turn of the loop, which is the same in both once the chunk is at hand.
    have turn (decoded : Bytes) :
        ((if decoded.length < decodedLen then
            Session.throw (shortChunk dataset record decoded.length decodedLen)
          else
            Session.lift (copyChunk build out decoded record chunkShape chunkStrides slab dstStrides
              dataset.elementSize) >>=
            copyFetched build dataset decodedLen chunkShape chunkStrides dstStrides slab
              dataset.elementSize fetched records : Session Caches Error Bytes) after).1 = .ok last ↔
        Found fetched after records ∧
          (if decoded.length < decodedLen then .error (shortChunk dataset record decoded.length decodedLen)
          else chunkWrites build decoded record.offset part chunkStrides dstStrides slab dataset.elementSize >>=
            fun writes => storeEach writes out >>=
              copyPlain build plain dataset decodedLen chunkShape chunkStrides dstStrides slab
                records) = .ok last := by
      split
      · exact ⟨nofun, nofun⟩
      · exact copied decoded
    rw [found_cons passed, ← found]
    simp only [copyFetched, copyPlain, clipped]
    rw [Session.bind_ok looked, Session.fst_lift_bind, Outcome.bind_eq_ok, Outcome.bind_eq_ok]
    simp only [hitOrFetched_eq_ok table member true_]
    constructor
    · rintro ⟨decoded, ⟨there, known⟩, done⟩
      obtain ⟨later, rest⟩ := (turn decoded).mp done
      exact ⟨⟨there, later⟩, decoded, known, rest⟩
    · rintro ⟨⟨there, later⟩, decoded, known, rest⟩
      exact ⟨decoded, ⟨there, known⟩, (turn decoded).mpr ⟨later, rest⟩⟩

end Looking

end Oxcdf.Read
