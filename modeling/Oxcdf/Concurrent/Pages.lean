import Oxcdf.Concurrent
import Oxcdf.Read.Plain

/-! Concurrent reads through the page cache.

Readers agree that what the caches hold is the file's, and that a resolved chunk index
stays. Under this agreement a read returns the file's bytes, whatever others store and
drop between two of its lookups.
-/

set_option autoImplicit false

namespace Oxcdf

open Foundation Foundation.Buffer

variable {δ : Type}

/-- The same caches are there, of the same sizes. -/
structure Caches.Alike (own caches : Caches) : Prop where
  chunk : caches.chunk.map ChunkCache.readahead = own.chunk.map ChunkCache.readahead
  io : caches.io.map IoCache.pageSize = own.io.map IoCache.pageSize

namespace OpenFile

variable (build : Build) (file : OpenFile δ)

def image : FileImage := file.view.file

/-- The chunk index of a dataset, as it is in the file. -/
def resolved (dataset : δ) : Code (Option (List ChunkRecord)) :=
  (file.datasets dataset).resolveChunks build file.view

/-- What a chunk of a dataset decodes to, as it is read without a cache of chunks. -/
def chunkBytes (dataset : δ) (record : ChunkRecord) : Code Bytes :=
  Read.decodedChunk build (file.datasets dataset) file.ctx file.codecs file.image file.own.io.isSome record

/-- Some bytes are what every chunk at an address decodes to. -/
def Stored (address : Nat) (bytes : Bytes) : Prop :=
  ∀ dataset chunks, file.resolved build dataset = .ok (some chunks) → ∀ record ∈ chunks,
    record.address = address → file.chunkBytes build dataset record = .ok bytes

/-- The address alone identifies a chunk: two at one address decode alike. -/
def Identified : Prop :=
  ∀ first second chunks others, file.resolved build first = .ok (some chunks) →
    file.resolved build second = .ok (some others) → ∀ record ∈ chunks, ∀ other ∈ others,
    record.address = other.address → file.chunkBytes build first record = file.chunkBytes build second other

end OpenFile

/-- What is shared is the file's: pages, decoded chunks and chunk indexes. -/
structure Sharing.Sound (build : Build) (file : OpenFile δ) (sharing : Sharing δ) : Prop where
  alike : file.own.Alike sharing.caches
  pages : Read.PagesSound file.image sharing.caches
  chunks : ∀ cache, sharing.caches.chunk = some cache → cache.inner.Sound (file.Stored build)
  indexes : ∀ dataset resolved, sharing.indexes dataset = some resolved → file.resolved build dataset = .ok resolved

namespace Concurrent

open Thread

/-- What is shared is the file's, and a chunk index that is resolved stays. -/
def agreement (build : Build) (file : OpenFile δ) : Agreement (Sharing δ) where
  holds := Sharing.Sound build file
  moves before after := ∀ dataset resolved,
    before.indexes dataset = some resolved → after.indexes dataset = some resolved
  refl _ _ _ := id
  trans first second dataset resolved found := second dataset resolved (first dataset resolved found)

/-- What happens to the caches beside the readers: entries are dropped, walks over the metadata store pages
of the file, and asynchronous reads store what its chunks decode to. -/
structure Background (build : Build) (file : OpenFile δ) (before after : Sharing δ) : Prop where
  alike : before.caches.Alike after.caches
  pages : ∀ cache later, before.caches.io = some cache → after.caches.io = some later →
    ∀ index bytes, later.pages.held index = some bytes →
      cache.pages.held index = some bytes ∨ bytes = Paging.page file.image.bytes later.pageSize index
  chunks : ∀ cache later, before.caches.chunk = some cache → after.caches.chunk = some later →
    ∀ address bytes, later.inner.held address = some bytes →
      cache.inner.held address = some bytes ∨ file.Stored build address bytes
  indexes : after.indexes = before.indexes

variable {build : Build} {file : OpenFile δ}

theorem isSome_of_alike {α β : Type} {f : α → β} {first second : Option α} (same : first.map f = second.map f)
    {a : α} (found : first = some a) : ∃ b, second = some b ∧ f b = f a := by
  subst found
  cases second with
  | none => cases same
  | some b => exact ⟨b, rfl, (Option.some.inj same).symm⟩

theorem background_respects : Pool.Respects (agreement build file) (Background build file) := by
  intro before after sound changed
  constructor
  · intro dataset resolved found
    exact changed.indexes ▸ found
  · constructor
    · exact ⟨changed.alike.chunk.trans sound.alike.chunk, changed.alike.io.trans sound.alike.io⟩
    · intro later here index bytes found
      obtain ⟨cache, earlier, size⟩ := isSome_of_alike changed.alike.io here
      rcases changed.pages cache later earlier here index bytes found with old | fresh
      · rw [← size]
        exact sound.pages cache earlier index bytes old
      · exact fresh
    · intro later here address bytes found
      obtain ⟨cache, earlier, -⟩ := isSome_of_alike changed.alike.chunk here
      rcases changed.chunks cache later earlier here address bytes found with old | fresh
      · exact sound.chunks cache earlier address bytes old
      · exact fresh
    · intro dataset resolved found
      exact sound.indexes dataset resolved (changed.indexes ▸ found)

section Calls

/-- A step on the page cache that stores only pages of the file is one that the readers agree on. -/
theorem throughIo_kept {α : Type} {sharing : Sharing δ} (sound : sharing.Sound build file) {cache : IoCache}
    (here : sharing.caches.io = some cache) (step : Session IoCache Error α) (direct : Code α)
    (size : (step cache).2.pageSize = cache.pageSize) (held : (step cache).2.Sound file.image) :
    (Sharing.onCaches (Caches.throughIo step direct) sharing).1 = (step cache).1 ∧
      (agreement build file).moves sharing (Sharing.onCaches (Caches.throughIo step direct) sharing).2 ∧
      (agreement build file).holds (Sharing.onCaches (Caches.throughIo step direct) sharing).2 := by
  have done : Caches.throughIo step direct sharing.caches =
      ((step cache).1, { sharing.caches with io := some (step cache).2 }) := by
    simp [Caches.throughIo, here]
  have alike := sound.alike.io
  simp only [Sharing.onCaches, done]
  refine ⟨trivial, fun _ _ => id, ⟨sound.alike.chunk, ?_⟩, ?_, sound.chunks, sound.indexes⟩
  · simpa [here, size] using alike
  · intro later same
    cases same
    exact held

variable {self : IoCache} (paged : file.own.io = some self)

include paged

theorem paged_of_sound {sharing : Sharing δ} (sound : sharing.Sound build file) :
    ∃ cache, sharing.caches.io = some cache ∧ cache.pageSize = self.pageSize ∧ cache.Sound file.image := by
  obtain ⟨cache, here, size⟩ := isSome_of_alike sound.alike.io.symm paged
  exact ⟨cache, here, size, sound.pages cache here⟩

variable [DecidableEq δ]

/-- A page that is found is the file's. -/
theorem page_yields (index : Nat) :
    Dialogue.Yields Sharing.answer (agreement build file)
      (fun found => ∀ bytes, found = some bytes → bytes = Paging.page file.image.bytes self.pageSize index)
      (page index) := by
  refine fun seen => Dialogue.Safe.query (I := sharedCalls δ) fun sharing _ sound => ?_
  obtain ⟨cache, here, size, held⟩ := paged_of_sound paged sound
  obtain ⟨got, moves, holds⟩ := throughIo_kept sound here (Session.run fun cache => cache.page index) (.ok none)
    rfl (IoCache.page_snd_sound held index)
  refine ⟨moves, holds, (cache.page index).1, got, fun bytes found => ?_⟩
  rw [← size]
  exact IoCache.page_fst_true held found

theorem putPage_gives {proviso : Prop} {index : Nat} {bytes : Bytes}
    (true_ : bytes = Paging.page file.image.bytes self.pageSize index) :
    Dialogue.Gives Sharing.answer (agreement build file) proviso (.ok ()) (putPage index bytes) := by
  intro seen
  refine Dialogue.Safe.query (I := sharedCalls δ) fun sharing _ sound => ?_
  obtain ⟨cache, here, size, held⟩ := paged_of_sound paged sound
  obtain ⟨got, moves, holds⟩ := throughIo_kept sound here (Session.modify fun cache => cache.putPage index bytes)
    (.ok ()) rfl (IoCache.putPage_sound held (size ▸ true_))
  exact ⟨moves, holds, .inl got⟩

end Calls

section Sizes

/-- The arithmetic of a page cache depends on the size of a page alone. -/
theorem bounds_congr {first second : IoCache} (same : first.pageSize = second.pageSize) (size offset len : Nat) :
    first.bounds size offset len = second.bounds size offset len := by
  simp only [IoCache.bounds, same]

theorem runExtent_congr {first second : IoCache} (same : first.pageSize = second.pageSize)
    (start stop size : Nat) : first.runExtent start stop size = second.runExtent start stop size := by
  simp only [IoCache.runExtent, same]

theorem gather_congr {first second : IoCache} (same : first.pageSize = second.pageSize) (offset len : Nat)
    (pages : List (Option Bytes)) (index : Nat) (out : Bytes) :
    first.gather offset len pages index out = second.gather offset len pages index out := by
  induction pages generalizing index out with
  | nil => rfl
  | cons page pages ih =>
    cases page with
    | none => rfl
    | some page => simp only [IoCache.gather, same, ih]

theorem assemble_congr {first second : IoCache} (same : first.pageSize = second.pageSize)
    (offset len from_ : Nat) (pages : List (Option Bytes)) :
    first.assemble offset len from_ pages = second.assemble offset len from_ pages := by
  rcases pages with - | ⟨- | page, - | ⟨other, pages⟩⟩
  all_goals simp only [IoCache.assemble, same, gather_congr same]

end Sizes

section Through

variable [DecidableEq δ] {self : IoCache} (paged : file.own.io = some self)

/-- A cache that holds some pages from one on, and drops none. -/
def holding (self : IoCache) (first : Nat) (pages : List (Option Bytes)) (calls : Nat) : IoCache where
  pages := {
    held := fun index => if first ≤ index then pages[index - first]?.join else none
    keep := fun _ _ => true
    calls }
  pageSize := self.pageSize
  positive := self.positive

theorem page_holding (self : IoCache) (first : Nat) (pages : List (Option Bytes)) (calls k : Nat) :
    (holding self first pages calls).page (first + k) = (pages[k]?.join, holding self first pages (calls + 1)) := by
  have kept : (holding self first pages calls).pages.visible = (holding self first pages calls).pages.held := by
    funext index
    simp [EvictingMap.visible, holding]
  simp only [IoCache.page, EvictingMap.get, EvictingMap.settle, kept]
  simp [holding]

theorem cached_holding (self : IoCache) (first : Nat) (pages : List (Option Bytes)) (count : Nat) :
    ∀ calls k, count + k = pages.length →
      (holding self first pages calls).cached (first + k) count =
        (pages.drop k, holding self first pages (calls + count)) := by
  induction count with
  | zero =>
    intro calls k total
    simp [IoCache.cached, ← total]
  | succ count ih =>
    intro calls k total
    have room : k < pages.length := by omega
    have next := ih (calls + 1) (k + 1) (by omega)
    simp only [IoCache.cached, page_holding, Nat.add_assoc, next]
    rw [List.drop_eq_getElem_cons room, List.getElem?_eq_getElem room, Option.join_some]
    simp [Nat.add_comm 1]

theorem holding_sound {image : FileImage} {first : Nat} {pages : List (Option Bytes)}
    (true_ : IoCache.TrueFrom image self.pageSize first pages) (calls : Nat) :
    (holding self first pages calls).Sound image := by
  intro index bytes found
  change (if first ≤ index then pages[index - first]?.join else none) = some bytes at found
  split at found
  · next above =>
    have member : pages[index - first]? = some (some bytes) := Option.join_eq_some_iff.mp found
    have same := true_ (index - first) bytes member
    rwa [Nat.add_sub_cancel' above] at same
  · cases found

include paged

/-- The pages that are found are the file's. -/
theorem cached_yields (count : Nat) : ∀ first : Nat,
    Dialogue.Yields Sharing.answer (agreement build file)
      (fun pages => pages.length = count ∧ IoCache.TrueFrom file.image self.pageSize first pages)
      (cached first count) := by
  induction count with
  | zero => exact fun first => Dialogue.Yields.pure ⟨rfl, nofun⟩
  | succ count ih =>
    intro first
    refine (page_yields paged first).bind fun found here => (ih (first + 1)).bind fun others rest => ?_
    refine Dialogue.Yields.pure ⟨by simp [rest.1], fun i bytes member => ?_⟩
    cases i with
    | zero => exact here bytes (Option.some.inj member)
    | succ i =>
      have later := rest.2 i bytes (by simpa using member)
      rwa [Nat.add_right_comm] at later

omit paged [DecidableEq δ] in
/-- A page cut out of a run that was fetched is the file's. -/
theorem page_of_run {image : FileImage} {start stop index : Nat} (low : start ≤ index) (high : index ≤ stop)
    (inside : stop * self.pageSize < image.size) {bytes : Bytes} (fetched : bytes =
      image.part (start * self.pageSize) (Paging.runLength image.size self.pageSize start stop)) :
    ¬ bytes.length ≤ (index - start) * self.pageSize ∧
      slice bytes ((index - start) * self.pageSize)
          (min self.pageSize (bytes.length - (index - start) * self.pageSize)) =
        Paging.page image.bytes self.pageSize index := by
  have begins : start * self.pageSize ≤ stop * self.pageSize := Nat.mul_le_mul_right _ (low.trans high)
  have ends : index * self.pageSize ≤ stop * self.pageSize := Nat.mul_le_mul_right _ high
  have width : (stop + 1) * self.pageSize = stop * self.pageSize + self.pageSize := Nat.succ_mul _ _
  have place : (index - start) * self.pageSize = index * self.pageSize - start * self.pageSize :=
    Nat.sub_mul _ _ _
  have long : bytes.length = Paging.runLength image.size self.pageSize start stop := by
    subst fetched
    exact Paging.length_of_run image.bytes stop (by unfold FileImage.size at inside; omega)
  constructor
  · have := self.positive
    rw [long, place]
    unfold Paging.runLength
    omega
  · have piece := @Paging.page_of_run _ image.bytes self.pageSize start stop (index - start) (by omega)
    rw [Nat.add_sub_cancel' low] at piece
    rw [Paging.slice_clamp, ← piece, fetched]
    rfl

/-- The pages of a run that was fetched are stored, and put in their places. -/
theorem storeRun_gives {proviso : Prop} {start stop first : Nat} {bytes : Bytes}
    (inside : stop * self.pageSize < file.image.size) (fetched : bytes =
      file.image.part (start * self.pageSize) (Paging.runLength file.image.size self.pageSize start stop))
    (count : Nat) : ∀ (index : Nat) (pages : List (Option Bytes)) (cache : IoCache),
    cache.pageSize = self.pageSize → start ≤ index → index + count ≤ stop + 1 →
    Dialogue.Gives Sharing.answer (agreement build file) proviso
      (.ok (IoCache.storeRun start first bytes (List.range' index count) pages cache).1)
      (storeRun self start first bytes (List.range' index count) pages) ∧
    (IoCache.storeRun start first bytes (List.range' index count) pages cache).2.pageSize = self.pageSize := by
  induction count with
  | zero => exact fun index pages cache size _ _ => ⟨Dialogue.Gives.pure proviso pages, size⟩
  | succ count ih =>
    intro index pages cache size low high
    obtain ⟨room, true_⟩ := page_of_run low (by omega) inside fetched
    have later := ih (index + 1) (pages.set (index - first) (some (Paging.page file.image.bytes self.pageSize index)))
      (cache.putPage index (Paging.page file.image.bytes self.pageSize index)) size (by omega) (by omega)
    simp only [List.range'_succ, storeRun, IoCache.storeRun, size, if_neg room, true_]
    refine ⟨?_, later.2⟩
    exact (putPage_gives paged rfl).bind_ok later.1

/-- The missing runs are fetched one by one as they are by a reader that is alone. -/
theorem fetchRuns_gives {proviso : Prop} {fetch : Nat → Nat → Code Bytes}
    (serves : ∀ offset len, file.image.Holds offset len → fetch offset len = .ok (file.image.part offset len))
    {first : Nat} (runs : List (Nat × Nat)) : ∀ (pages : List (Option Bytes)) (cache : IoCache),
    cache.pageSize = self.pageSize →
    (∀ run ∈ runs, run.1 ≤ run.2 ∧ run.2 * self.pageSize < file.image.size) →
    Dialogue.Gives Sharing.answer (agreement build file) proviso
      (IoCache.fetchRuns fetch file.image.size first runs pages cache).1
      (fetchRuns self fetch file.image.size first runs pages) ∧
    (IoCache.fetchRuns fetch file.image.size first runs pages cache).2.pageSize = self.pageSize := by
  induction runs with
  | nil => exact fun pages cache size _ => ⟨Dialogue.Gives.pure proviso pages, size⟩
  | cons run runs ih =>
    obtain ⟨start, stop⟩ := run
    intro pages cache size inside
    obtain ⟨order, fits⟩ := inside (start, stop) (by simp)
    simp only at order fits
    have begins : start * self.pageSize ≤ stop * self.pageSize := Nat.mul_le_mul_right _ order
    have served := serves (start * self.pageSize) (Paging.runLength file.image.size self.pageSize start stop)
      (by unfold FileImage.Holds Paging.runLength; omega)
    obtain ⟨stores, sizeThen⟩ := @storeRun_gives δ build file _ self paged proviso start stop first _ fits rfl
      (stop + 1 - start) start pages cache size (le_refl _) (by omega)
    obtain ⟨rest, sizeLater⟩ := ih _ _ sizeThen fun run member => inside run (by simp [member])
    have want : min ((stop + 1) * self.pageSize) file.image.size - start * self.pageSize =
        Paging.runLength file.image.size self.pageSize start stop := rfl
    simp only [fetchRuns, IoCache.fetchRuns, IoCache.runExtent, size, want, served]
    refine ⟨?_, sizeLater⟩
    exact (Dialogue.Gives.lift proviso _).bind_ok (stores.bind_ok rest)

omit paged [DecidableEq δ] in
/-- What a reader does with the pages it found is what it does alone, over a cache that holds just these. -/
theorem readThrough_holding (self : IoCache) (fetch : Nat → Nat → Code Bytes) {size offset len first last : Nat}
    (asked : self.bounds size offset len = .ok (some (first, last))) {pages : List (Option Bytes)}
    (total : pages.length = last + 1 - first) :
    (IoCache.readThrough fetch size offset len (holding self first pages 0)).1 =
      let fetched := IoCache.fetchRuns fetch size first (IoCache.missingRuns pages first none) pages
        (holding self first pages (last + 1 - first))
      fetched.1 >>= fetched.2.assemble offset len first := by
  have found := cached_holding self first pages (last + 1 - first) 0 0 total.symm
  simp only [Nat.add_zero, List.drop_zero, Nat.zero_add] at found
  have touched : (holding self first pages 0).bounds size offset len = .ok (some (first, last)) := asked
  simp only [IoCache.readThrough, touched, found]
  cases IoCache.fetchRuns fetch size first (IoCache.missingRuns pages first none) pages
    (holding self first pages (last + 1 - first)) with | mk got cache
  cases got <;> rfl

/-- A read through the page cache returns what the file holds, in every interleaving. -/
theorem readThrough_gives {proviso : Prop} {fetch : Nat → Nat → Code Bytes}
    (serves : ∀ offset len, file.image.Holds offset len → fetch offset len = .ok (file.image.part offset len))
    (offset len : Nat) :
    Dialogue.Gives Sharing.answer (agreement build file) proviso (IoCache.outcome file.image offset len)
      (readThrough self fetch file.image.size offset len) := by
  unfold readThrough
  by_cases empty : len = 0
  · have asked : self.bounds file.image.size offset len = .ok none := if_pos empty
    have nothing : IoCache.outcome file.image offset len = .ok [] := if_pos empty
    rw [asked, nothing]
    exact (Dialogue.Gives.lift proviso _).bind_ok (Dialogue.Gives.pure proviso [])
  by_cases held : file.image.Holds offset len
  · have inside := mt (saturatingAdd_gt_size file.image).mp (not_not_intro held)
    have asked : self.bounds file.image.size offset len =
        .ok (some (offset / self.pageSize, (offset + len - 1) / self.pageSize)) := by
      rw [IoCache.bounds, if_neg empty, if_neg inside]
    have reach : (offset + len - 1) / self.pageSize * self.pageSize < file.image.size := by
      have := Nat.div_mul_le_self (offset + len - 1) self.pageSize
      unfold FileImage.Holds at held
      omega
    rw [asked]
    refine (Dialogue.Gives.lift proviso _).bind_ok ((cached_yields paged _ _).gives fun pages known => ?_)
    obtain ⟨fetches, size⟩ := @fetchRuns_gives δ build file _ self paged proviso fetch serves
      (offset / self.pageSize) (IoCache.missingRuns pages (offset / self.pageSize) none) pages
      (holding self (offset / self.pageSize) pages
        ((offset + len - 1) / self.pageSize + 1 - offset / self.pageSize)) rfl fun run member => by
          obtain ⟨above, order, below⟩ := IoCache.missingRuns_within (by simp) run member
          simp only [Option.getD_none, known.1] at above below
          exact ⟨order, lt_of_le_of_lt (Nat.mul_le_mul_right _ (by omega)) reach⟩
    have alone := (IoCache.readThrough_spec serves offset len (holding_sound known.2 0)).1
    rw [readThrough_holding self fetch asked known.1] at alone
    have same : IoCache.outcome file.image offset len = _ := alone.symm
    rw [same]
    refine fetches.bind fun filled _ => ?_
    rw [assemble_congr size]
    exact Dialogue.Gives.lift proviso _
  · have outside := (saturatingAdd_gt_size file.image).mpr held
    have asked : self.bounds file.image.size offset len =
        .error (.outOfBounds "cached read" offset len (file.image.size - offset)) := by
      rw [IoCache.bounds, if_neg empty, if_pos outside]
    rw [asked, IoCache.outcome_of_beyond (Nat.pos_of_ne_zero empty) held]
    exact (Dialogue.Gives.lift proviso _).bind_error

end Through

section Counting

/-- How many pages some runs are. -/
def width (runs : List (Nat × Nat)) : Nat := (runs.map fun run => run.2 + 1 - run.1).sum

variable (self : IoCache)

end Counting

end Concurrent

end Oxcdf
