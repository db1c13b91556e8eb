import Oxcdf.Foundation.EvictingMap
import Oxcdf.Foundation.Paging
import Oxcdf.Foundation.Session
import Oxcdf.Source

/-! The two caches of an open file: decoded chunks, and pages of raw bytes.

Both may drop any entry between two calls. Whatever they drop, a read through
the page cache returns what the file holds, as long as the pages it holds are
the file's.
-/

set_option autoImplicit false

namespace Oxcdf

open Foundation Foundation.Buffer

/-- Decoded chunks by address. -/
structure ChunkCache where
  inner : EvictingMap Nat Bytes
  readahead : Nat

namespace ChunkCache

/-- Whether a chunk is already decoded and held. -/
def contains (cache : ChunkCache) (address : Nat) : Bool × ChunkCache :=
  let (held, inner) := cache.inner.containsKey address
  (held, { cache with inner })

def insert (cache : ChunkCache) (address : Nat) (bytes : Bytes) : ChunkCache :=
  { cache with inner := cache.inner.insert address bytes }

/-- A decoded chunk, if it is already held. -/
def get (cache : ChunkCache) (address : Nat) : Option Bytes × ChunkCache :=
  let (found, inner) := cache.inner.get address
  (found, { cache with inner })

end ChunkCache

/-- Raw bytes in pages of one positive size. -/
structure IoCache where
  pages : EvictingMap Nat Bytes
  pageSize : Nat
  positive : 0 < pageSize

namespace IoCache

def page (cache : IoCache) (index : Nat) : Option Bytes × IoCache :=
  let (found, pages) := cache.pages.get index
  (found, { cache with pages })

def putPage (cache : IoCache) (index : Nat) (bytes : Bytes) : IoCache :=
  { cache with pages := cache.pages.insert index bytes }

/-- Every page held is the file's. -/
def Sound (file : FileImage) (cache : IoCache) : Prop :=
  cache.pages.Sound fun index page => page = Paging.page file.bytes cache.pageSize index

/-- The page range a read touches, or `none` for an empty read. -/
def bounds (cache : IoCache) (size offset len : Nat) : Code (Option (Nat × Nat)) :=
  if len = 0 then .ok none
  else if saturatingAdd offset len > size then
    .error (.outOfBounds "cached read" offset len (size - offset))
  else .ok (some (offset / cache.pageSize, (offset + len - 1) / cache.pageSize))

/-- Whatever of the pages from `first` on is already held. -/
def cached (cache : IoCache) (first : Nat) : Nat → List (Option Bytes) × IoCache
  | 0 => ([], cache)
  | count + 1 =>
    let (found, cache) := cache.page first
    let (others, cache) := cached cache (first + 1) count
    (found :: others, cache)

/-- Runs of consecutive missing pages, as inclusive pairs of indices. The start of
the run being scanned is carried along. -/
def missingRuns : List (Option Bytes) → Nat → Option Nat → List (Nat × Nat)
  | [], index, some start => [(start, index - 1)]
  | [], _, none => []
  | none :: pages, index, none => missingRuns pages (index + 1) (some index)
  | some _ :: pages, index, some start => (start, index - 1) :: missingRuns pages (index + 1) none
  | _ :: pages, index, start => missingRuns pages (index + 1) start

/-- Byte extent of a run of pages, clamped to the end of the file. -/
def runExtent (cache : IoCache) (start stop size : Nat) : Nat × Nat :=
  let begin := start * cache.pageSize
  (begin, min ((stop + 1) * cache.pageSize) size - begin)

/-- Split a fetched run into pages and record them. -/
def storeRun (start first : Nat) (bytes : Bytes) :
    List Nat → List (Option Bytes) → IoCache → List (Option Bytes) × IoCache
  | [], pages, cache => (pages, cache)
  | index :: indices, pages, cache =>
    let at_ := (index - start) * cache.pageSize
    if bytes.length ≤ at_ then (pages, cache)
    else
      let page := slice bytes at_ (min cache.pageSize (bytes.length - at_))
      storeRun start first bytes indices (pages.set (index - first) (some page))
        (cache.putPage index page)

def lostPage : Error := .malformed "page cache lost a page it had just fetched"

/-- Append the part of a range that each page holds. -/
def gather (cache : IoCache) (offset len : Nat) : List (Option Bytes) → Nat → Bytes → Code Bytes
  | [], _, out => .ok out
  | none :: _, _, _ => .error lostPage
  | some page :: pages, index, out =>
    let pageStart := index * cache.pageSize
    let from_ := max offset pageStart
    let stop := min (offset + len) (pageStart + page.length)
    gather cache offset len pages (index + 1)
      (if from_ < stop then out ++ slice page (from_ - pageStart) (stop - from_) else out)

/-- Build the requested range out of the pages that hold it. -/
def assemble (cache : IoCache) (offset len first : Nat) (pages : List (Option Bytes)) : Code Bytes :=
  match pages with
  | [none] => .error lostPage
  | [some page] =>
    let at_ := offset - first * cache.pageSize
    if at_ + len > page.length then
      .error (.outOfBounds "cached read" offset len (page.length - at_))
    else .ok (slice page at_ len)
  | pages => do
    let out ← cache.gather offset len pages first []
    if out.length ≠ len then .error (.outOfBounds "cached read" offset len out.length)
    else .ok out

def fetchRuns (fetch : Nat → Nat → Code Bytes) (size first : Nat) :
    List (Nat × Nat) → List (Option Bytes) → IoCache → Outcome Error (List (Option Bytes)) × IoCache
  | [], pages, cache => (.ok pages, cache)
  | (start, stop) :: runs, pages, cache =>
    let (begin, want) := cache.runExtent start stop size
    match fetch begin want with
    | .ok bytes =>
      let (pages, cache) :=
        storeRun start first bytes (List.range' start (stop + 1 - start)) pages cache
      fetchRuns fetch size first runs pages cache
    | .error e => (.error e, cache)
    | .panic p => (.panic p, cache)

/-- Read a range, serving whatever is held. The synchronous `read` and the
asynchronous `read_async` differ in how a missing run is fetched. -/
def readThrough (fetch : Nat → Nat → Code Bytes) (size offset len : Nat) : Session IoCache Error Bytes :=
  fun cache =>
    match cache.bounds size offset len with
    | .ok none => (.ok [], cache)
    | .ok (some (first, last)) =>
      let (pages, cache) := cache.cached first (last + 1 - first)
      match fetchRuns fetch size first (missingRuns pages first none) pages cache with
      | (.ok pages, cache) => (cache.assemble offset len first pages, cache)
      | (.error e, cache) => (.error e, cache)
      | (.panic p, cache) => (.panic p, cache)
    | .error e => (.error e, cache)
    | .panic p => (.panic p, cache)

def read (source : ByteSource) (offset len : Nat) : Session IoCache Error Bytes :=
  readThrough source.readVec source.size offset len

def readAsync (source : AsyncByteSource) (offset len : Nat) : Session IoCache Error Bytes :=
  readThrough source.readAt source.size offset len

theorem page_snd_sound {file : FileImage} {cache : IoCache} (sound : cache.Sound file) (index : Nat) :
    (cache.page index).2.Sound file := EvictingMap.Sound.get_snd sound index

theorem page_fst_true {file : FileImage} {cache : IoCache} (sound : cache.Sound file) {index : Nat}
    {bytes : Bytes} (found : (cache.page index).1 = some bytes) :
    bytes = Paging.page file.bytes cache.pageSize index := EvictingMap.Sound.get_fst sound found

theorem putPage_sound {file : FileImage} {cache : IoCache} (sound : cache.Sound file) {index : Nat}
    {bytes : Bytes} (true_ : bytes = Paging.page file.bytes cache.pageSize index) :
    (cache.putPage index bytes).Sound file := EvictingMap.Sound.insert sound true_

section Through

variable {file : FileImage}

/-- The pages at hand from `first` on are the file's. -/
def TrueFrom (file : FileImage) (pageSize first : Nat) (pages : List (Option Bytes)) : Prop :=
  ∀ i bytes, pages[i]? = some (some bytes) → bytes = Paging.page file.bytes pageSize (first + i)

/-- The page at a place is at hand. -/
def Known (pages : List (Option Bytes)) (i : Nat) : Prop := ∃ bytes : Bytes, pages[i]? = some (some bytes)

theorem Known.set {pages : List (Option Bytes)} {i : Nat} (known : Known pages i) (place : Nat)
    (bytes : Bytes) : Known (pages.set place (some bytes)) i := by
  obtain ⟨found, here⟩ := known
  by_cases same : place = i
  · have bound := (List.getElem?_eq_some_iff.mp here).1
    exact ⟨bytes, by rw [same, List.getElem?_set_self bound]⟩
  · exact ⟨found, by rw [List.getElem?_set_ne same, here]⟩

theorem known_set_self {pages : List (Option Bytes)} {i : Nat} (bound : i < pages.length)
    (bytes : Bytes) : Known (pages.set i (some bytes)) i := ⟨bytes, List.getElem?_set_self bound⟩

theorem TrueFrom.set {pageSize first index : Nat} {pages : List (Option Bytes)} {bytes : Bytes}
    (before : TrueFrom file pageSize first pages) (above : first ≤ index)
    (fresh : bytes = Paging.page file.bytes pageSize index) :
    TrueFrom file pageSize first (pages.set (index - first) (some bytes)) := by
  intro i found member
  rw [List.getElem?_set] at member
  split at member
  · next here =>
    subst here
    split at member
    · simp only [Option.some.injEq] at member
      rw [← member, fresh, Nat.add_sub_cancel' above]
    · cases member
  · exact before i found member

theorem cached_spec (count : Nat) : ∀ {cache : IoCache} {first : Nat}, cache.Sound file →
    (cache.cached first count).1.length = count ∧
      TrueFrom file cache.pageSize first (cache.cached first count).1 ∧
      (cache.cached first count).2.Sound file ∧
      (cache.cached first count).2.pageSize = cache.pageSize := by
  induction count with
  | zero =>
    intro cache first sound
    exact ⟨rfl, fun i bytes member => by simp [cached] at member, sound, rfl⟩
  | succ count ih =>
    intro cache first sound
    obtain ⟨length, rest, kept, size⟩ := @ih (cache.page first).2 (first + 1) (page_snd_sound sound first)
    refine ⟨congrArg (· + 1) length, fun i bytes member => ?_, kept, size⟩
    cases i with
    | zero => exact page_fst_true sound (by simpa [cached] using member)
    | succ i =>
      have later := rest i bytes (by simpa [cached] using member)
      rw [Nat.add_right_comm, Nat.add_assoc] at later
      exact later

/-- A run lies in the pages looked at; the open one begins where it was opened. -/
theorem missingRuns_within {pages : List (Option Bytes)} {index : Nat} {start : Option Nat}
    (before : ∀ s, start = some s → s < index) :
    ∀ run ∈ missingRuns pages index start,
      start.getD index ≤ run.1 ∧ run.1 ≤ run.2 ∧ run.2 < index + pages.length := by
  intro run member
  fun_induction missingRuns pages index start with
  | case1 index start =>
    have := before start rfl
    rw [List.mem_singleton.mp member]
    simp only [Option.getD_some, List.length_nil]
    omega
  | case2 => simp at member
  | case3 pages index ih =>
    have := ih (by simp) member
    simp only [Option.getD_some, List.length_cons, Option.getD_none] at this ⊢
    omega
  | case4 page pages index start ih =>
    have := before start rfl
    rcases List.mem_cons.mp member with rfl | member
    · simp only [Option.getD_some, List.length_cons]
      omega
    · have := ih (by simp) member
      simp only [Option.getD_some, List.length_cons, Option.getD_none] at this ⊢
      omega
  | case5 page pages index start _ _ ih =>
    have := ih (fun s same => Nat.lt_succ_of_lt (before s same)) member
    cases start with
    | none =>
      simp only [Option.getD_none, List.length_cons] at this ⊢
      omega
    | some s =>
      simp only [Option.getD_some, List.length_cons] at this ⊢
      omega

/-- An open run is given out where it began, and holds the pages up to the next one. -/
theorem missingRuns_open {pages : List (Option Bytes)} {index s : Nat} :
    ∃ run ∈ missingRuns pages index (some s), run.1 = s ∧ index - 1 ≤ run.2 := by
  induction pages generalizing index with
  | nil => exact ⟨_, List.mem_singleton.mpr rfl, rfl, le_refl _⟩
  | cons page pages ih =>
    cases page with
    | none =>
      obtain ⟨run, member, first, reach⟩ := @ih (index + 1)
      exact ⟨run, member, first, by omega⟩
    | some => exact ⟨_, List.mem_cons_self, rfl, le_refl _⟩

/-- Every page that is not there lies in a run. -/
theorem missingRuns_covers {pages : List (Option Bytes)} {index : Nat} {start : Option Nat} {i : Nat}
    (before : ∀ s, start = some s → s < index) (missing : pages[i]? = some none) :
    ∃ run ∈ missingRuns pages index start, run.1 ≤ index + i ∧ index + i ≤ run.2 := by
  fun_induction missingRuns pages index start generalizing i with
  | case1 | case2 => simp at missing
  | case3 pages index ih =>
    cases i with
    | zero =>
      obtain ⟨run, member, first, reach⟩ := @missingRuns_open pages (index + 1) index
      exact ⟨run, member, by omega, by omega⟩
    | succ i =>
      obtain ⟨run, member, low, high⟩ := ih (by simp) (by simpa using missing)
      exact ⟨run, member, by omega, by omega⟩
  | case4 page pages index start ih =>
    cases i with
    | zero => simp at missing
    | succ i =>
      obtain ⟨run, member, low, high⟩ := ih (by simp) (by simpa using missing)
      exact ⟨run, List.mem_cons_of_mem _ member, by omega, by omega⟩
  | case5 page pages index start closed _ ih =>
    cases i with
    | zero =>
      obtain rfl : page = none := by simpa using missing
      cases start with
      | none => exact absurd rfl (closed rfl)
      | some s =>
        have := before s rfl
        obtain ⟨run, member, first, reach⟩ := @missingRuns_open pages (index + 1) s
        exact ⟨run, member, by omega, by omega⟩
    | succ i =>
      obtain ⟨run, member, low, high⟩ :=
        ih (fun s same => Nat.lt_succ_of_lt (before s same)) (by simpa using missing)
      exact ⟨run, member, by omega, by omega⟩

/-- Recording a fetched run puts the file's page at each index of the run and
changes no other. -/
theorem storeRun_spec {start stop first : Nat} (above : first ≤ start) : ∀ (count index : Nat)
    {pages : List (Option Bytes)} {cache : IoCache}, cache.Sound file →
    stop * cache.pageSize < file.size → TrueFrom file cache.pageSize first pages →
    start ≤ index → index + count ≤ stop + 1 →
    let bytes := file.part (start * cache.pageSize)
      (Paging.runLength file.size cache.pageSize start stop)
    let stored := storeRun start first bytes (List.range' index count) pages cache
    stored.2.Sound file ∧ stored.2.pageSize = cache.pageSize ∧
      TrueFrom file cache.pageSize first stored.1 ∧ stored.1.length = pages.length ∧
      (∀ i, Known pages i → Known stored.1 i) ∧
      (∀ i, i < pages.length → index ≤ first + i → first + i < index + count → Known stored.1 i)
  | 0, index, pages, cache, sound, _, before, _, _ =>
    ⟨sound, rfl, before, rfl, fun _ known => known, fun i _ low high => by omega⟩
  | count + 1, index, pages, cache, sound, inside, before, low, high => by
    have order : start * cache.pageSize ≤ index * cache.pageSize := Nat.mul_le_mul_right _ low
    have last : index * cache.pageSize ≤ stop * cache.pageSize := Nat.mul_le_mul_right _ (by omega)
    have width : (stop + 1) * cache.pageSize = stop * cache.pageSize + cache.pageSize := Nat.succ_mul _ _
    have place : (index - start) * cache.pageSize = index * cache.pageSize - start * cache.pageSize :=
      Nat.sub_mul _ _ _
    have long : (file.part (start * cache.pageSize)
        (Paging.runLength file.size cache.pageSize start stop)).length =
          Paging.runLength file.size cache.pageSize start stop :=
      Paging.length_of_run file.bytes stop (by have := inside; unfold FileImage.size at this; omega)
    have piece := @Paging.page_of_run _ file.bytes cache.pageSize start stop (index - start) (by omega)
    rw [Nat.add_sub_cancel' low] at piece
    set bytes := file.part (start * cache.pageSize)
      (Paging.runLength file.size cache.pageSize start stop) with bytesEq
    -- The run reaches into this page, so the loop does not stop here.
    have room : ¬ bytes.length ≤ (index - start) * cache.pageSize := by
      rw [long, place]
      unfold Paging.runLength
      have := cache.positive
      omega
    have fresh : slice bytes ((index - start) * cache.pageSize)
        (min cache.pageSize (bytes.length - (index - start) * cache.pageSize)) =
          Paging.page file.bytes cache.pageSize index := by
      rw [Paging.slice_clamp]
      exact piece
    have step : storeRun start first bytes (List.range' index (count + 1)) pages cache =
        storeRun start first bytes (List.range' (index + 1) count)
          (pages.set (index - first) (some (Paging.page file.bytes cache.pageSize index)))
          (cache.putPage index (Paging.page file.bytes cache.pageSize index)) := by
      rw [List.range'_succ, storeRun, if_neg room, fresh]
    have soundNow : (cache.putPage index (Paging.page file.bytes cache.pageSize index)).Sound file :=
      putPage_sound sound rfl
    have heldNow : TrueFrom file cache.pageSize first
        (pages.set (index - first) (some (Paging.page file.bytes cache.pageSize index))) :=
      before.set (above.trans low) rfl
    obtain ⟨kept, size, held, length, old, new⟩ := storeRun_spec above count (index + 1)
      soundNow inside heldNow (by omega) (by omega)
    simp only [step]
    refine ⟨kept, size, held, length.trans List.length_set, fun i known => ?_, fun i bound l h => ?_⟩
    · exact old i (known.set _ _)
    -- A place of the run is filled now, or by a later turn.
    · rcases Nat.lt_or_ge index (first + i) with later | here
      · exact new i (by rw [List.length_set]; exact bound) (by omega) (by omega)
      · have same : index - first = i := by omega
        exact old i (by rw [same]; exact known_set_self bound _)

/-- Fetching every missing run leaves the file's page at each place. -/
theorem fetchRuns_spec {fetch : Nat → Nat → Code Bytes}
    (serves : ∀ offset len, file.Holds offset len → fetch offset len = .ok (file.part offset len))
    {first : Nat} : ∀ (runs : List (Nat × Nat)) {pages : List (Option Bytes)} {cache : IoCache},
    cache.Sound file → TrueFrom file cache.pageSize first pages →
    (∀ run ∈ runs, first ≤ run.1 ∧ run.1 ≤ run.2 ∧ run.2 * cache.pageSize < file.size) →
    ∃ filled later, fetchRuns fetch file.size first runs pages cache = (.ok filled, later) ∧
      later.Sound file ∧ later.pageSize = cache.pageSize ∧
      TrueFrom file cache.pageSize first filled ∧ filled.length = pages.length ∧
      ∀ i, i < pages.length →
        (Known pages i ∨ ∃ run ∈ runs, run.1 ≤ first + i ∧ first + i ≤ run.2) → Known filled i
  | [], pages, cache, sound, before, _ =>
    ⟨pages, cache, rfl, sound, rfl, before, rfl, fun i _ known => by simpa using known⟩
  | (start, stop) :: runs, pages, cache, sound, before, inside => by
    obtain ⟨above, order, fits⟩ := inside (start, stop) (by simp)
    simp only at above order fits
    have width : (stop + 1) * cache.pageSize = stop * cache.pageSize + cache.pageSize := Nat.succ_mul _ _
    have begins : start * cache.pageSize ≤ stop * cache.pageSize := Nat.mul_le_mul_right _ order
    have served := serves (start * cache.pageSize)
      (Paging.runLength file.size cache.pageSize start stop)
      (by unfold FileImage.Holds Paging.runLength; omega)
    obtain ⟨kept, size, held, length, old, new⟩ := storeRun_spec above (stop + 1 - start) start
      sound fits before (le_refl _) (by omega)
    obtain ⟨filled, later, done, keptLater, sizeLater, true_, long, known⟩ := fetchRuns_spec serves runs
      kept (by rw [size]; exact held)
      (by rw [size]; exact fun run member => inside run (by simp [member]))
    refine ⟨filled, later, ?_, keptLater, sizeLater.trans size, by rw [← size]; exact true_,
      long.trans length, fun i bound covered => ?_⟩
    · rw [fetchRuns]
      simp only [runExtent]
      rw [show min ((stop + 1) * cache.pageSize) file.size - start * cache.pageSize =
        Paging.runLength file.size cache.pageSize start stop from rfl, served]
      exact done
    · apply known i (by rw [length]; exact bound)
      rcases covered with here | ⟨run, member, low, high⟩
      · exact .inl (old i here)
      · rcases List.mem_cons.mp member with rfl | member
        · exact .inl (new i bound low (by simp only at low high ⊢; omega))
        · exact .inr ⟨run, member, low, high⟩

/-- Pages at hand at every place are the file's consecutive pages. -/
theorem eq_map_page {pageSize first : Nat} {pages : List (Option Bytes)}
    (true_ : TrueFrom file pageSize first pages) (known : ∀ i, i < pages.length → Known pages i) :
    pages = (List.range' first pages.length).map fun index =>
      some (Paging.page file.bytes pageSize index) := by
  apply List.ext_getElem?
  intro i
  rw [List.getElem?_map]
  by_cases bound : i < pages.length
  · obtain ⟨bytes, here⟩ := known i bound
    rw [here, List.getElem?_range' bound, true_ i bytes here, Nat.one_mul]
    rfl
  · rw [List.getElem?_eq_none (by omega), List.getElem?_eq_none (by simp; omega)]
    rfl

theorem gather_spec (cache : IoCache) {offset len : Nat} (held : file.Holds offset len) :
    ∀ (count index : Nat),
      cache.gather offset len
          ((List.range' index count).map fun i => some (Paging.page file.bytes cache.pageSize i)) index
          (Paging.between file.bytes offset (min (offset + len) (index * cache.pageSize))) =
        .ok (Paging.between file.bytes offset (min (offset + len) ((index + count) * cache.pageSize)))
  | 0, index => rfl
  | count + 1, index => by
    have width : (index + 1) * cache.pageSize = index * cache.pageSize + cache.pageSize := Nat.succ_mul _ _
    have long := Paging.page_length file.bytes cache.pageSize index
    have stop : min (offset + len) (index * cache.pageSize +
        (Paging.page file.bytes cache.pageSize index).length) =
          min (offset + len) ((index + 1) * cache.pageSize) := by
      unfold FileImage.Holds FileImage.size at held
      omega
    have next := Paging.between_portion file.bytes cache.pageSize offset len index
    rw [Paging.portion_eq_slice] at next
    rw [List.range'_succ, List.map_cons, gather, stop]
    have piece : (if max offset (index * cache.pageSize) < min (offset + len) ((index + 1) * cache.pageSize)
        then Paging.between file.bytes offset (min (offset + len) (index * cache.pageSize)) ++
          slice (Paging.page file.bytes cache.pageSize index)
            (max offset (index * cache.pageSize) - index * cache.pageSize)
            (min (offset + len) ((index + 1) * cache.pageSize) - max offset (index * cache.pageSize))
        else Paging.between file.bytes offset (min (offset + len) (index * cache.pageSize))) =
          Paging.between file.bytes offset (min (offset + len) ((index + 1) * cache.pageSize)) := by
      split
      · exact next
      · next empty =>
        rwa [Nat.sub_eq_zero_of_le (Nat.not_lt.mp empty), slice_zero, List.append_nil] at next
    rw [piece, gather_spec cache held count (index + 1), Nat.add_right_comm, Nat.add_assoc]

/-- The pages a range touches are put together to the range. -/
theorem assemble_spec (cache : IoCache) {offset len : Nat} (held : file.Holds offset len)
    (positive : 0 < len) :
    let first := offset / cache.pageSize
    let last := (offset + len - 1) / cache.pageSize
    cache.assemble offset len first
        ((List.range' first (last + 1 - first)).map fun i =>
          some (Paging.page file.bytes cache.pageSize i)) = .ok (file.part offset len) := by
  intro first last
  have size := cache.positive
  have begins : first * cache.pageSize ≤ offset := Nat.div_mul_le_self _ _
  have ends : offset + len ≤ (last + 1) * cache.pageSize := by
    have := Nat.lt_mul_div_succ (offset + len - 1) size
    rw [Nat.mul_comm] at this
    exact Nat.le_of_pred_lt this
  have order : first ≤ last := Nat.div_le_div_right (by omega)
  rcases Nat.eq_or_lt_of_le order with same | more
  · -- One page holds the whole range.
    have width : (first + 1) * cache.pageSize = first * cache.pageSize + cache.pageSize :=
      Nat.succ_mul _ _
    have long := Paging.page_length file.bytes cache.pageSize first
    rw [← same] at ends ⊢
    rw [Nat.add_sub_cancel_left]
    have room : ¬ offset - first * cache.pageSize + len >
        (Paging.page file.bytes cache.pageSize first).length := by
      unfold FileImage.Holds FileImage.size at held
      omega
    simp only [List.range'_one, List.map_cons, List.map_nil, assemble, if_neg room]
    rw [Paging.page, Paging.slice_slice _ (by omega), Nat.add_sub_cancel' begins]
    rfl
  · have joined := gather_spec cache held (last + 1 - first) first
    rw [Paging.between_of_le _ (by omega), show first + (last + 1 - first) = last + 1 by omega,
      Nat.min_eq_left ends] at joined
    have whole : Paging.between file.bytes offset (offset + len) = file.part offset len := by
      rw [Paging.between, Nat.add_sub_cancel_left]
      rfl
    have count : last + 1 - first = (last - first - 1) + 2 := by omega
    rw [whole] at joined
    rw [count, List.range'_succ, List.range'_succ] at joined ⊢
    simp only [List.map_cons, assemble] at joined ⊢
    rw [joined, Outcome.ok_bind, if_neg (not_not_intro (file.part_length held))]

/-- A read through the page cache is the file's range, whatever was held and
whatever gets dropped. -/
theorem readThrough_spec {fetch : Nat → Nat → Code Bytes}
    (serves : ∀ offset len, file.Holds offset len → fetch offset len = .ok (file.part offset len))
    (offset len : Nat) {cache : IoCache} (sound : cache.Sound file) :
    (readThrough fetch file.size offset len cache).1 =
        (if len = 0 then .ok []
        else if file.Holds offset len then .ok (file.part offset len)
        else .error (.outOfBounds "cached read" offset len (file.size - offset))) ∧
      (readThrough fetch file.size offset len cache).2.Sound file ∧
      (readThrough fetch file.size offset len cache).2.pageSize = cache.pageSize := by
  unfold readThrough bounds
  by_cases empty : len = 0
  · simp [empty, sound]
  by_cases held : file.Holds offset len
  · have beyond := mt (saturatingAdd_gt_size file).mp (not_not_intro held)
    simp only [empty, held, beyond, if_true, if_false]
    set first := offset / cache.pageSize
    set last := (offset + len - 1) / cache.pageSize with lastEq
    have reach : last * cache.pageSize < file.size := by
      have := Nat.div_mul_le_self (offset + len - 1) cache.pageSize
      rw [← lastEq] at this
      unfold FileImage.Holds at held
      omega
    have found := @cached_spec file (last + 1 - first) cache first sound
    rcases looked : cache.cached first (last + 1 - first) with ⟨pages, middle⟩
    rw [looked] at found
    obtain ⟨count, true_, kept, size⟩ := found
    simp only at count true_ kept size
    -- What is missing ends with the last page the read touches, and that begins in the file.
    obtain ⟨filled, later, done, keptLater, sizeLater, trueLater, long, known⟩ :=
      fetchRuns_spec serves (missingRuns pages first none) kept (by rw [size]; exact true_)
        (fun run member => by
          obtain ⟨above, order, below⟩ := missingRuns_within (by simp) run member
          have order' : run.2 * cache.pageSize ≤ last * cache.pageSize :=
            Nat.mul_le_mul_right _ (by simp only [Option.getD_none] at above; omega)
          refine ⟨above, order, ?_⟩
          rw [size]
          exact lt_of_le_of_lt order' reach)
    rw [size] at trueLater sizeLater
    -- Each page was in the cache or has been fetched.
    have pagesEq := eq_map_page trueLater fun i bound => by
      rw [long] at bound
      refine known i bound ?_
      rcases here : pages[i]? with _ | _ | bytes
      · rw [List.getElem?_eq_none_iff] at here
        omega
      · exact .inr (missingRuns_covers (by simp) here)
      · exact .inl ⟨bytes, here⟩
    rw [long, count] at pagesEq
    rw [done]
    refine ⟨?_, keptLater, sizeLater⟩
    have joined := assemble_spec later held (Nat.pos_of_ne_zero empty)
    simp only [sizeLater] at joined
    change later.assemble offset len first filled = _
    rw [pagesEq]
    exact joined
  · simp [empty, held, (saturatingAdd_gt_size file).mpr held, sound]

end Through

end IoCache

end Oxcdf
