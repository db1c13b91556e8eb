import Oxcdf.Cache
import Oxcdf.Foundation.SortedSet

/-! Asynchronous walks by replay.

A synchronous walk runs over the pages held in memory. A read outside them
records the pages it wants and fails with `Incomplete`; the driver fetches these
and runs the walk again, until it asks for nothing it lacks.
-/

set_option autoImplicit false

namespace Oxcdf

open Foundation Foundation.Buffer

/-- Stop a damaged or hostile file from looping forever. -/
def maxRounds : Nat := 64

/-- A byte source over the pages held in memory. -/
structure ReplaySource where
  size : Nat
  pageSize : Nat
  pages : Nat → Option Bytes

namespace ReplaySource

/-- The pages that reads asked for and did not find. -/
abbrev Wanted := SortedSet Nat

def new (size pageSize : Nat) (pages : Nat → Option Bytes) : ReplaySource :=
  { size, pageSize := max pageSize 1, pages }

variable (source : ReplaySource)

/-- The page range a read touches. -/
def span (offset len : Nat) : Nat × Nat :=
  (offset / source.pageSize, (offset + len - 1) / source.pageSize)

/-- The indices from the first to the last of a span. -/
def indices (offset len : Nat) : List Nat :=
  let (first, last) := source.span offset len
  List.range' first (last + 1 - first)

def shortPage (done len offset : Nat) : Error :=
  .malformed s!"a held page is short: filled {done} of {len} bytes at offset {offset}"

/-- Copy the pages of a span one after the other. -/
def fill (offset len : Nat) : List Nat → Bytes → Code Bytes
  | [], buf => if buf.length ≠ len then .error (shortPage buf.length len offset) else .ok buf
  | index :: rest, buf =>
    match source.pages index with
    | none => .panic .index
    | some page =>
      let pageStart := index * source.pageSize
      let from_ := max offset pageStart - pageStart
      if from_ ≥ page.length then
        if buf.length ≠ len then .error (shortPage buf.length len offset) else .ok buf
      else
        let take := min (len - buf.length) (page.length - from_)
        fill offset len rest (buf ++ slice page from_ take)

def readExactAt (offset len : Nat) : Session Wanted Error Bytes := fun wanted =>
  if len = 0 then (.ok [], wanted)
  else if saturatingAdd offset len > source.size then
    (.error (.outOfBounds "file" offset len (source.size - offset)), wanted)
  else
    -- Every page the read needs is recorded, not only the first one.
    let missing := (source.indices offset len).filter fun index => (source.pages index).isNone
    if missing ≠ [] then (.error .incomplete, wanted.insertAll missing)
    else (source.fill offset len (source.indices offset len) [], wanted)

def readVec (offset len : Nat) : Session Wanted Error Bytes := do
  let _ ← Session.lift (zeroed len)
  source.readExactAt offset len

/-- Record the missing pages of every range before failing. -/
def readEach : List (Nat × Nat) → List Bytes → Bool → Session Wanted Error (List Bytes)
  | [], out, missing => if missing then Session.throw .incomplete else pure out
  | (offset, len) :: ranges, out, missing => fun wanted =>
    match source.readVec offset len wanted with
    | (.ok bytes, wanted) => readEach ranges (if missing then out else out ++ [bytes]) missing wanted
    | (.error .incomplete, wanted) => readEach ranges out true wanted
    | (.error other, wanted) => (.error other, wanted)
    | (.panic p, wanted) => (.panic p, wanted)

def readRanges (ranges : List (Nat × Nat)) : Session Wanted Error (List Bytes) :=
  source.readEach ranges [] false

def handler : Handler Error sourceCalls Wanted
  | .size => fun wanted => (.ok source.size, wanted)
  | .readExactAt offset len => source.readExactAt offset len
  | .readVec offset len => source.readVec offset len
  | .readRanges ranges => source.readRanges ranges

end ReplaySource

/-- The pages a driver holds, and the page cache it shares with other walks. -/
structure Held where
  pages : Nat → Option Bytes
  ioCache : Option IoCache

namespace Replay

/-- The page cache, when its pages have the driver's size. -/
def sharedPage (pageSize : Nat) (ioCache : Option IoCache) (index : Nat) :
    Option Bytes × Option IoCache :=
  match ioCache with
  | some cache =>
    if cache.pageSize = pageSize then
      let (found, cache) := cache.page index
      (found, some cache)
    else (none, some cache)
  | none => (none, none)

def shareWith (pageSize : Nat) (ioCache : Option IoCache) (index : Nat) (bytes : Bytes) :
    Option IoCache :=
  ioCache.map fun cache => if cache.pageSize = pageSize then cache.putPage index bytes else cache

def insertPage (pages : Nat → Option Bytes) (index : Nat) (bytes : Bytes) : Nat → Option Bytes :=
  Function.update pages index (some bytes)

/-- Take what another walk already fetched; the rest becomes runs of pages. -/
def gatherRuns (pageSize : Nat) : List Nat → List (Nat × Nat) → Held → List (Nat × Nat) × Held
  | [], runs, held => (runs, held)
  | index :: wanted, runs, held =>
    if (held.pages index).isSome then gatherRuns pageSize wanted runs held
    else
      match sharedPage pageSize held.ioCache index with
      | (some cached, ioCache) =>
        gatherRuns pageSize wanted runs { pages := insertPage held.pages index cached, ioCache }
      | (none, ioCache) =>
        gatherRuns pageSize wanted (Paging.pushRun runs index) { held with ioCache }

def runRange (pageSize size : Nat) (run : Nat × Nat) : Nat × Nat :=
  let begin := run.1 * pageSize
  let stop := min ((run.2 + 1) * pageSize) size
  (begin, stop - begin)

/-- Cut the bytes of one run into pages and record them. -/
def storePages (pageSize first : Nat) (bytes : Bytes) : List Nat → Held → Held
  | [], held => held
  | step :: steps, held =>
    let start := step * pageSize
    let stop := min (start + pageSize) bytes.length
    let index := first + step
    let page := slice bytes start (stop - start)
    storePages pageSize first bytes steps
      { pages := insertPage held.pages index page,
        ioCache := shareWith pageSize held.ioCache index page }

def storeFetched (pageSize : Nat) : List ((Nat × Nat) × Bytes) → Held → Held
  | [], held => held
  | ((first, _), bytes) :: rest, held =>
    let steps := List.range ((bytes.length + pageSize - 1) / pageSize)
    storeFetched pageSize rest (storePages pageSize first bytes steps held)

/-- Fetch every wanted page. Consecutive pages become one request, and every
request goes out together. -/
def fetch (source : AsyncByteSource) (pageSize size : Nat) (wanted : ReplaySource.Wanted) :
    Session Held Error Unit := fun held =>
  let (runs, held) := gatherRuns pageSize wanted.elements [] held
  if runs = [] then (.ok (), held)
  else
    match source.readRanges (runs.map (runRange pageSize size)) with
    | .ok fetched =>
      if fetched.length ≠ runs.length then
        let answers := fetched.length
        let requests := runs.length
        (.error (.malformed s!"the source returned {answers} buffers for {requests} requests"), held)
      else (.ok (), storeFetched pageSize (runs.zip fetched) held)
    | .error e => (.error e, held)
    | .panic p => (.panic p, held)

def noNewBytes : Error :=
  .malformed "the asynchronous walk asked for no new bytes and did not finish"

def roundLimit : Error :=
  .malformed s!"the asynchronous walk did not finish in {maxRounds} rounds"

variable {α : Type}

/-- The rounds of the driver: fetch what is wanted, run the walk over the pages
held, and go on with what it missed. -/
def rounds (source : AsyncByteSource) (pageSize size : Nat) (build : Walk α) :
    Nat → ReplaySource.Wanted → ReplaySource.Wanted → Session Held Error α
  | 0, _, _ => Session.throw roundLimit
  | budget + 1, wanted, previous => do
    fetch source pageSize size wanted
    fun held =>
      let replay := ReplaySource.new size pageSize held.pages
      match build.runWith replay.handler SortedSet.empty with
      | (.ok value, missing) =>
        if missing = SortedSet.empty then (.ok value, held)
        else if missing = previous then (.ok value, held)
        else rounds source pageSize size build budget missing missing held
      | (.error .incomplete, missing) =>
        if missing = SortedSet.empty ∨ missing = previous then (.error noNewBytes, held)
        else rounds source pageSize size build budget missing missing held
      | (.error other, _) => (.error other, held)
      | (.panic p, _) => (.panic p, held)

/-- The window at the front of the file that seeds the page store. -/
def window (pageSize prefetchBytes size : Nat) : ReplaySource.Wanted :=
  let lastPage := (size - 1) / pageSize
  let window := max ((prefetchBytes + pageSize - 1) / pageSize) 1
  SortedSet.empty.insertAll (List.range (min window (lastPage + 1)))

end Replay

/-- Run a synchronous walk over an asynchronous source. -/
def replay {α : Type} (source : AsyncByteSource) (ioCache : Option IoCache)
    (pageSize prefetchBytes : Nat) (build : Walk α) : Code α × Option IoCache :=
  let size := source.size
  let pageSize := max pageSize 1
  if size = 0 then (.error (.malformed "the source is empty"), ioCache)
  else
    let (outcome, held) :=
      Replay.rounds source pageSize size build maxRounds
        (Replay.window pageSize prefetchBytes size) SortedSet.empty { pages := fun _ => none, ioCache }
    (outcome, held.ioCache)

end Oxcdf
