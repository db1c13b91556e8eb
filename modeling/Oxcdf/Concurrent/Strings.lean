import Oxcdf.Concurrent.Chunks
import Oxcdf.GlobalHeap.Strings

/-! Concurrent reads of variable-length strings.

A reader that follows descriptors into the heap reads each collection through the caches
that it shares with the others. It remembers the collections that it has read, and these
are its own.
-/

set_option autoImplicit false

namespace Oxcdf.Concurrent

open Foundation Foundation.Buffer Thread

variable {δ : Type}

section Threads

variable (file : OpenFile δ) (what : String) (raw : RawData)

/-- `GlobalHeap::read`. -/
def readHeap (address : Nat) : Thread δ GlobalHeap := do
  let sizes := file.view.sizes
  let header ← read file address (GlobalHeap.headerLen sizes)
  let collectionSize ← lift (GlobalHeap.parseHeader sizes (Cursor.start header)).1
  if collectionSize < GlobalHeap.headerLen sizes then
    throw (.malformed "global heap collection size is smaller than its own header")
  else do
    let whole ← read file address collectionSize
    let objects ← lift
      (GlobalHeap.readObjects sizes whole.length (Cursor.startAt whole (GlobalHeap.headerLen sizes))).1
    pure ⟨objects⟩

/-- The collection at an address, read when the call first needs it. -/
def collection (collections : Vlen.Collections) (address : Nat) : Thread δ (GlobalHeap × Vlen.Collections) :=
  match collections.lookup address with
  | some heap => pure (heap, collections)
  | none => do
    let heap ← readHeap file address
    pure (heap, (address, heap) :: collections)

def vlenElement (collections : Vlen.Collections) (i : Nat) : Thread δ ((Bytes × Nat) × Vlen.Collections) := do
  let descriptor ← lift (Vlen.descriptorAt file.view raw i)
  if descriptor.length = 0 then pure (([], 0), collections)
  else do
    let (heap, collections) ← collection file collections descriptor.collectionAddress
    let object ← lift (Outcome.ofOption (Vlen.absent what i descriptor.objectIndex)
      (heap.object (descriptor.objectIndex % 2 ^ 16)))
    pure ((object.data, descriptor.length), collections)

/-- The texts of some elements in turn. -/
def vlenStrings : Vlen.Collections → List Nat → Thread δ (List String)
  | _, [] => pure []
  | collections, i :: rest => do
    let (found, collections) ← vlenElement file what raw collections i
    let texts ← vlenStrings collections rest
    pure (Vlen.decodeText found.1 found.2 :: texts)

def resolveVlenStringsOf : Thread δ (List String) :=
  let width := VlenDescriptor.encodedLen file.view.sizes
  if raw.elementSize < width then throw (Vlen.tooSmall raw width)
  else vlenStrings file what raw [] (List.range raw.len)

def resolveVlenStrings (dataset : DatasetIndex) : Thread δ (List String) :=
  match dataset.datatype.class_ with
  | .variableLength .string _ _ _ => resolveVlenStringsOf file dataset.path raw
  | .variableLength .sequence _ _ _ =>
    throw (.unsupported "variable-length sequences are not decoded as strings")
  | _ => throw (.unsupported s!"dataset {dataset.path} is not a variable-length type")

end Threads

section Alone

variable [DecidableEq δ] {build : Build} {file : OpenFile δ} {proviso : Prop} {what : String} {raw : RawData}
  (serves : file.source.Serves file.image)

include serves

/-- What a read of the file returns, is read through the caches. -/
theorem read_returned {address len : Nat} {bytes : Bytes} (returned : file.view.read address len = .ok bytes) :
    Dialogue.Gives Sharing.answer (agreement build file) proviso (.ok bytes) (read file address len) := by
  obtain ⟨held, -⟩ := holds_of_readVec returned
  -- A view reads the bytes of the image, and these are what the pages and the source give.
  have part : file.view.read address len = .ok (file.image.part (file.view.resolve address) len) := by
    unfold View.read
    rw [fileSource_readVec _ _ _ held.le_isizeMax, if_pos held]
    rfl
  cases returned.symm.trans part
  have fetched := @Read.fetched_of_held file.ctx file.image file.own.io.isSome serves address len held
  have gives := @read_gives δ build file _ proviso serves address len
  exact fetched ▸ gives

theorem readHeap_returned {address : Nat} {heap : GlobalHeap}
    (returned : GlobalHeap.read file.view address = .ok heap) :
    Dialogue.Gives Sharing.answer (agreement build file) proviso (.ok heap) (readHeap file address) := by
  obtain ⟨header, front, returned⟩ := Outcome.bind_eq_ok.mp returned
  obtain ⟨collectionSize, size, returned⟩ := Outcome.bind_eq_ok.mp returned
  unfold readHeap
  refine (read_returned serves front).bind_ok ?_
  rw [size]
  refine (Dialogue.Gives.lift proviso _).bind_ok ?_
  split at returned
  · cases returned
  · next wide =>
    obtain ⟨whole, held, returned⟩ := Outcome.bind_eq_ok.mp returned
    obtain ⟨objects, parsed, same⟩ := Outcome.bind_eq_ok.mp returned
    cases same
    rw [if_neg wide]
    refine (read_returned serves held).bind_ok ?_
    rw [parsed]
    exact (Dialogue.Gives.lift proviso _).bind_ok (Dialogue.Gives.pure proviso _)

theorem collection_returned {collections : Vlen.Collections} {address : Nat}
    {found : GlobalHeap × Vlen.Collections} (returned : Vlen.collection file.view collections address = .ok found) :
    Dialogue.Gives Sharing.answer (agreement build file) proviso (.ok found)
      (collection file collections address) := by
  unfold Vlen.collection at returned
  unfold collection
  -- The collections already read belong to this reader, so a step of another changes none of them.
  cases held : collections.lookup address with
  | some heap =>
    rw [held] at returned
    cases returned
    exact Dialogue.Gives.pure proviso _
  | none =>
    rw [held] at returned
    obtain ⟨heap, read, same⟩ := Outcome.bind_eq_ok.mp returned
    cases same
    exact (readHeap_returned serves read).bind_ok (Dialogue.Gives.pure proviso _)

theorem vlenElement_returned {collections : Vlen.Collections} {i : Nat} {found : (Bytes × Nat) × Vlen.Collections}
    (returned : Vlen.element file.view what raw collections i = .ok found) :
    Dialogue.Gives Sharing.answer (agreement build file) proviso (.ok found)
      (vlenElement file what raw collections i) := by
  obtain ⟨descriptor, parsed, returned⟩ := Outcome.bind_eq_ok.mp returned
  unfold vlenElement
  rw [parsed]
  refine (Dialogue.Gives.lift proviso _).bind_ok ?_
  -- An empty element is not looked up: its collection may not exist.
  split at returned
  · next none_ =>
    cases returned
    rw [if_pos none_]
    exact Dialogue.Gives.pure proviso _
  · next some_ =>
    obtain ⟨⟨heap, later⟩, held, returned⟩ := Outcome.bind_eq_ok.mp returned
    obtain ⟨object, named, same⟩ := Outcome.bind_eq_ok.mp returned
    cases same
    rw [if_neg some_]
    refine (collection_returned serves held).bind_ok ?_
    dsimp only
    rw [named]
    exact (Dialogue.Gives.lift proviso _).bind_ok (Dialogue.Gives.pure proviso _)

/-- The texts that a walk over the descriptors returns, are read through the caches. -/
theorem vlenStrings_returned (items : List Nat) : ∀ {collections : Vlen.Collections} {texts : List String},
    Vlen.walk file.view what raw (fun bytes length => pure (Vlen.decodeText bytes length)) collections items () =
      (.ok texts, ()) →
    Dialogue.Gives Sharing.answer (agreement build file) proviso (.ok texts)
      (vlenStrings file what raw collections items) := by
  -- The collections stay general, as each element leaves more of them to the next.
  induction items with
  | nil =>
    intro collections texts returned
    cases returned
    exact Dialogue.Gives.pure proviso _
  | cons i rest ih =>
    intro collections texts returned
    obtain ⟨⟨found, later⟩, _, first, returned⟩ := Session.bind_eq_ok.mp returned
    obtain ⟨text, _, decoded, returned⟩ := Session.bind_eq_ok.mp returned
    obtain ⟨others, _, walked, same⟩ := Session.bind_eq_ok.mp returned
    cases decoded
    cases same
    obtain ⟨element, -⟩ := Session.lift_eq_ok.mp first
    exact (vlenElement_returned serves element).bind_ok ((ih walked).bind_ok (Dialogue.Gives.pure proviso _))

theorem resolveVlenStringsOf_returned {texts : List String}
    (returned : Vlen.resolveVlenStringsOf file.view what raw = .ok texts) :
    Dialogue.Gives Sharing.answer (agreement build file) proviso (.ok texts)
      (resolveVlenStringsOf file what raw) := by
  unfold Vlen.resolveVlenStringsOf Vlen.withVlenDescriptors at returned
  unfold resolveVlenStringsOf
  dsimp only
  split at returned
  · cases returned
  · next wide =>
    rw [if_neg wide]
    exact vlenStrings_returned serves _ (Prod.ext returned rfl)

theorem resolveVlenStrings_returned {dataset : DatasetIndex} {texts : List String}
    (returned : Vlen.resolveVlenStrings file.view dataset raw = .ok texts) :
    Dialogue.Gives Sharing.answer (agreement build file) proviso (.ok texts)
      (resolveVlenStrings file raw dataset) := by
  obtain ⟨base, pad, charset, strings⟩ : ∃ base pad charset,
      dataset.datatype.class_ = .variableLength .string base pad charset := by
    unfold Vlen.resolveVlenStrings at returned
    split at returned
    · next found => exact ⟨_, _, _, found⟩
    · cases returned
    · cases returned
  simp only [Vlen.resolveVlenStrings, strings] at returned
  simp only [resolveVlenStrings, strings]
  exact resolveVlenStringsOf_returned serves returned

end Alone

end Oxcdf.Concurrent
