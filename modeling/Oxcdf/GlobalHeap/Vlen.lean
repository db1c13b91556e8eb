import Oxcdf.Cursor.Steady
import Oxcdf.GlobalHeap
import Oxcdf.Text

/-! Variable-length elements: a descriptor for each, which names an object of a collection.

The index of the object is 32 bits wide in a descriptor and 16 bits wide in a collection,
and the lookup keeps the low half of it. An index from 2 ^ 16 on names no object, but the
object of its low half is found.
-/

set_option autoImplicit false

namespace Oxcdf

open Foundation Foundation.Buffer Foundation.Format

/-- A pointer to a variable-length value. -/
structure VlenDescriptor where
  /-- Number of elements in the sequence, or bytes in the string. -/
  length : Nat
  collectionAddress : Nat
  objectIndex : Nat
  deriving DecidableEq, Repr

namespace VlenDescriptor

def parse (sizes : Sizes) : Parse VlenDescriptor := do
  let length ← Cursor.u32
  let collectionAddress ← Cursor.addressRequired sizes "vlen global heap collection"
  let objectIndex ← Cursor.u32
  pure { length, collectionAddress, objectIndex }

def encodedLen (sizes : Sizes) : Nat := 4 + sizes.offset + 4

end VlenDescriptor

namespace Vlen

section Walk

/-- The collections that a call has read so far. -/
abbrev Collections := List (Nat × GlobalHeap)

variable (view : View) (what : String) (raw : RawData)

def tooSmall (width : Nat) : Error :=
  .malformed s!"variable-length element is {raw.elementSize} bytes, too small for a {width}-byte descriptor"

def absent (i objectIndex : Nat) : Error :=
  .malformed s!"variable-length element {i} of {what} names global heap object {objectIndex} which is absent"

def descriptorAt (i : Nat) : Code VlenDescriptor := do
  let start := i * raw.elementSize
  let window ← range raw.bytes start (start + VlenDescriptor.encodedLen view.sizes)
  (VlenDescriptor.parse view.sizes (Cursor.start window)).1

/-- The collection at an address, read when the call first needs it. -/
def collection (collections : Collections) (address : Nat) : Code (GlobalHeap × Collections) :=
  match collections.lookup address with
  | some heap => .ok (heap, collections)
  | none => do
    let heap ← GlobalHeap.read view address
    .ok (heap, (address, heap) :: collections)

def element (collections : Collections) (i : Nat) : Code ((Bytes × Nat) × Collections) := do
  let descriptor ← descriptorAt view raw i
  if descriptor.length = 0 then .ok (([], 0), collections)
  else do
    let (heap, collections) ← collection view collections descriptor.collectionAddress
    -- The index is narrowed to 16 bits.
    let object ← Outcome.ofOption (absent what i descriptor.objectIndex)
      (heap.object (descriptor.objectIndex % 2 ^ 16))
    .ok ((object.data, descriptor.length), collections)

variable {σ T : Type}

/-- Each element in turn is handed to `decode`, which may keep a state of its own. -/
def walk (decode : Bytes → Nat → Session σ Error T) : Collections → List Nat → Session σ Error (List T)
  | _, [] => pure []
  | collections, i :: rest => do
    let (found, collections) ← Session.lift (element view what raw collections i)
    let value ← decode found.1 found.2
    let values ← walk decode collections rest
    pure (value :: values)

def withVlenDescriptors (decode : Bytes → Nat → Session σ Error T) : Session σ Error (List T) :=
  if raw.elementSize < VlenDescriptor.encodedLen view.sizes then
    Session.throw (tooSmall raw (VlenDescriptor.encodedLen view.sizes))
  else walk view what raw decode [] (List.range raw.len)

end Walk

section Named

variable (view : View) (what : String) (raw : RawData)

/-- What an element stands for when an index of its descriptor is looked up: the object of that index in a
collection that is read anew. -/
def lookedUp (index : VlenDescriptor → Nat) (i : Nat) : Code (Bytes × Nat) := do
  let descriptor ← descriptorAt view raw i
  if descriptor.length = 0 then .ok ([], 0)
  else do
    let heap ← GlobalHeap.read view descriptor.collectionAddress
    let object ← Outcome.ofOption (absent what i descriptor.objectIndex) (heap.object (index descriptor))
    .ok (object.data, descriptor.length)

/-- The object that an element names, by the whole index. -/
def named (i : Nat) : Code (Bytes × Nat) := lookedUp view what raw VlenDescriptor.objectIndex i

variable {σ T : Type}

/-- Each element in turn, as the object that it names. -/
def withNamedObjects (decode : Bytes → Nat → Session σ Error T) : Session σ Error (List T) :=
  if raw.elementSize < VlenDescriptor.encodedLen view.sizes then
    Session.throw (tooSmall raw (VlenDescriptor.encodedLen view.sizes))
  else (List.range raw.len).mapM fun i => do
    let found ← Session.lift (named view what raw i)
    decode found.1 found.2

/-- An element that is not empty has an index past 16 bits, and its collection an object of the low half. -/
def Aliased (i : Nat) : Prop :=
  ∃ descriptor heap, descriptorAt view raw i = .ok descriptor ∧ descriptor.length ≠ 0 ∧
    2 ^ 16 ≤ descriptor.objectIndex ∧ GlobalHeap.read view descriptor.collectionAddress = .ok heap ∧
    (heap.object (descriptor.objectIndex % 2 ^ 16)).isSome

/-- The walk comes to an element that is aliased. -/
def Aliases : Prop :=
  VlenDescriptor.encodedLen view.sizes ≤ raw.elementSize ∧
    ∃ i < raw.len, (∀ j < i, ∃ found, named view what raw j = .ok found) ∧ Aliased view raw i

end Named

section Fresh

variable {view : View} {what : String} {raw : RawData} {collections : Collections}

/-- What has been read so far is what the file holds. -/
def Sound (view : View) (collections : Collections) : Prop :=
  ∀ entry ∈ collections, GlobalHeap.read view entry.1 = .ok entry.2

theorem collection_fst (sound : Sound view collections) (address : Nat) :
    Prod.fst <$> collection view collections address = GlobalHeap.read view address := by
  unfold collection
  split
  · next heap found =>
    obtain ⟨front, back, rfl, -⟩ := List.lookup_eq_some_iff.mp found
    exact (sound (address, heap) (by simp)).symm
  · cases GlobalHeap.read view address <;> rfl

theorem collection_sound (sound : Sound view collections) {address : Nat} {heap : GlobalHeap}
    {later : Collections} (found : collection view collections address = .ok (heap, later)) :
    Sound view later := by
  unfold collection at found
  split at found
  · cases found
    exact sound
  · obtain ⟨fresh, read, same⟩ := Outcome.bind_eq_ok.mp found
    cases same
    exact List.forall_mem_cons.mpr ⟨read, sound⟩

def narrowed (view : View) (what : String) (raw : RawData) (i : Nat) : Code (Bytes × Nat) :=
  lookedUp view what raw (fun descriptor => descriptor.objectIndex % 2 ^ 16) i

theorem element_fst (sound : Sound view collections) (i : Nat) :
    Prod.fst <$> element view what raw collections i = narrowed view what raw i := by
  unfold element narrowed lookedUp
  cases descriptorAt view raw i with
  | error e => rfl
  | panic why => rfl
  | ok descriptor =>
    simp only [Outcome.ok_bind]
    split
    · rfl
    · have fresh := collection_fst sound descriptor.collectionAddress
      cases held : collection view collections descriptor.collectionAddress with
      | error e =>
        rw [held] at fresh
        rw [← fresh]
        rfl
      | panic why =>
        rw [held] at fresh
        rw [← fresh]
        rfl
      | ok found =>
        rw [held] at fresh
        rw [← fresh]
        simp only [Outcome.ok_bind, Outcome.map_ok]
        cases found.1.object (descriptor.objectIndex % 2 ^ 16) <;> rfl

theorem element_sound (sound : Sound view collections) {i : Nat} {found : Bytes × Nat} {later : Collections}
    (resolved : element view what raw collections i = .ok (found, later)) : Sound view later := by
  unfold element at resolved
  obtain ⟨descriptor, -, resolved⟩ := Outcome.bind_eq_ok.mp resolved
  split at resolved
  · cases resolved
    exact sound
  · obtain ⟨⟨heap, next⟩, held, resolved⟩ := Outcome.bind_eq_ok.mp resolved
    obtain ⟨object, -, same⟩ := Outcome.bind_eq_ok.mp resolved
    cases same
    exact collection_sound sound held

variable {σ T : Type} {decode : Bytes → Nat → Session σ Error T}

/-- Collections that were read before are the same when they are read anew. -/
theorem walk_eq (items : List Nat) : ∀ {collections : Collections}, Sound view collections →
    walk view what raw decode collections items =
      items.mapM fun i => Session.lift (narrowed view what raw i) >>= fun found => decode found.1 found.2 := by
  induction items with
  | nil =>
    intro collections sound
    rfl
  | cons i rest ih =>
    intro collections sound
    rw [List.mapM_cons, walk, ← element_fst sound i]
    cases resolved : element view what raw collections i with
    | error e => rfl
    | panic why => rfl
    | ok found =>
      rw [Outcome.map_ok, Session.bind_lift_ok, Session.bind_lift_ok, ← ih (element_sound sound resolved)]

end Fresh

section Aliasing

open GlobalHeap

variable {view : View} {what : String} {raw : RawData}

theorem yields_objectHeader (sizes : Sizes) :
    (parseObjectHeader sizes).Yields fun header => header.1 < 256 ^ 2 := by
  unfold parseObjectHeader
  refine Cursor.yields_u16.bind fun index narrow => ?_
  iterate 3 refine Session.Yields.last fun _ => ?_
  exact Session.Yields.pure narrow

/-- A collection stores an index in 16 bits. -/
theorem yields_objects (sizes : Sizes) (budget : Nat) :
    (readObjects sizes budget).Yields fun objects => ∀ o ∈ objects, o.index < 256 ^ 2 := by
  induction budget with
  | zero => exact Session.Yields.pure (by simp)
  | succ budget ih =>
    unfold readObjects
    refine Session.Yields.last fun room => ?_
    split
    · exact Session.Yields.pure (by simp)
    · refine (yields_objectHeader sizes).bind fun header narrow => Session.Yields.last fun remaining => ?_
      split
      · exact Session.Yields.pure (by simp)
      · split
        · exact Session.Yields.throw _
        · refine Session.Yields.last fun data => Session.Yields.last fun behind => ?_
          split
          · exact Session.Yields.pure (List.forall_mem_singleton.mpr narrow)
          · refine Session.Yields.last fun _ => ih.bind fun objects later => ?_
            exact Session.Yields.pure (List.forall_mem_cons.mpr ⟨narrow, later⟩)

theorem index_lt {address : Nat} {heap : GlobalHeap} (found : GlobalHeap.read view address = .ok heap) :
    ∀ o ∈ heap.objects, o.index < 2 ^ 16 := by
  unfold GlobalHeap.read at found
  obtain ⟨header, -, found⟩ := Outcome.bind_eq_ok.mp found
  obtain ⟨collectionSize, -, found⟩ := Outcome.bind_eq_ok.mp found
  split at found
  · cases found
  · obtain ⟨whole, -, found⟩ := Outcome.bind_eq_ok.mp found
    obtain ⟨objects, read, same⟩ := Outcome.bind_eq_ok.mp found
    cases same
    exact yields_objects view.sizes _ _ _ _ (Prod.ext read rfl)

theorem object_none {address : Nat} {heap : GlobalHeap} (found : GlobalHeap.read view address = .ok heap)
    {index : Nat} (wide : 2 ^ 16 ≤ index) : heap.object index = none := by
  refine List.find?_eq_none.mpr fun o member => ?_
  have narrow := index_lt found o member
  simp only [beq_iff_eq]
  omega

/-- An element that is not aliased is the object that it names. -/
theorem narrowed_eq {i : Nat} (clear : ¬ Aliased view raw i) :
    narrowed view what raw i = named view what raw i := by
  unfold narrowed named lookedUp
  refine Outcome.bind_congr fun descriptor parsed => ?_
  by_cases empty : descriptor.length = 0
  · rw [if_pos empty, if_pos empty]
  · rw [if_neg empty, if_neg empty]
    refine Outcome.bind_congr fun heap read => ?_
    dsimp only
    rcases Nat.lt_or_ge descriptor.objectIndex (2 ^ 16) with narrow | wide
    · rw [Nat.mod_eq_of_lt narrow]
    · have absent : heap.object (descriptor.objectIndex % 2 ^ 16) = none := by
        by_contra present
        exact clear ⟨descriptor, heap, parsed, empty, wide, read, Option.isSome_iff_ne_none.mpr present⟩
      rw [absent, object_none read wide]

/-- An aliased element names no object, and another is handed out for it. -/
theorem Aliased.substitutes {i : Nat} (aliased : Aliased view raw i) :
    (∃ e, named view what raw i = .error e) ∧ ∃ found, narrowed view what raw i = .ok found := by
  obtain ⟨descriptor, heap, parsed, some, wide, read, present⟩ := aliased
  obtain ⟨object, present⟩ := Option.isSome_iff_exists.mp present
  unfold named narrowed lookedUp
  simp only [parsed, Outcome.ok_bind, if_neg some, read, object_none read wide, present]
  exact ⟨⟨_, rfl⟩, _, rfl⟩

theorem not_aliased_of_named {i : Nat} {found : Bytes × Nat} (resolved : named view what raw i = .ok found) :
    ¬ Aliased view raw i := by
  intro aliased
  obtain ⟨e, failed⟩ := (@Aliased.substitutes _ what _ _ aliased).1
  cases resolved.symm.trans failed

end Aliasing

section Order

variable {α β σ : Type} {first second : Nat → Code α} {next : α → Session σ Error β}

/-- Two passes are one where their steps agree up to the first that fails. -/
theorem pass_congr {items : List Nat}
    (same : ∀ before i after, items = before ++ i :: after → (∀ j ∈ before, ∃ a, second j = .ok a) →
      first i = second i) :
    (items.mapM fun i => Session.lift (first i) >>= next) = items.mapM fun i =>
      Session.lift (second i) >>= next := by
  induction items with
  | nil => rfl
  | cons i items ih =>
    rw [List.mapM_cons, List.mapM_cons, same [] i items rfl (by simp)]
    cases found : second i with
    | error e => rfl
    | panic why => rfl
    | ok a =>
      rw [ih]
      intro before j after split earlier
      refine same (i :: before) j after (by rw [split]; rfl) ?_
      exact List.forall_mem_cons.mpr ⟨⟨a, found⟩, earlier⟩

def counting (step : Nat → Code α) (items : List Nat) : Session Nat Error (List Unit) :=
  items.mapM fun i => Session.lift (step i) >>= fun _ => Session.modify (· + 1)

theorem snd_bind_pure {γ : Type} (step : Session σ Error α) (f : α → γ) (state : σ) :
    ((step >>= fun a => pure (f a)) state).2 = (step state).2 := by
  rw [Session.bind_apply]
  rcases step state with ⟨a | e | p, after⟩ <;> rfl

theorem counting_cons {i : Nat} {a : α} (found : first i = .ok a) (rest : List Nat) (count : Nat) :
    (counting first (i :: rest) count).2 = (counting first rest (count + 1)).2 := by
  unfold counting
  rw [List.mapM_cons, found, Session.bind_lift_ok]
  exact snd_bind_pure _ (() :: ·) (count + 1)

theorem counting_front {items : List Nat} (fine : ∀ i ∈ items, ∃ a, first i = .ok a) (rest : List Nat) :
    ∀ count : Nat, (counting first (items ++ rest) count).2 =
      (counting first rest (count + items.length)).2 := by
  induction items with
  | nil =>
    intro count
    rfl
  | cons i items ih =>
    intro count
    obtain ⟨⟨a, found⟩, later⟩ := List.forall_mem_cons.mp fine
    have length : count + (items.length + 1) = count + 1 + items.length := by omega
    rw [List.cons_append, counting_cons found, ih later, List.length_cons, length]

theorem counting_error {i : Nat} {e : Error} (failed : first i = .error e) (rest : List Nat) (count : Nat) :
    (counting first (i :: rest) count).2 = count := by
  unfold counting
  rw [List.mapM_cons, failed]
  rfl

theorem counting_le (items : List Nat) : (counting first items).Moves (· ≤ ·) := by
  have trans : ∀ a b c : Nat, a ≤ b → b ≤ c → a ≤ c := fun a b c => Nat.le_trans
  induction items with
  | nil => exact fun count => Nat.le_refl count
  | cons i items ih =>
    unfold counting
    rw [List.mapM_cons]
    have turn : (Session.lift (first i) >>= fun _ =>
      Session.modify (· + 1) : Session Nat Error Unit).Moves (· ≤ ·) :=
      Session.Moves.bind trans (fun count => Nat.le_refl count) fun _ count => Nat.le_succ count
    exact turn.bind trans fun _ => ih.bind trans fun _ count => Nat.le_refl count

end Order

section Resolved

variable (view : View) (what : String) (raw : RawData)

/-- Every element is handed to `decode` as the object that it names, unless one of them is aliased. -/
theorem withVlenDescriptors_eq_iff :
    (∀ (σ T : Type) (decode : Bytes → Nat → Session σ Error T),
      withVlenDescriptors view what raw decode = withNamedObjects view what raw decode) ↔
    ¬ Aliases view what raw := by
  constructor
  · rintro same ⟨wide, i, inside, earlier, aliased⟩
    -- A count of what is handed out tells the two apart.
    have counted := same Nat Unit fun _ _ => Session.modify (· + 1)
    unfold withVlenDescriptors withNamedObjects at counted
    rw [if_neg (Nat.not_lt.mpr wide), if_neg (Nat.not_lt.mpr wide), walk_eq _ (by simp [Sound])] at counted
    replace counted : counting (narrowed view what raw) (List.range raw.len) =
      counting (named view what raw) (List.range raw.len) := counted
    obtain ⟨⟨e, failed⟩, found, substituted⟩ := @Aliased.substitutes _ what _ _ aliased
    have items : List.range raw.len = List.range i ++ i :: List.range' (i + 1) (raw.len - i - 1) := by
      rw [List.range_eq_range', List.range_eq_range', List.range'_eq_append_iff]
      refine ⟨i, inside.le, rfl, (List.range'_eq_cons_iff.mpr ⟨by omega, by omega, by simp⟩).symm⟩
    have before : ∀ j ∈ List.range i, ∃ found, named view what raw j = .ok found :=
      fun j member => earlier j (List.mem_range.mp member)
    have narrow : ∀ j ∈ List.range i, ∃ found, narrowed view what raw j = .ok found := by
      intro j member
      obtain ⟨found, resolved⟩ := before j member
      exact ⟨found, (narrowed_eq (not_aliased_of_named resolved)).trans resolved⟩
    have ends := congrArg Prod.snd (congrFun counted 0)
    rw [items, counting_front narrow, counting_front before, counting_error failed,
      counting_cons substituted] at ends
    have later := @counting_le _ (narrowed view what raw) (List.range' (i + 1) (raw.len - i - 1))
      (0 + (List.range i).length + 1)
    omega
  · intro clear σ T decode
    unfold withVlenDescriptors withNamedObjects
    split
    · rfl
    · next wide =>
      rw [walk_eq _ (by simp [Sound])]
      refine pass_congr fun before i after split earlier => narrowed_eq fun aliased => clear ?_
      rw [List.range_eq_range', List.range'_eq_append_iff] at split
      obtain ⟨k, bound, rfl, split⟩ := split
      obtain ⟨rfl, more, -⟩ := List.range'_eq_cons_iff.mp split.symm
      refine ⟨Nat.not_lt.mp wide, _, ?_, ?_, aliased⟩
      · omega
      · intro j small
        exact earlier j (by rw [List.mem_range']; exact ⟨j, by omega, by omega⟩)

end Resolved

section Hello

open GlobalHeap

/-- A file with one object, of index 1. -/
def helloFile : View := collectionFile (encodeObject ⟨8, 8⟩ hello (List.replicate 4 0) []) (by decide)

/-- One element, which names the object of index 65537. -/
def pastWord : RawData where
  bytes := littleEndian 4 5 ++ (littleEndian 8 0 ++ littleEndian 4 65537)
  elementSize := 16
  shape := [1]

/-- The file has no object of this index, and the element is the object of index 1. -/
theorem pastWord_hello : ∃ heap, GlobalHeap.read helloFile 0 = .ok heap ∧ heap.object 65537 = none ∧
    descriptorAt helloFile pastWord 0 = .ok ⟨5, 0, 65537⟩ ∧
    (withVlenDescriptors helloFile "x" pastWord (fun bytes _ => (pure bytes : Session Unit Error Bytes)) ()).1 =
      .ok [hello.data] := by
  have fits : hello.Fits ⟨8, 8⟩ := ⟨by decide, by decide, by decide, by decide⟩
  have read : GlobalHeap.read helloFile 0 = .ok ⟨[hello]⟩ := by
    refine read_laid (Nat.le_refl 8) ?_ (stored_collectionFile (by decide))
    exact ⟨[], [hello], [], _, rfl, rfl, .nil, .unpadded fits rfl (by decide)⟩
  have parsed : descriptorAt helloFile pastWord 0 = .ok ⟨5, 0, 65537⟩ := by decide
  have one : List.range pastWord.len = [0] := by decide
  refine ⟨⟨[hello]⟩, read, rfl, parsed, ?_⟩
  unfold withVlenDescriptors
  rw [if_neg (by decide), one, walk_eq _ (by simp [Sound])]
  simp only [narrowed, lookedUp, List.mapM_cons, List.mapM_nil, parsed, Outcome.ok_bind, read]
  rfl

end Hello

end Vlen

end Oxcdf
